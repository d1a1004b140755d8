import Sigc.Addressing

/-!
# How slots, reps, lists and records hang together

A rep is held by one slot.  The living elements of the lists are the slots that the lists own.  A
rep whose parent is a `self_and_iter` record is held by the element that the record points to.
`Linkage` states this of the parts of a world, and every step of the library keeps it.
-/

namespace Sigc

open Reasoning Prog

variable {V : Type} {w w' : World V}

/-! ## What is linked -/

/-- What a suspended function has to do with the links between objects: it holds a rep that is to
go to a slot, it is going to destroy a record, or it owns a placeholder. -/
inductive Link where
  | incoming (rep : Addr)
  | cleaning (record : Addr)
  | emitting (impl : Addr) (placeholder : SlotAddr)
  deriving DecidableEq

def Frame.link : Frame V → Option Link
  | .assigning _ new => some (.incoming new)
  | .cleanup d => some (.cleaning d)
  | .emission e => some (.emitting e.impl e.placeholder)
  | _ => none

def World.links (w : World V) : List (Option Link) := w.frames.map Frame.link

/-- `d` is the parent of the rep, and is told through its list. -/
def SlotRep.ChildOf (rep : SlotRep) (d : Addr) : Prop :=
  rep.parent = some d ∧ rep.cleanup = some .notifySelfAndIterOfInvalidatedSlot

structure Linkage (slots : SlotAddr → Option SlotBase) (reps : Addr → Option SlotRep)
    (impls : Addr → Option SignalImpl) (records : Addr → Option SelfAndIter)
    (links : List (Option Link)) : Prop where
  /-- a rep is held by one slot, or by an assignment that is going to place it -/
  unique : ∀ s s' sl sl' r, slots s = some sl → sl.rep = some r → slots s' = some sl' →
    sl'.rep = some r → s = s'
  incomingOnce : ∀ r, links.count (some (.incoming r)) ≤ 1
  incomingFree : ∀ r, some (.incoming r) ∈ links → ∀ s sl, slots s = some sl → sl.rep ≠ some r
  /-- the elements of a list are the living slots that it owns -/
  nodup : ∀ i self, impls i = some self → self.slots.Nodup
  element : ∀ i self n, impls i = some self → n ∈ self.slots →
    ∃ sl, slots n = some sl ∧ sl.owner = .list i ∧ sl.dying = false
  listed : ∀ i n sl, slots n = some sl → sl.owner = .list i → sl.dying = false →
    ∃ self, impls i = some self ∧ n ∈ self.slots
  /-- a placeholder lives as long as its emission -/
  emitting : ∀ i p, some (.emitting i p) ∈ links → ∃ d, p = .placeholder d
  placeholder : ∀ d sl i, slots (.placeholder d) = some sl → sl.owner = .list i →
    links.reverse[d]? = some (some (.emitting i (.placeholder d)))
  /-- a record points to the element whose rep it is the parent of -/
  child : ∀ r rep d, reps r = some rep → rep.ChildOf d →
    ∃ si sl, records d = some si ∧ slots si.iter = some sl ∧ sl.rep = some r ∧
      sl.owner = .list si.self
  parent : ∀ n sl i r rep, slots n = some sl → sl.owner = .list i → sl.rep = some r →
    reps r = some rep → rep.parent ≠ none → rep.cleanup = some .notifySelfAndIterOfInvalidatedSlot
  cleaning : ∀ d, some (.cleaning d) ∈ links → ∀ r rep, reps r = some rep → ¬rep.ChildOf d

def World.Linked (w : World V) : Prop := Linkage w.slots w.reps w.impls w.records w.links

namespace Linkage

variable {slots slots' : SlotAddr → Option SlotBase} {reps reps' : Addr → Option SlotRep}
  {impls impls' : Addr → Option SignalImpl} {records records' : Addr → Option SelfAndIter}
  {links links' : List (Option Link)} {l : Option Link} {s n : SlotAddr} {sl x : SlotBase}
  {r d i : Addr}

/-- The rep of a slot outside the lists is no child. -/
theorem not_child (h : Linkage slots reps impls records links) (hs : slots s = some sl)
    (hr : sl.rep = some r) (hu : ∀ i, sl.owner ≠ .list i) {rep : SlotRep} (hrep : reps r = some rep)
    (d : Addr) : ¬rep.ChildOf d := by
  intro hc
  obtain ⟨si, sl', -, hs', hr', ho⟩ := h.child r rep d hrep hc
  obtain rfl := h.unique _ _ _ _ _ hs hr hs' hr'
  obtain rfl := Option.some.inj (hs.symm.trans hs')
  exact hu _ ho

/-- A record has one child. -/
theorem child_unique (h : Linkage slots reps impls records links) {r r' : Addr}
    {rep rep' : SlotRep} (hr : reps r = some rep) (hc : rep.ChildOf d) (hr' : reps r' = some rep')
    (hc' : rep'.ChildOf d) : r = r' := by
  obtain ⟨si, sl, hd, hs, hsr, -⟩ := h.child r rep d hr hc
  obtain ⟨si', sl', hd', hs', hsr', -⟩ := h.child r' rep' d hr' hc'
  obtain rfl := Option.some.inj (hd.symm.trans hd')
  obtain rfl := Option.some.inj (hs.symm.trans hs')
  exact Option.some.inj (hsr.symm.trans hsr')

/-! ## Slots -/

/-- A slot is changed, but for its rep and its place in a list. -/
theorem setSlot (h : Linkage slots reps impls records links) (hs : slots s = some sl)
    (hrep : x.rep = sl.rep) (howner : x.owner = sl.owner) (hdying : x.dying = sl.dying) :
    Linkage (Function.update slots s (some x)) reps impls records links := by
  -- What the invariant reads of a slot is the same before and after, in both directions.
  have hold : ∀ t y, Function.update slots s (some x) t = some y →
      ∃ z, slots t = some z ∧ y.rep = z.rep ∧ y.owner = z.owner ∧ y.dying = z.dying := by
    intro t y ht
    obtain ⟨rfl, hy⟩ | ⟨-, hy⟩ := update_eq_some.mp ht
    · obtain rfl := Option.some.inj hy
      exact ⟨sl, hs, hrep, howner, hdying⟩
    · exact ⟨y, hy, rfl, rfl, rfl⟩
  have hnew : ∀ t z, slots t = some z → ∃ y, Function.update slots s (some x) t = some y ∧
      y.rep = z.rep ∧ y.owner = z.owner ∧ y.dying = z.dying := by
    intro t z ht
    by_cases hts : t = s
    · subst hts
      obtain rfl := Option.some.inj (hs.symm.trans ht)
      exact ⟨x, Function.update_self _ _ _, hrep, howner, hdying⟩
    · exact ⟨z, (Function.update_of_ne hts _ _).trans ht, rfl, rfl, rfl⟩
  refine { h with
    unique := fun s s' sl sl' r hs hr hs' hr' => ?_
    incomingFree := fun r hr s sl hs => ?_
    element := fun i self n hi hn => ?_
    listed := fun i n sl hs ho hd => ?_
    placeholder := fun d sl i hs ho => ?_
    child := fun r rep d hr hc => ?_
    parent := fun n sl i r rep hs ho hr => ?_ }
  · obtain ⟨z, hz, hzr, -⟩ := hold s sl hs
    obtain ⟨z', hz', hzr', -⟩ := hold s' sl' hs'
    exact h.unique s s' z z' r hz (hzr ▸ hr) hz' (hzr' ▸ hr')
  · obtain ⟨z, hz, hzr, -⟩ := hold s sl hs
    exact hzr ▸ h.incomingFree r hr s z hz
  · obtain ⟨z, hz, ho, hd⟩ := h.element i self n hi hn
    obtain ⟨y, hy, -, hyo, hyd⟩ := hnew n z hz
    exact ⟨y, hy, hyo.trans ho, hyd.trans hd⟩
  · obtain ⟨z, hz, -, hzo, hzd⟩ := hold n sl hs
    exact h.listed i n z hz (hzo ▸ ho) (hzd ▸ hd)
  · obtain ⟨z, hz, -, hzo, -⟩ := hold _ sl hs
    exact h.placeholder d z i hz (hzo ▸ ho)
  · obtain ⟨si, z, hd, hz, hzr, hzo⟩ := h.child r rep d hr hc
    obtain ⟨y, hy, hyr, hyo, -⟩ := hnew _ z hz
    exact ⟨si, y, hd, hy, hyr.trans hzr, hyo.trans hzo⟩
  · obtain ⟨z, hz, hzr, hzo, -⟩ := hold n sl hs
    exact h.parent n z i r rep hz (hzo ▸ ho) (hzr ▸ hr)

/-- A slot outside the lists is created, changed or erased, and holds a rep that nothing else
holds. -/
theorem outside (h : Linkage slots reps impls records links) {x? : Option SlotBase}
    (hold : ∀ sl, slots s = some sl → ∀ i, sl.owner ≠ .list i)
    (hnew : ∀ x, x? = some x → ∀ i, x.owner ≠ .list i)
    (hfree : ∀ x, x? = some x → ∀ r, x.rep = some r → some (.incoming r) ∉ links ∧
      ∀ t, t ≠ s → ∀ y, slots t = some y → y.rep ≠ some r) :
    Linkage (Function.update slots s x?) reps impls records links := by
  -- the slots in lists are the same
  have hsame : ∀ {t y i}, y.owner = .list i →
      (Function.update slots s x? t = some y ↔ slots t = some y) := by
    intro t y i ho
    by_cases hts : t = s
    · subst hts
      rw [Function.update_self]
      exact ⟨fun hy => absurd ho (hnew y hy i), fun hy => absurd ho (hold y hy i)⟩
    · rw [Function.update_of_ne hts]
  refine { h with
    unique := fun s₁ s₂ sl₁ sl₂ r h₁ hr₁ h₂ hr₂ => ?_
    incomingFree := fun r hr t sl ht => ?_
    element := fun i self n hi hn => ?_
    listed := fun i n sl hs ho hd => h.listed i n sl ((hsame ho).mp hs) ho hd
    placeholder := fun d sl i hs ho => h.placeholder d sl i ((hsame ho).mp hs) ho
    child := fun r rep d hr hc => ?_
    parent := fun n sl i r rep hs ho hr => h.parent n sl i r rep ((hsame ho).mp hs) ho hr }
  · obtain ⟨e₁, hx₁⟩ | ⟨hne₁, hy₁⟩ := update_eq_some.mp h₁ <;>
      obtain ⟨e₂, hx₂⟩ | ⟨hne₂, hy₂⟩ := update_eq_some.mp h₂
    · exact e₁.trans e₂.symm
    · exact absurd hr₂ ((hfree sl₁ hx₁ r hr₁).2 s₂ hne₂ sl₂ hy₂)
    · exact absurd hr₁ ((hfree sl₂ hx₂ r hr₂).2 s₁ hne₁ sl₁ hy₁)
    · exact h.unique s₁ s₂ sl₁ sl₂ r hy₁ hr₁ hy₂ hr₂
  · obtain ⟨-, hx⟩ | ⟨-, hy⟩ := update_eq_some.mp ht
    · exact fun hxr => (hfree sl hx r hxr).1 hr
    · exact h.incomingFree r hr t sl hy
  · obtain ⟨z, hz, ho, hd⟩ := h.element i self n hi hn
    exact ⟨z, (hsame ho).mpr hz, ho, hd⟩
  · obtain ⟨si, z, hd, hz, hzr, hzo⟩ := h.child r rep d hr hc
    exact ⟨si, z, hd, (hsame hzo).mpr hz, hzr, hzo⟩

/-- An element that is being destroyed is gone, and so is its rep. -/
theorem eraseDying (h : Linkage slots reps impls records links)
    (hs : ∀ sl, slots s = some sl → ∀ i, sl.owner = .list i →
      sl.dying = true ∧ ∀ r, sl.rep = some r → reps r = none) :
    Linkage (Function.update slots s none) reps impls records links := by
  have hold : ∀ {t y}, Function.update slots s none t = some y → t ≠ s ∧ slots t = some y := by
    intro t y ht
    obtain ⟨-, hy⟩ | hy := update_eq_some.mp ht
    · cases hy
    · exact hy
  refine { h with
    unique := fun s₁ s₂ sl₁ sl₂ r h₁ hr₁ h₂ => h.unique s₁ s₂ sl₁ sl₂ r (hold h₁).2 hr₁ (hold h₂).2
    incomingFree := fun r hr t sl ht => h.incomingFree r hr t sl (hold ht).2
    element := fun i self n hi hn => ?_
    listed := fun i n sl ht => h.listed i n sl (hold ht).2
    placeholder := fun d sl i ht => h.placeholder d sl i (hold ht).2
    child := fun r rep d hr hc => ?_
    parent := fun n sl i r rep ht => h.parent n sl i r rep (hold ht).2 }
  · obtain ⟨z, hz, ho, hd⟩ := h.element i self n hi hn
    refine ⟨z, (Function.update_of_ne ?_ _ _).trans hz, ho, hd⟩
    rintro rfl
    rw [(hs z hz i ho).1] at hd
    cases hd
  · obtain ⟨si, z, hd, hz, hzr, hzo⟩ := h.child r rep d hr hc
    refine ⟨si, z, hd, (Function.update_of_ne ?_ _ _).trans hz, hzr, hzo⟩
    rintro rfl
    rw [(hs z hz _ hzo).2 r hzr] at hr
    cases hr

/-! ## Reps and records -/

/-- Reps are changed, but not so that a rep becomes the child of a record. -/
theorem setReps (h : Linkage slots reps impls records links)
    (hreps : ∀ r rep', reps' r = some rep' →
      (∃ rep, reps r = some rep ∧ rep'.parent = rep.parent ∧ rep'.cleanup = rep.cleanup) ∨
      rep'.parent = none ∨
      (∀ d, ¬rep'.ChildOf d) ∧ ∀ n sl i, slots n = some sl → sl.owner = .list i →
        sl.rep ≠ some r) : Linkage slots reps' impls records links := by
  have hchild : ∀ r rep' d, reps' r = some rep' → rep'.ChildOf d →
      ∃ rep, reps r = some rep ∧ rep.ChildOf d := by
    intro r rep' d hr hc
    obtain ⟨rep, hrep, hp, hcl⟩ | hp | ⟨hno, -⟩ := hreps r rep' hr
    · exact ⟨rep, hrep, hp ▸ hc.1, hcl ▸ hc.2⟩
    · exact absurd hc.1 (by simp [hp])
    · exact absurd hc (hno d)
  refine { h with
    child := fun r rep' d hr hc => ?_
    parent := fun n sl i r rep' hs ho hsr hr hp' => ?_
    cleaning := fun d hd r rep' hr hc => ?_ }
  · obtain ⟨rep, hrep, hc⟩ := hchild r rep' d hr hc
    exact h.child r rep d hrep hc
  · obtain ⟨rep, hrep, hp, hcl⟩ | hp | ⟨-, hno⟩ := hreps r rep' hr
    · exact hcl.trans (h.parent n sl i r rep hs ho hsr hrep (hp ▸ hp'))
    · exact absurd hp hp'
    · exact absurd hsr (hno n sl i hs ho)
  · obtain ⟨rep, hrep, hc⟩ := hchild r rep' d hr hc
    exact h.cleaning d hd r rep hrep hc

/-- A rep is replaced by one with the same parent, or without one. -/
theorem setRep (h : Linkage slots reps impls records links) {rep rep' : SlotRep}
    (hr : reps r = some rep)
    (hp : rep'.parent = rep.parent ∧ rep'.cleanup = rep.cleanup ∨ rep'.parent = none) :
    Linkage slots (Function.update reps r (some rep')) impls records links := by
  refine h.setReps fun q y hq => ?_
  obtain ⟨rfl, hy⟩ | ⟨-, hq⟩ := update_eq_some.mp hq
  · obtain rfl := Option.some.inj hy
    obtain hp | hp := hp
    · exact .inl ⟨rep, hr, hp⟩
    · exact .inr (.inl hp)
  · exact .inl ⟨y, hq, rfl, rfl⟩

theorem eraseRep (h : Linkage slots reps impls records links) (r : Addr) :
    Linkage slots (Function.update reps r none) impls records links := by
  refine h.setReps fun q y hq => .inl ⟨y, ?_, rfl, rfl⟩
  obtain ⟨-, hy⟩ | ⟨-, hq⟩ := update_eq_some.mp hq
  · cases hy
  · exact hq

/-- A record without a child is destroyed. -/
theorem eraseRecord (h : Linkage slots reps impls records links)
    (hd : ∀ r rep, reps r = some rep → ¬rep.ChildOf d) :
    Linkage slots reps impls (Function.update records d none) links := by
  refine { h with child := fun r rep d' hr hc => ?_ }
  obtain ⟨si, sl, hrec, hrest⟩ := h.child r rep d' hr hc
  refine ⟨si, sl, (Function.update_of_ne ?_ _ _).trans hrec, hrest⟩
  rintro rfl
  exact hd r rep hr hc

/-! ## Lists -/

/-- The lists keep their elements. -/
theorem setImpls (h : Linkage slots reps impls records links)
    (hi : ∀ i, (impls' i).map (·.slots) = (impls i).map (·.slots)) :
    Linkage slots reps impls' records links := by
  have hold : ∀ {i self}, impls' i = some self → ∃ y, impls i = some y ∧ y.slots = self.slots := by
    intro i self hs
    have := hi i
    rw [hs, Option.map_some] at this
    exact Option.map_eq_some_iff.mp this.symm
  refine { h with
    nodup := fun i self hs => ?_
    element := fun i self n hs hn => ?_
    listed := fun i n sl hs ho hd => ?_ }
  · obtain ⟨y, hy, hslots⟩ := hold hs
    exact hslots ▸ h.nodup i y hy
  · obtain ⟨y, hy, hslots⟩ := hold hs
    exact h.element i y n hy (hslots.symm ▸ hn)
  · obtain ⟨y, hy, hn⟩ := h.listed i n sl hs ho hd
    have := hi i
    rw [hy, Option.map_some] at this
    obtain ⟨self, hself, hslots⟩ := Option.map_eq_some_iff.mp this
    exact ⟨self, hself, hslots.symm ▸ hn⟩

theorem setImpl (h : Linkage slots reps impls records links) {self y : SignalImpl}
    (hi : impls i = some self) (hslots : y.slots = self.slots) :
    Linkage slots reps (Function.update impls i (some y)) records links := by
  refine h.setImpls fun j => ?_
  by_cases hj : j = i
  · subst hj
    rw [Function.update_self, hi, Option.map_some, Option.map_some, hslots]
  · rw [Function.update_of_ne hj]

/-- A list without elements is created or destroyed. -/
theorem emptyImpl (h : Linkage slots reps impls records links) {y? : Option SignalImpl}
    (hi : ∀ self, impls i = some self → self.slots = []) (hy : ∀ y, y? = some y → y.slots = []) :
    Linkage slots reps (Function.update impls i y?) records links := by
  refine { h with
    nodup := fun j self hs => ?_
    element := fun j self n hs hn => ?_
    listed := fun j n sl hs ho hd => ?_ }
  · obtain ⟨-, hs⟩ | ⟨-, hs⟩ := update_eq_some.mp hs
    · exact hy self hs ▸ List.nodup_nil
    · exact h.nodup j self hs
  · obtain ⟨-, hs⟩ | ⟨-, hs⟩ := update_eq_some.mp hs
    · rw [hy self hs] at hn
      cases hn
    · exact h.element j self n hs hn
  · obtain ⟨self, hself, hn⟩ := h.listed j n sl hs ho hd
    refine ⟨self, (Function.update_of_ne ?_ _ _).trans hself, hn⟩
    rintro rfl
    rw [hi self hself] at hn
    cases hn

/-- An element leaves its list, and begins to die. -/
theorem unlinkDying (h : Linkage slots reps impls records links) {self y : SignalImpl}
    (hi : impls i = some self) (hn : n ∈ self.slots) (hs : slots n = some sl)
    (hy : y.slots = self.slots.erase n) :
    Linkage (Function.update slots n (some { sl with dying := true })) reps
      (Function.update impls i (some y)) records links := by
  have hnodup := h.nodup i self hi
  have howner : sl.owner = .list i := by
    obtain ⟨z, hz, ho, -⟩ := h.element i self n hi hn
    obtain rfl := Option.some.inj (hs.symm.trans hz)
    exact ho
  have hold : ∀ t y, Function.update slots n (some { sl with dying := true }) t = some y →
      ∃ z, slots t = some z ∧ y.rep = z.rep ∧ y.owner = z.owner ∧ (y.dying = false → t ≠ n ∧ y = z)
      := by
    intro t y ht
    obtain ⟨rfl, hz⟩ | ⟨hts, hz⟩ := update_eq_some.mp ht
    · obtain rfl := Option.some.inj hz
      exact ⟨sl, hs, rfl, rfl, fun hd => by cases hd⟩
    · exact ⟨y, hz, rfl, rfl, fun _ => ⟨hts, rfl⟩⟩
  have hnew : ∀ t z, slots t = some z →
      ∃ y, Function.update slots n (some { sl with dying := true }) t = some y ∧
        y.rep = z.rep ∧ y.owner = z.owner := by
    intro t z ht
    by_cases hts : t = n
    · subst hts
      obtain rfl := Option.some.inj (hs.symm.trans ht)
      exact ⟨_, Function.update_self _ _ _, rfl, rfl⟩
    · exact ⟨z, (Function.update_of_ne hts _ _).trans ht, rfl, rfl⟩
  -- the element belongs to this list only
  have hother : ∀ {j self'}, j ≠ i → impls j = some self' → n ∉ self'.slots := by
    intro j self' hj hj' hmem
    obtain ⟨z, hz, ho, -⟩ := h.element j self' n hj' hmem
    obtain rfl := Option.some.inj (hs.symm.trans hz)
    rw [howner] at ho
    exact hj (Owner.list.inj ho).symm
  refine { h with
    unique := fun s₁ s₂ sl₁ sl₂ r h₁ hr₁ h₂ hr₂ => ?_
    incomingFree := fun r hr t sl ht => ?_
    nodup := fun j self' hj => ?_
    element := fun j self' m hj hm => ?_
    listed := fun j m sl' hm ho hd => ?_
    placeholder := fun d sl i ht ho => ?_
    child := fun r rep d hr hc => ?_
    parent := fun m sl i r rep hm ho hr => ?_ }
  · obtain ⟨z, hz, hzr, -⟩ := hold s₁ sl₁ h₁
    obtain ⟨z', hz', hzr', -⟩ := hold s₂ sl₂ h₂
    exact h.unique s₁ s₂ z z' r hz (hzr ▸ hr₁) hz' (hzr' ▸ hr₂)
  · obtain ⟨z, hz, hzr, -⟩ := hold t sl ht
    exact hzr ▸ h.incomingFree r hr t z hz
  · obtain ⟨-, hj⟩ | ⟨-, hj⟩ := update_eq_some.mp hj
    · obtain rfl := Option.some.inj hj
      exact hy ▸ hnodup.erase n
    · exact h.nodup j self' hj
  · have hm' : m ≠ n ∧ ∃ z, slots m = some z ∧ z.owner = .list j ∧ z.dying = false := by
      obtain ⟨rfl, hj'⟩ | ⟨hji, hj'⟩ := update_eq_some.mp hj
      · obtain rfl := Option.some.inj hj'
        obtain ⟨hne, hmem⟩ := hnodup.mem_erase_iff.mp (hy ▸ hm)
        exact ⟨hne, h.element j self m hi hmem⟩
      · exact ⟨fun hmn => hother hji hj' (hmn ▸ hm), h.element j self' m hj' hm⟩
    obtain ⟨hne, z, hz, ho, hd⟩ := hm'
    exact ⟨z, (Function.update_of_ne hne _ _).trans hz, ho, hd⟩
  · obtain ⟨z, hz, -, hzo, hzd⟩ := hold m sl' hm
    obtain ⟨hne, rfl⟩ := hzd hd
    obtain ⟨self', hj, hmem⟩ := h.listed j m sl' hz ho hd
    by_cases hji : j = i
    · subst hji
      obtain rfl := Option.some.inj (hi.symm.trans hj)
      exact ⟨y, Function.update_self _ _ _, hy ▸ hnodup.mem_erase_iff.mpr ⟨hne, hmem⟩⟩
    · exact ⟨self', (Function.update_of_ne hji _ _).trans hj, hmem⟩
  · obtain ⟨z, hz, -, hzo, -⟩ := hold _ sl ht
    exact h.placeholder d z i hz (hzo ▸ ho)
  · obtain ⟨si, z, hd, hz, hzr, hzo⟩ := h.child r rep d hr hc
    obtain ⟨y, hy, hyr, hyo⟩ := hnew _ z hz
    exact ⟨si, y, hd, hy, hyr.trans hzr, hyo.trans hzo⟩
  · obtain ⟨z, hz, hzr, hzo, -⟩ := hold m sl hm
    exact h.parent m z i r rep hz (hzo ▸ ho) (hzr ▸ hr)

/-- A new element of the list, with a rep whose parent is a new record that points to it. -/
theorem place (h : Linkage slots reps impls records links) {self y : SignalImpl}
    (hi : impls i = some self) (hs : slots n = some sl) (hu : ∀ j, sl.owner ≠ .list j)
    (hr : sl.rep = some r) (hd : records d = none)
    (hclean : some (.cleaning d) ∉ links) (hn : ∀ k, n ≠ .placeholder k)
    (hy : y.slots.Perm (n :: self.slots)) (hx : x.rep = some r) (ho : x.owner = .list i)
    (hxd : x.dying = false) {q : SlotRep} (hp : q.ChildOf d) :
    Linkage (Function.update slots n (some x)) (Function.update reps r (some q))
      (Function.update impls i (some y)) (Function.update records d (some ⟨i, n⟩)) links := by
  have hfresh : ∀ {j self'}, impls j = some self' → n ∉ self'.slots := by
    intro j self' hj hmem
    obtain ⟨z, hz, hzo, -⟩ := h.element j self' n hj hmem
    obtain rfl := Option.some.inj (hs.symm.trans hz)
    exact hu j hzo
  have hhold : ∀ t z, Function.update slots n (some x) t = some z →
      ∃ z', slots t = some z' ∧ z.rep = z'.rep := by
    intro t z ht
    obtain ⟨rfl, hz⟩ | ⟨-, hz⟩ := update_eq_some.mp ht
    · obtain rfl := Option.some.inj hz
      exact ⟨sl, hs, hx.trans hr.symm⟩
    · exact ⟨z, hz, rfl⟩
  -- no other element holds the rep
  have hnot : ∀ {t z}, slots t = some z → t ≠ n → z.rep ≠ some r := by
    intro t z ht hne hzr
    exact hne (h.unique t n z sl r ht hzr hs hr)
  have hnochild : ∀ q y d', q ≠ r → reps q = some y → y.ChildOf d' → d' ≠ d := by
    rintro q y d' - hq hc rfl
    obtain ⟨si, _, hrec, -⟩ := h.child q y d' hq hc
    rw [hd] at hrec
    cases hrec
  refine { h with
    unique := fun s₁ s₂ sl₁ sl₂ r h₁ hr₁ h₂ hr₂ => ?_
    incomingFree := fun q hq t z ht => ?_
    nodup := fun j self' hj => ?_
    element := fun j self' m hj hm => ?_
    listed := fun j m z hm hz hzd => ?_
    placeholder := fun k z j hk hz => ?_
    child := fun q y d' hq hc => ?_
    parent := fun m z j q y hm hz hzr hq hpar => ?_
    cleaning := fun d' hd' q y hq hc => ?_ }
  · obtain ⟨z, hz, hzr⟩ := hhold s₁ sl₁ h₁
    obtain ⟨z', hz', hzr'⟩ := hhold s₂ sl₂ h₂
    exact h.unique s₁ s₂ z z' r hz (hzr ▸ hr₁) hz' (hzr' ▸ hr₂)
  · obtain ⟨z', hz', hzr⟩ := hhold t z ht
    exact hzr ▸ h.incomingFree q hq t z' hz'
  · obtain ⟨rfl, hj'⟩ | ⟨-, hj'⟩ := update_eq_some.mp hj
    · obtain rfl := Option.some.inj hj'
      exact hy.nodup_iff.mpr (List.nodup_cons.mpr ⟨hfresh hi, h.nodup _ self hi⟩)
    · exact h.nodup j self' hj'
  · have hm' : m = n ∧ j = i ∨ m ≠ n ∧ ∃ self', impls j = some self' ∧ m ∈ self'.slots := by
      obtain ⟨rfl, hj'⟩ | ⟨-, hj'⟩ := update_eq_some.mp hj
      · obtain rfl := Option.some.inj hj'
        obtain rfl | hm := List.mem_cons.mp (hy.mem_iff.mp hm)
        · exact .inl ⟨rfl, rfl⟩
        · exact .inr ⟨fun e => hfresh hi (e ▸ hm), self, hi, hm⟩
      · exact .inr ⟨fun e => hfresh hj' (e ▸ hm), self', hj', hm⟩
    obtain ⟨rfl, rfl⟩ | ⟨hne, self₀, hj₀, hm₀⟩ := hm'
    · exact ⟨x, Function.update_self _ _ _, ho, hxd⟩
    · obtain ⟨z, hz, hzo, hzd⟩ := h.element j self₀ m hj₀ hm₀
      exact ⟨z, (Function.update_of_ne hne _ _).trans hz, hzo, hzd⟩
  · obtain ⟨rfl, hx'⟩ | ⟨hne, hz'⟩ := update_eq_some.mp hm
    · obtain rfl := Option.some.inj hx'
      obtain rfl : i = j := Owner.list.inj (ho.symm.trans hz)
      exact ⟨y, Function.update_self _ _ _, hy.mem_iff.mpr List.mem_cons_self⟩
    · obtain ⟨self₀, hj₀, hm₀⟩ := h.listed j m z hz' hz hzd
      by_cases hji : j = i
      · subst hji
        obtain rfl := Option.some.inj (hi.symm.trans hj₀)
        exact ⟨y, Function.update_self _ _ _, hy.mem_iff.mpr (List.mem_cons_of_mem _ hm₀)⟩
      · exact ⟨self₀, (Function.update_of_ne hji _ _).trans hj₀, hm₀⟩
  · obtain ⟨hk', -⟩ | ⟨-, hz'⟩ := update_eq_some.mp hk
    · exact absurd hk'.symm (hn k)
    · exact h.placeholder k z j hz' hz
  · obtain ⟨rfl, hq'⟩ | ⟨hne, hq'⟩ := update_eq_some.mp hq
    · obtain rfl := Option.some.inj hq'
      obtain rfl : d = d' := Option.some.inj (hp.1.symm.trans hc.1)
      exact ⟨⟨i, n⟩, x, Function.update_self _ _ _, Function.update_self _ _ _, hx, ho⟩
    · obtain ⟨si, z, hrec, hz, hzr, hzo⟩ := h.child q y d' hq' hc
      refine ⟨si, z, (Function.update_of_ne (hnochild q y d' hne hq' hc) _ _).trans hrec,
        (Function.update_of_ne ?_ _ _).trans hz, hzr, hzo⟩
      rintro rfl
      obtain rfl := Option.some.inj (hs.symm.trans hz)
      exact hu _ hzo
  · obtain ⟨rfl, hq'⟩ | ⟨hne, hq'⟩ := update_eq_some.mp hq
    · obtain rfl := Option.some.inj hq'
      exact hp.2
    · obtain ⟨rfl, hx'⟩ | ⟨-, hz'⟩ := update_eq_some.mp hm
      · obtain rfl := Option.some.inj hx'
        exact absurd (Option.some.inj (hzr.symm.trans hx)) hne
      · exact h.parent m z j q y hz' hz hzr hq' hpar
  · obtain ⟨rfl, hq'⟩ | ⟨hne, hq'⟩ := update_eq_some.mp hq
    · obtain rfl := Option.some.inj hq'
      obtain rfl : d = d' := Option.some.inj (hp.1.symm.trans hc.1)
      exact hclean hd'
    · exact h.cleaning d' hd' q y hq' hc

/-! ## The stack -/

/-- The stack is changed: a rep that is incoming now was so before, and none twice; a record that is
to be destroyed has no child; and a placeholder that lives still has its emission. -/
theorem setLinks (h : Linkage slots reps impls records links)
    (hin : ∀ r, links'.count (some (.incoming r)) ≤ links.count (some (.incoming r)))
    (hclean : ∀ d, some (.cleaning d) ∈ links' → some (.cleaning d) ∈ links ∨
      ∀ r rep, reps r = some rep → ¬rep.ChildOf d)
    (hold : ∀ i p, some (.emitting i p) ∈ links' → some (.emitting i p) ∈ links)
    (hemit : ∀ d sl i, slots (.placeholder d) = some sl → sl.owner = .list i →
      links.reverse[d]? = some (some (.emitting i (.placeholder d))) →
        links'.reverse[d]? = some (some (.emitting i (.placeholder d)))) :
    Linkage slots reps impls records links' := by
  refine { h with
    incomingOnce := fun r => Nat.le_trans (hin r) (h.incomingOnce r)
    incomingFree := fun r hr => h.incomingFree r ?_
    emitting := fun i p hp => h.emitting i p (hold i p hp)
    placeholder := fun d sl i hs ho => hemit d sl i hs ho (h.placeholder d sl i hs ho)
    cleaning := fun d hd => ?_ }
  · exact List.count_pos_iff.mp (Nat.lt_of_lt_of_le (List.count_pos_iff.mpr hr) (hin r))
  · obtain hd | hd := hclean d hd
    · exact h.cleaning d hd
    · exact hd

/-- A function is called that is not linked to anything. -/
theorem push (h : Linkage slots reps impls records links) :
    Linkage slots reps impls records (none :: links) := by
  refine h.setLinks (fun r => by simp) (fun d hd => .inl (by simpa using hd))
    (fun i p hp => by simpa using hp) ?_
  intro d sl i hs ho hd
  have hlt : d < links.reverse.length := (List.getElem?_eq_some_iff.mp hd).1
  rw [List.reverse_cons, List.getElem?_append_left hlt, hd]

/-- The function on top returns; if it is an emission, its placeholder is gone. -/
theorem pop (h : Linkage slots reps impls records (l :: links))
    (hl : ∀ i d, l = some (.emitting i (.placeholder d)) → slots (.placeholder d) = none) :
    Linkage slots reps impls records links := by
  refine h.setLinks (fun r => List.count_le_count_cons) (fun d hd => .inl ?_) (fun i p hp => ?_) ?_
  · exact List.mem_cons_of_mem _ hd
  · exact List.mem_cons_of_mem _ hp
  · intro d sl i hs ho hd
    rw [List.reverse_cons] at hd
    by_cases hlt : d < links.reverse.length
    · rwa [List.getElem?_append_left hlt] at hd
    · rw [List.getElem?_append_right (Nat.le_of_not_lt hlt)] at hd
      obtain ⟨hlt', hget⟩ := List.getElem?_eq_some_iff.mp hd
      simp only [List.getElem_singleton] at hget
      rw [hl i d hget] at hs
      cases hs

/-- An assignment begins, which holds a rep that no slot holds. -/
theorem pushIncoming (h : Linkage slots reps impls records links)
    (hr : some (.incoming r) ∉ links) (hs : ∀ s sl, slots s = some sl → sl.rep ≠ some r) :
    Linkage slots reps impls records (some (.incoming r) :: links) := by
  have h₁ := h.push
  refine { h₁ with
    incomingOnce := fun q => ?_
    incomingFree := fun q hq => ?_
    emitting := fun i p hp => h.emitting i p (by simpa using hp)
    placeholder := ?_
    cleaning := fun d hd => ?_ }
  · rw [List.count_cons]
    split
    · rename_i hqr
      obtain rfl : r = q := by simpa using hqr
      have hnone := List.count_eq_zero.mpr hr
      omega
    · exact h.incomingOnce q
  · obtain hq | hq := List.mem_cons.mp hq
    · obtain rfl : q = r := by simpa using hq
      exact hs
    · exact h.incomingFree q hq
  · intro d sl i hs ho
    have hd := h.placeholder d sl i hs ho
    rw [List.reverse_cons, List.getElem?_append_left (List.getElem?_eq_some_iff.mp hd).1, hd]
  · exact h.cleaning d (by simpa using hd)

/-- The rep that an assignment has held is free. -/
theorem popIncoming_free (h : Linkage slots reps impls records (some (.incoming r) :: links)) :
    some (.incoming r) ∉ links := by
  have := h.incomingOnce r
  rw [List.count_cons_self] at this
  exact List.count_eq_zero.mp (by omega)

theorem pushCleaning (h : Linkage slots reps impls records links)
    (hd : ∀ r rep, reps r = some rep → ¬rep.ChildOf d) :
    Linkage slots reps impls records (some (.cleaning d) :: links) := by
  refine h.setLinks (fun r => by simp) (fun d' hd' => ?_) (fun i p hp => by simpa using hp) ?_
  · obtain hd' | hd' := List.mem_cons.mp hd'
    · obtain rfl : d' = d := by simpa using hd'
      exact .inr hd
    · exact .inl hd'
  · intro k sl i hs ho hk
    rw [List.reverse_cons, List.getElem?_append_left (List.getElem?_eq_some_iff.mp hk).1, hk]

/-- An emission begins: its placeholder is the last element of the list. -/
theorem startEmission (h : Linkage slots reps impls records links) {self y : SignalImpl}
    (hi : impls i = some self) (hk : slots (.placeholder links.length) = none)
    (hy : y.slots = self.slots ++ [.placeholder links.length]) :
    Linkage (Function.update slots (.placeholder links.length) (some { owner := .list i })) reps
      (Function.update impls i (some y)) records
      (some (.emitting i (.placeholder links.length)) :: links) := by
  -- No list has the new placeholder yet: what a list holds is a slot, and it is none.
  have hfresh : ∀ {j self'}, impls j = some self' → .placeholder links.length ∉ self'.slots := by
    intro j self' hj hmem
    obtain ⟨z, hz, -⟩ := h.element j self' _ hj hmem
    rw [hk] at hz
    cases hz
  have hne : ∀ {t z}, slots t = some z → t ≠ .placeholder links.length := by
    rintro t z ht rfl
    rw [hk] at ht
    cases ht
  refine { h with
    unique := fun s₁ s₂ sl₁ sl₂ r h₁ hr₁ h₂ hr₂ => ?_
    incomingOnce := fun r => ?_
    incomingFree := fun r hr t z ht => ?_
    nodup := fun j self' hj => ?_
    element := fun j self' m hj hm => ?_
    listed := fun j m z hm hz hzd => ?_
    emitting := fun j p hp => ?_
    placeholder := fun k z j hz hzo => ?_
    child := fun r rep d hr hc => ?_
    parent := fun m z j r rep hm hz hzr => ?_
    cleaning := fun d hd => ?_ }
  -- The placeholder has no rep, so it takes none from another slot.
  · obtain ⟨-, hx⟩ | ⟨-, hz₁⟩ := update_eq_some.mp h₁
    · obtain rfl := Option.some.inj hx
      cases hr₁
    · obtain ⟨-, hx⟩ | ⟨-, hz₂⟩ := update_eq_some.mp h₂
      · obtain rfl := Option.some.inj hx
        cases hr₂
      · exact h.unique s₁ s₂ sl₁ sl₂ r hz₁ hr₁ hz₂ hr₂
  · rw [List.count_cons_of_ne (by simp)]
    exact h.incomingOnce r
  · obtain ⟨-, hx⟩ | ⟨-, hz⟩ := update_eq_some.mp ht
    · obtain rfl := Option.some.inj hx
      simp
    · exact h.incomingFree r (by simpa using hr) t z hz
  · obtain ⟨rfl, hj'⟩ | ⟨-, hj'⟩ := update_eq_some.mp hj
    · obtain rfl := Option.some.inj hj'
      rw [hy, (List.perm_append_singleton _ _).nodup_iff, List.nodup_cons]
      exact ⟨hfresh hi, h.nodup _ self hi⟩
    · exact h.nodup j self' hj'
  -- The elements of the other lists are as before; in list i the placeholder is new.
  · have hold : ∀ self₀, impls j = some self₀ → m ∈ self₀.slots → ∃ sl,
        Function.update slots (.placeholder links.length) (some { owner := .list i }) m = some sl ∧
          sl.owner = .list j ∧ sl.dying = false := by
      intro self₀ hj₀ hm₀
      obtain ⟨z, hz, hzo, hzd⟩ := h.element j self₀ m hj₀ hm₀
      exact ⟨z, (Function.update_of_ne (hne hz) _ _).trans hz, hzo, hzd⟩
    obtain ⟨rfl, hj'⟩ | ⟨-, hj'⟩ := update_eq_some.mp hj
    · obtain rfl := Option.some.inj hj'
      rw [hy, List.mem_append, List.mem_singleton] at hm
      obtain hm | rfl := hm
      · exact hold self hi hm
      · exact ⟨_, Function.update_self _ _ _, rfl, rfl⟩
    · exact hold self' hj' hm
  · obtain ⟨rfl, hx⟩ | ⟨-, hz'⟩ := update_eq_some.mp hm
    · obtain rfl := Option.some.inj hx
      obtain rfl : i = j := Owner.list.inj hz
      exact ⟨y, Function.update_self _ _ _, by simp [hy]⟩
    · obtain ⟨self₀, hj₀, hm₀⟩ := h.listed j m z hz' hz hzd
      by_cases hji : j = i
      · subst hji
        obtain rfl := Option.some.inj (hi.symm.trans hj₀)
        exact ⟨y, Function.update_self _ _ _, by simp [hy, hm₀]⟩
      · exact ⟨self₀, (Function.update_of_ne hji _ _).trans hj₀, hm₀⟩
  · obtain hp | hp := List.mem_cons.mp hp
    · obtain ⟨rfl, rfl⟩ : j = i ∧ p = .placeholder links.length := by simpa using hp
      exact ⟨_, rfl⟩
    · exact h.emitting j p hp
  -- Counted from the bottom of the stack the new emission comes last, and the others keep their
  -- numbers.
  · obtain ⟨hkl, hx⟩ | ⟨-, hz'⟩ := update_eq_some.mp hz
    · obtain rfl := Option.some.inj hx
      obtain rfl : i = j := Owner.list.inj hzo
      obtain rfl : k = links.length := SlotAddr.placeholder.inj hkl
      rw [List.reverse_cons, List.getElem?_append_right (by simp)]
      simp
    · have hd := h.placeholder k z j hz' hzo
      rw [List.reverse_cons, List.getElem?_append_left (List.getElem?_eq_some_iff.mp hd).1, hd]
  · obtain ⟨si, z, hrec, hz, hrest⟩ := h.child r rep d hr hc
    exact ⟨si, z, hrec, (Function.update_of_ne (hne hz) _ _).trans hz, hrest⟩
  · obtain ⟨-, hx⟩ | ⟨-, hz'⟩ := update_eq_some.mp hm
    · obtain rfl := Option.some.inj hx
      cases hzr
    · exact h.parent m z j r rep hz' hz hzr
  · exact h.cleaning d (by simpa using hd)

end Linkage

/-! ## Steps -/

namespace World

@[simp] theorem links_push (f : Frame V) : (w.push f).links = f.link :: w.links := rfl

theorem links_pop {f : Frame V} {below : List (Frame V)} (top : w.frames = f :: below) :
    w.links = f.link :: w.pop.links := by
  unfold links pop
  rw [top]
  rfl

/-- The frame on top is replaced by one with the same links. -/
theorem links_setTop {f g : Frame V} {below : List (Frame V)} (top : w.frames = f :: below)
    (hg : g.link = f.link) : (w.setTop g).links = w.links := by
  unfold links setTop
  rw [top, List.tail_cons, List.map_cons, List.map_cons, hg]

end World

theorem World.Linked.push (h : w.Linked) {f : Frame V} (hf : f.link = none) :
    (w.push f).Linked := by
  unfold World.Linked
  rw [World.links_push, hf]
  exact Linkage.push h

theorem World.Linked.pop (h : w.Linked) {f : Frame V} {below : List (Frame V)}
    (top : w.frames = f :: below)
    (hf : ∀ i d, f.link = some (.emitting i (.placeholder d)) → w.slots (.placeholder d) = none) :
    w.pop.Linked := by
  unfold World.Linked at h
  rw [World.links_pop top] at h
  exact Linkage.pop h hf

theorem World.Linked.setTop (h : w.Linked) {f g : Frame V} {below : List (Frame V)}
    (top : w.frames = f :: below) (hg : g.link = f.link) : (w.setTop g).Linked := by
  unfold World.Linked
  rw [World.links_setTop top hg]
  exact h

theorem TrackableStep.linked (h : TrackableStep w w') (hl : w.Linked) : w'.Linked := by
  cases h with
  | construct => exact hl
  | beginDestroy alive client => exact hl
  | endDestroy alive client notified => exact hl
  | notifyNone alive list => exact hl
  | @beginNotify t tr l alive list idle reason calm =>
    exact World.Linked.push (w := w.setTrackable t _) hl rfl
  | skip top alive list element inactive => exact hl.setTop top rfl
  | @notifyWeak t tr l pos deps below cb c top alive list element func weak =>
    exact World.Linked.setTop (w := w.setWeak cb.data _) hl top rfl
  | @endNotify t tr l pos deps below top alive list done =>
    exact World.Linked.pop (w := (w.setTrackable t _).record _) hl top (by simp [Frame.link])

theorem WeakStep.linked (h : WeakStep w w') (hl : w.Linked) : w'.Linked := by
  cases h with
  | refer s => exact hl
  | construct user source run =>
    obtain ⟨-, tks, ign, rfl, -⟩ := WeakRawPtr.construct_effect run
    exact hl
  | assign user connection run =>
    obtain ⟨mid, tks, ign, self, from_, -, -, rfl, -⟩ := WeakRawPtr.assign_effect run
    exact hl
  | destroy user connection run =>
    obtain ⟨tks, self, -, rfl, -⟩ := WeakRawPtr.destroy_effect run
    exact hl

theorem World.Linked.sever {r : Addr} {rep : SlotRep} (hl : w.Linked)
    (hr : w.reps r = some rep) : (w.sever r rep).Linked :=
  Linkage.setRep hl hr (.inr rfl)

/-- When a rep has been severed from its parent, the record has no child any more. -/
theorem World.Linked.sever_not_child {r d : Addr} {rep : SlotRep} (hl : w.Linked)
    (hr : w.reps r = some rep) (hc : rep.ChildOf d) :
    ∀ q y, (w.sever r rep).reps q = some y → ¬y.ChildOf d := by
  intro q y hq hy
  obtain ⟨-, hy'⟩ | ⟨hne, hq'⟩ := update_eq_some.mp hq
  · obtain rfl := Option.some.inj hy'
    exact absurd hy.1 (by simp)
  · exact hne (Linkage.child_unique hl hq' hy hr hc)

theorem Sever.linked {r : Addr} (h : Sever r w w') (hl : w.Linked) : w'.Linked := by
  cases h with
  | none alive parent => exact hl.sever alive
  | rep alive parent cleanup calm => exact hl.sever alive
  | @expired rep d si alive parent cleanup record expired =>
    exact Linkage.eraseRecord (hl.sever alive) (hl.sever_not_child alive ⟨parent, cleanup⟩)
  | @defer rep d si self alive parent cleanup record owned impl executing =>
    have h₁ := Linkage.setImpl (y := { self with deferred := true }) (hl.sever alive) impl rfl
    exact Linkage.eraseRecord h₁ (hl.sever_not_child alive ⟨parent, cleanup⟩)
  | @erase rep d si self sl alive parent cleanup record owned impl idle element slot calm =>
    have h₁ := Linkage.pushCleaning (hl.sever alive) (hl.sever_not_child alive ⟨parent, cleanup⟩)
    have h₂ := Linkage.unlinkDying h₁ impl element slot (y := { self with
      execCount := self.execCount + 1, slots := self.slots.erase si.iter }) rfl
    exact Linkage.push h₂

/-! ### Slots -/

theorem RepsBound.linked {slots : SlotAddr → Option SlotBase} {reps rps : Addr → Option SlotRep}
    {impls : Addr → Option SignalImpl} {records : Addr → Option SelfAndIter}
    {links : List (Option Link)} {r : Addr} {f : Functor} (hb : RepsBound slots r f reps rps)
    (hf : ∀ s sl, .slot s ∈ f → slots s = some sl → sl.owner = .functor)
    (hl : Linkage slots reps impls records links) : Linkage slots rps impls records links := by
  refine hl.setReps fun q rep' hq => ?_
  obtain heq | ⟨s, sl, rep, hs, hsl, hr, hrep, -, heq⟩ := hb q
  · exact .inl ⟨rep', heq ▸ hq, rfl, rfl⟩
  · obtain rfl := Option.some.inj (heq.symm.trans hq)
    refine .inr (.inr ⟨fun d hc => ?_, fun n z i hn ho hz => ?_⟩)
    · exact absurd hc.2 (by simp)
    · obtain rfl := hl.unique s n sl z q hsl hr hn hz
      obtain rfl := Option.some.inj (hsl.symm.trans hn)
      rw [hf s sl hs hsl] at ho
      cases ho

theorem RepsUnbound.linked {slots : SlotAddr → Option SlotBase} {reps rps : Addr → Option SlotRep}
    {impls : Addr → Option SignalImpl} {records : Addr → Option SelfAndIter}
    {links : List (Option Link)} {r : Addr} {f : Functor} (hb : RepsUnbound slots r f reps rps)
    (hl : Linkage slots reps impls records links) : Linkage slots rps impls records links := by
  refine hl.setReps fun q rep' hq => ?_
  obtain heq | ⟨_, _, _, -, -, -, -, -, heq⟩ := hb q
  · exact .inl ⟨rep', heq ▸ hq, rfl, rfl⟩
  · obtain rfl := Option.some.inj (heq.symm.trans hq)
    exact .inr (.inl rfl)

theorem RepConstructed.linked {f : Functor} {tks : Addr → Option Trackable}
    {ign : List (Addr × Addr)} {rps : Addr → Option SlotRep} (hc : RepConstructed w f tks ign rps)
    (hf : w.FunctorOk f) (hl : w.Linked) : (w.afterRep tks ign rps).Linked := by
  refine hc.bound.linked (fun s sl hs hsl => ?_) (Linkage.setReps hl fun q rep' hq => ?_)
  · obtain ⟨a, rfl, -, ho⟩ := hf.slot s hs
    exact ho sl hsl
  · obtain ⟨-, hy⟩ | ⟨-, hq'⟩ := update_eq_some.mp hq
    · obtain rfl := Option.some.inj hy
      exact .inr (.inl rfl)
    · exact .inl ⟨rep', hq', rfl, rfl⟩

/-- Nothing holds a rep that is yet to be allocated. -/
theorem WellAddressed.not_held (hw : WellAddressed w) {r : Addr} (hr : w.next ≤ r) :
    some (.incoming r) ∉ w.links ∧ ∀ s sl, w.slots s = some sl → sl.rep ≠ some r := by
  refine ⟨fun hm => ?_, fun s sl hs hsr => ?_⟩
  · obtain ⟨f, hf, hfr⟩ := List.mem_map.mp hm
    cases f <;> simp only [Frame.link] at hfr
    case assigning dst new =>
      obtain rfl : new = r := by simpa using hfr
      exact absurd (hw.frames _ hf) (Nat.not_lt.mpr hr)
    case clear i it erasing during saved =>
      cases hfr
    all_goals simp at hfr
  · exact absurd (hw.slotRep s sl r hs hsr) (Nat.not_lt.mpr hr)

theorem SlotBase.construct_linked {owner : Owner} {init : SlotInit} {s : SlotAddr}
    (hw : WellAddressed w) (hu : ∀ i, owner ≠ .list i)
    (hf : ∀ f, init.functor = some f → w.FunctorOk f)
    (run : SlotBase.construct owner init w = (.ret s, w')) (hl : w.Linked) : w'.Linked := by
  obtain ⟨-, rfl, rfl⟩ | ⟨f, tks, ign, rps, hif, hc, rfl, rfl⟩ := SlotBase.construct_effect run
  · refine Linkage.outside hl (fun sl hs => ?_) (fun x hx => ?_) (fun x hx r hr => ?_)
    · exact absurd ((hw.slots.eq_none (Nat.le_refl _)).symm.trans hs) (by simp)
    · obtain rfl := Option.some.inj hx
      exact hu
    · obtain rfl := Option.some.inj hx
      cases hr
  · refine Linkage.outside (hc.linked (hf f hif) hl) (fun sl hs => ?_) (fun x hx => ?_)
      (fun x hx r hr => ?_)
    · exact absurd ((hw.slots.eq_none (Nat.le_succ _)).symm.trans hs) (by simp)
    · obtain rfl := Option.some.inj hx
      exact hu
    · obtain rfl := Option.some.inj hx
      obtain rfl : w.next = r := Option.some.inj hr
      exact ⟨(hw.not_held (Nat.le_refl _)).1, fun t _ => (hw.not_held (Nat.le_refl _)).2 t⟩

theorem World.not_listed {s : SlotAddr} {sl : SlotBase} (h : ¬w.Listed s)
    (hs : w.slots s = some sl) (i : Addr) : sl.owner ≠ .list i :=
  fun ho => h ⟨sl, i, hs, ho⟩

/-- A slot outside the lists gives up its rep. -/
theorem World.Linked.dropRep (hl : w.Linked) {s : SlotAddr} {sl x : SlotBase}
    (hs : w.slots s = some sl) (hu : ¬w.Listed s) (hx : x.rep = none)
    (ho : x.owner = sl.owner) : (w.setSlot s (some x)).Linked := by
  refine Linkage.outside hl (fun y hy => World.not_listed hu hy) (fun y hy => ?_)
    (fun y hy r hr => ?_)
  · obtain rfl := Option.some.inj hy
    exact ho ▸ World.not_listed hu hs
  · obtain rfl := Option.some.inj hy
    rw [hx] at hr
    cases hr

/-- What nothing holds after `s` has given up its rep. -/
theorem World.Linked.dropped (hl : w.Linked) {s : SlotAddr} {sl x : SlotBase} {r : Addr}
    (hs : w.slots s = some sl) (hr : sl.rep = some r) (hx : x.rep = none) :
    some (.incoming r) ∉ w.links ∧
      ∀ t y, (w.setSlot s (some x)).slots t = some y → y.rep ≠ some r := by
  refine ⟨fun hm => Linkage.incomingFree hl r hm s sl hs hr, fun t y ht hy => ?_⟩
  obtain ⟨-, hz⟩ | ⟨hne, hz⟩ := update_eq_some.mp ht
  · obtain rfl := Option.some.inj hz
    rw [hx] at hy
    cases hy
  · exact hne (Linkage.unique hl t s y sl r hz hy hs hr)

theorem SlotBase.takeRep_linked {owner : Owner} {src s : SlotAddr} {blocked : Bool}
    (hw : WellAddressed w) (hu : ∀ i, owner ≠ .list i) (hsrc : ¬w.Listed src)
    (run : SlotBase.takeRep owner src blocked w = (.ret s, w')) (hl : w.Linked) : w'.Linked := by
  obtain ⟨sl, ⟨hs, -⟩, rfl, rfl⟩ := SlotBase.takeRep_effect run
  have h₁ := hl.dropRep (x := { sl with rep := none, blocked := false }) hs hsrc rfl rfl
  refine Linkage.outside h₁ (fun y hy => ?_) (fun x hx => ?_) (fun x hx r hr => ?_)
  · obtain ⟨rfl, -⟩ | ⟨-, hy⟩ := update_eq_some.mp hy
    · exact absurd ((hw.slots.eq_none (Nat.le_refl _)).symm.trans hs) (by simp)
    · exact absurd ((hw.slots.eq_none (Nat.le_refl _)).symm.trans hy) (by simp)
  · obtain rfl := Option.some.inj hx
    exact hu
  · obtain rfl := Option.some.inj hx
    obtain ⟨hin, hfree⟩ := hl.dropped (x := { sl with rep := none, blocked := false }) hs hr rfl
    exact ⟨hin, fun t _ => hfree t⟩

/-- The rep that takes over the parent of the rep of a slot outside the lists is no child. -/
theorem SlotBase.passParent_linked {new : Addr} {old : Option Addr} {s : SlotAddr} {sl : SlotBase}
    (hs : w.slots s = some sl) (hold : sl.rep = old) (hu : ∀ i, sl.owner ≠ .list i)
    (hnew : ∀ t y, w.slots t = some y → y.rep ≠ some new)
    (run : SlotBase.passParent new old w = (.ret (), w')) (hl : w.Linked) :
    w'.Linked ∧ w'.slots = w.slots ∧ w'.links = w.links := by
  obtain ⟨-, rfl⟩ | ⟨r, oldRep, newRep, rfl, hr, hn, rfl⟩ := SlotBase.passParent_effect run
  · exact ⟨hl, rfl, rfl⟩
  · refine ⟨Linkage.setReps hl fun q y hq => ?_, rfl, rfl⟩
    obtain ⟨rfl, hy⟩ | ⟨-, hq'⟩ := update_eq_some.mp hq
    · obtain rfl := Option.some.inj hy
      exact .inr (.inr ⟨fun d hc => Linkage.not_child hl hs hold hu hr d hc,
        fun n z i hz _ => hnew n z hz⟩)
    · exact .inl ⟨y, hq', rfl, rfl⟩

theorem World.Linked.pushAssigning (hl : w.Linked) {dst : SlotAddr} {new : Addr}
    (hin : some (.incoming new) ∉ w.links) (hfree : ∀ t y, w.slots t = some y → y.rep ≠ some new) :
    (w.push (.assigning dst new)).Linked :=
  Linkage.pushIncoming hl hin hfree

theorem SlotBase.cloneFor_linked {dst : SlotAddr} {f : Functor} {new : Addr}
    (hw : WellAddressed w) (hu : ¬w.Listed dst) (hf : w.FunctorOk f)
    (run : SlotBase.cloneFor dst f w = (.ret new, w')) (hl : w.Linked) : w'.Linked := by
  obtain ⟨rfl, tks, ign, rps, sl, w₁, hc, hs, hpass, rfl⟩ := SlotBase.cloneFor_effect run
  obtain ⟨hin, hfree⟩ := hw.not_held (Nat.le_refl w.next)
  obtain ⟨h₁, hslots, hlinks⟩ := SlotBase.passParent_linked (w := w.afterRep tks ign rps) hs rfl
    (World.not_listed hu hs) hfree hpass (hc.linked hf hl)
  exact h₁.pushAssigning (hlinks ▸ hin) (hslots ▸ hfree)

theorem SlotBase.moveFor_linked {dst src : SlotAddr} {new : Addr} (hu : ¬w.Listed dst)
    (hsrc : ¬w.Listed src) (run : SlotBase.moveFor dst src w = (.ret new, w')) (hl : w.Linked) :
    w'.Linked := by
  obtain ⟨from_, sl, w₁, ⟨hfrom, -⟩, hnew, hdst, hpass, rfl⟩ := SlotBase.moveFor_effect run
  have h₀ := hl.dropRep (x := { from_ with rep := none, blocked := false }) hfrom hsrc rfl rfl
  obtain ⟨hin, hfree⟩ := hl.dropped (x := { from_ with rep := none, blocked := false }) hfrom hnew rfl
  have hudst : ∀ i, sl.owner ≠ .list i := by
    obtain ⟨rfl, hz⟩ | ⟨-, hz⟩ := update_eq_some.mp hdst
    · obtain rfl := Option.some.inj hz
      have hfrom' := World.not_listed hu hfrom
      exact hfrom'
    · exact World.not_listed hu hz
  obtain ⟨h₁, hslots, hlinks⟩ := SlotBase.passParent_linked hdst rfl hudst hfree hpass h₀
  exact h₁.pushAssigning (hlinks ▸ hin) (hslots ▸ hfree)

theorem SlotRep.detachFunctor_linked {r : Addr} {fo : Option Functor}
    (run : SlotRep.detachFunctor r w = (.ret fo, w')) (hl : w.Linked) : w'.Linked := by
  obtain ⟨rep, tks, rps, hr, -, rfl, -, rps₁, rep', hun, hr', rfl⟩ :=
    SlotRep.detachFunctor_effect run
  exact Linkage.setRep (hun.linked (Linkage.setRep hl hr (.inl ⟨rfl, rfl⟩))) hr' (.inl ⟨rfl, rfl⟩)

theorem World.Linked.invalidating {w₁ : World V} {r x : Addr} {rep : SlotRep} (hl : w.Linked)
    (alive : w.reps r = some rep)
    (run : WeakRawPtr.construct (some (.rep r)) true
      ((w.setRep r (some { rep with call := false })).record (.disconnected r)) = (.ret x, w₁)) :
    (w₁.push (.invalidating r x)).Linked := by
  obtain ⟨-, tks, ign, rfl, -⟩ := WeakRawPtr.construct_effect run
  have h₁ : w.Linked → ((w.setRep r (some { rep with call := false })).record
      (.disconnected r)).Linked := fun hl => Linkage.setRep hl alive (.inl ⟨rfl, rfl⟩)
  exact World.Linked.push (h₁ hl) rfl

theorem SlotStep.linked (h : SlotStep w w') (hw : WellAddressed w) (hl : w.Linked) :
    w'.Linked := by
  cases h with
  | construct unlisted functor run => exact SlotBase.construct_linked hw unlisted functor run hl
  | move r => exact hl
  | take unlisted source told run => exact SlotBase.takeRep_linked hw unlisted source run hl
  | setBlocked b alive => exact Linkage.setSlot hl alive rfl rfl rfl
  | @beginDestroy s sl alive unlisted =>
    refine Linkage.outside hl (fun y hy => World.not_listed unlisted hy) (fun y hy => ?_)
      (fun y hy r hr => ?_)
    · obtain rfl := Option.some.inj hy
      have halive := World.not_listed unlisted alive
      exact halive
    · obtain rfl := Option.some.inj hy
      exact ⟨fun hm => Linkage.incomingFree hl r hm s sl alive hr,
        fun t hne z hz hzr => hne (Linkage.unique hl t s z sl r hz hzr alive hr)⟩
  | endDestroy empty =>
    exact Linkage.eraseDying hl fun sl hs _ _ =>
      ⟨(empty sl hs).1, fun r hr => ((empty sl hs).2 r hr).1⟩
  | sever h => exact h.linked hl
  | startInvalidation calm alive run sever =>
    exact sever.linked (hl.invalidating alive run)
  | detach top run => exact SlotRep.detachFunctor_linked run hl
  | endInvalidation top weak gutted run =>
    obtain ⟨tks, self, -, rfl, -⟩ := WeakRawPtr.destroy_effect run
    exact hl.pop top (by simp [Frame.link])
  | @endCallback w₁ r x c t pos deps below tr l top weak gutted run alive list element =>
    obtain ⟨tks, self, -, rfl, -⟩ := WeakRawPtr.destroy_effect run
    have htop : w.pop.frames = .notifying t pos deps :: below := by
      simp [World.pop, top]
    have h₁ : w.pop.Linked := hl.pop top (by simp [Frame.link])
    exact World.Linked.setTop (w := w.pop) h₁ htop rfl
  | @beginDelete w' r base fo s sl calm alive idle slot rep unlisted run =>
    exact SlotRep.detachFunctor_linked run (World.Linked.push (w := w.setTrackable r _) hl rfl)
  | @endDelete r base below top alive notified =>
    have h₁ : ((w.setRep r none).setTrackable r none).Linked := Linkage.eraseRep hl r
    exact h₁.pop top (by simp [Frame.link])
  | @startCheck w₁ s sl r x calm alive rep unlisted run =>
    obtain ⟨-, tks, ign, rfl, -⟩ := WeakRawPtr.construct_effect run
    exact World.Linked.push hl rfl
  | clearRep top alive intact unlisted => exact hl.dropRep alive unlisted rfl rfl
  | endCheck top run =>
    obtain ⟨tks, self, -, rfl, -⟩ := WeakRawPtr.destroy_effect run
    exact hl.pop top (by simp [Frame.link])
  | cloneFor calm unlisted functor run => exact SlotBase.cloneFor_linked hw unlisted functor run hl
  | moveFor calm unlisted source told run => exact SlotBase.moveFor_linked unlisted source run hl
  | @finishAssign dst new self below top alive intact unlisted =>
    have hlinks := World.links_pop top
    have hin : some (.incoming new) ∈ w.links := hlinks ▸ List.mem_cons_self
    have hfree := Linkage.incomingFree hl new hin
    have h₁ : w.pop.Linked := hl.pop top (by simp [Frame.link])
    refine Linkage.outside h₁ (fun y hy => World.not_listed unlisted hy) (fun y hy => ?_)
      (fun y hy r hr => ?_)
    · obtain rfl := Option.some.inj hy
      have halive := World.not_listed unlisted alive
      exact halive
    · obtain rfl := Option.some.inj hy
      obtain rfl : new = r := Option.some.inj hr
      refine ⟨?_, fun t _ => hfree t⟩
      unfold World.Linked at hl
      rw [hlinks] at hl
      exact Linkage.popIncoming_free hl
  | pushHandler calm alive call => exact World.Linked.push (w := w.record _) hl rfl
  | popHandler top => exact hl.pop top (by simp [Frame.link])
  | pushFunctorDtor calm used functor gutted => exact hl.push rfl
  | nextTarget top => exact hl.setTop top rfl
  | popFunctorDtor top => exact hl.pop top (by simp [Frame.link])

/-! ### Signals -/

/-- A new element takes its place in the list: before that it is a slot outside the lists. -/
theorem SignalImpl.placed_linked {i : Addr} {first : Bool} {n : SlotAddr} {sl : SlotBase}
    (hw : WellAddressed (w.setSlot n (some sl))) (hl : w.Linked) (hn : w.slots n = none)
    (hnp : ∀ k, n ≠ .placeholder k)
    (hrep : ∀ r, sl.rep = some r → some (.incoming r) ∉ w.links ∧
      ∀ t y, w.slots t = some y → y.rep ≠ some r)
    (ho : sl.owner = .list i) (hd : sl.dying = false)
    (hp : SignalImpl.Placed (w.setSlot n (some sl)) i first n sl w') : w'.Linked := by
  obtain ⟨-, self, r, rep, nx, tks, himpl, -, hplaced, rfl⟩ := hp
  -- `n` as the slot outside the lists that it is until it is placed
  have hfresh : some (.incoming r) ∉ w.links ∧ ∀ t y, w.slots t = some y → y.rep ≠ some r := by
    obtain ⟨hsl, -, -, -⟩ | ⟨-, rfl, -, -, -⟩ := hplaced
    · exact hrep r hsl
    · obtain ⟨hin, hfree⟩ := hw.not_held (Nat.le_succ w.next)
      refine ⟨hin, fun t y ht => hfree t y (update_eq_some.mpr (.inr ⟨?_, ht⟩))⟩
      rintro rfl
      rw [hn] at ht
      cases ht
  have h₁ : Linkage (Function.update w.slots n (some { rep := some r })) w.reps w.impls w.records
      w.links := by
    refine Linkage.outside hl (fun y hy => ?_) (fun x hx => ?_) (fun x hx q hq => ?_)
    · rw [hn] at hy
      cases hy
    · obtain rfl := Option.some.inj hx
      simp
    · obtain rfl := Option.some.inj hx
      obtain rfl : r = q := Option.some.inj hq
      exact ⟨hfresh.1, fun t _ => hfresh.2 t⟩
  have hclean : some (.cleaning w.next) ∉ w.links := by
    intro hm
    obtain ⟨f, hf, hfd⟩ := List.mem_map.mp hm
    cases f <;> simp only [Frame.link] at hfd
    case cleanup d =>
      obtain rfl : d = w.next := by simpa using hfd
      exact absurd (hw.frames _ hf) (Nat.lt_irrefl _)
    case clear => cases hfd
    all_goals simp at hfd
  have hperm : (if first then n :: self.slots else self.slots ++ [n]).Perm (n :: self.slots) := by
    cases first
    · exact List.perm_append_singleton n self.slots
    · exact List.Perm.refl _
  have h₂ := Linkage.place (x := { sl with rep := some r })
    (y := { self with slots := if first then n :: self.slots else self.slots ++ [n] })
    (q := { rep with parent := some w.next, cleanup := some .notifySelfAndIterOfInvalidatedSlot })
    h₁ himpl (Function.update_self _ _ _) (by simp) rfl (hw.records.eq_none (Nat.le_refl _)) hclean
    hnp hperm rfl ho hd ⟨rfl, rfl⟩
  unfold World.Linked World.placed World.setSlot
  rw [Function.update_idem] at h₂ ⊢
  exact h₂

theorem SignalImpl.insertBuilt_linked {i : Addr} {first : Bool} {init : SlotInit} {n : SlotAddr}
    (hw : WellAddressed w) (hf : ∀ f, init.functor = some f → w.FunctorOk f)
    (run : insertBuilt i first init w = (.ret n, w')) (hl : w.Linked) : w'.Linked := by
  obtain ⟨w₁, rep?, hcons, -, hp⟩ := insertBuilt_effect run
  have hw₁ := (SlotBase.construct_advances hw hf hcons).addressed
  obtain ⟨hi, rfl, rfl⟩ | ⟨f, tks, ign, rps, hi, hc, rfl, rfl⟩ := SlotBase.construct_effect hcons
  · obtain rfl : rep? = none := by
      have := (Function.update_self _ _ _).symm.trans hp.1
      exact (congrArg SlotBase.rep (Option.some.inj this)).symm
    exact placed_linked (w := { w with next := w.next + 1 }) hw₁ hl
      (hw.slots.eq_none (Nat.le_refl _)) (by simp) (by simp) rfl rfl hp
  · obtain rfl : rep? = some w.next := by
      have := (Function.update_self _ _ _).symm.trans hp.1
      exact (congrArg SlotBase.rep (Option.some.inj this)).symm
    refine placed_linked (w := { w.afterRep tks ign rps with next := w.next + 1 + 1 }) hw₁
      (hc.linked (hf f hi) hl) (hw.slots.eq_none (Nat.le_succ _)) (by simp) (fun r hr => ?_) rfl rfl
      hp
    obtain rfl : w.next = r := Option.some.inj hr
    exact hw.not_held (Nat.le_refl _)

theorem SignalImpl.insertTaken_linked {i : Addr} {first : Bool} {src n : SlotAddr} {blocked : Bool}
    (hw : WellAddressed w) (hsrc : ¬w.Listed src)
    (run : insertTaken i first src blocked w = (.ret n, w')) (hl : w.Linked) : w'.Linked := by
  obtain ⟨w₁, sl, htake, -, hs, hp⟩ := insertTaken_effect run
  have hw₁ := (SlotBase.takeRep_advances hw hsrc htake).addressed
  obtain ⟨sl', ⟨hs', -⟩, rfl, rfl⟩ := SlotBase.takeRep_effect htake
  obtain rfl := Option.some.inj (hs.symm.trans hs')
  have h₀ := hl.dropRep (x := { sl with rep := none, blocked := false }) hs hsrc rfl rfl
  have hnone : w.slots (.object w.next) = none := hw.slots.eq_none (Nat.le_refl _)
  refine placed_linked (w := World.setSlot { w with next := w.next + 1 } src
    (some { sl with rep := none, blocked := false })) hw₁ h₀ ?_ (by simp) (fun r hr => ?_) rfl rfl hp
  · refine (Function.update_of_ne ?_ _ _).trans hnone
    rintro rfl
    rw [hnone] at hs
    cases hs
  · exact hl.dropped (x := { sl with rep := none, blocked := false }) hs hr rfl

theorem SignalBase.impl_linked {h i : Addr} (hw : WellAddressed w)
    (run : impl h w = (.ret i, w')) (hl : w.Linked) : w'.Linked := by
  obtain ⟨-, rfl⟩ | ⟨-, rfl, rfl⟩ := impl_effect run
  · exact hl
  · refine Linkage.emptyImpl hl (fun self hi => ?_) (fun y hy => ?_)
    · exact absurd ((hw.impls.eq_none (Nat.le_refl _)).symm.trans hi) (by simp)
    · obtain rfl := Option.some.inj hy
      rfl

theorem SignalBase.letGo_linked {i old : Option Addr} (run : letGo i w = (.ret old, w'))
    (hl : w.Linked) : w'.Linked := by
  obtain ⟨-, rfl⟩ := letGo_effect run
  cases i with
  | none => exact hl
  | some i =>
    change ((if w.owned i then w else w.record _).push (.releasing i)).Linked
    refine World.Linked.push ?_ rfl
    split
    · exact hl
    · exact hl

theorem World.Linked.decrement (hl : w.Linked) {i : Addr} {y : SignalImpl}
    (hi : w.impls i = some y) : (w.decrement i y).Linked :=
  Linkage.setImpl hl hi rfl

theorem SignalImpl.enterSweep_linked {i : Addr} {it : Option SlotAddr}
    (run : enterSweep i w = (.ret it, w')) (hl : w.Linked) : w'.Linked := by
  obtain ⟨self, hi, -, rfl⟩ := enterSweep_effect run
  refine World.Linked.push ?_ rfl
  exact Linkage.setImpl hl hi rfl

theorem SignalStep.linked (h : SignalStep w w') (hw : WellAddressed w) (hl : w.Linked) :
    w'.Linked := by
  cases h with
  | insertBuilt user owned functor run => exact SignalImpl.insertBuilt_linked hw functor run hl
  | insertTaken user owned source told run => exact SignalImpl.insertTaken_linked hw source run hl
  | new => exact hl
  | impl run => exact SignalBase.impl_linked hw run hl
  | copyConstruct handle run =>
    obtain ⟨i, w₁, hrun, rfl, rfl⟩ := SignalBase.copyConstruct_effect run
    have h₁ := SignalBase.impl_linked hw hrun hl
    exact h₁
  | moveConstruct run =>
    obtain ⟨rfl, rfl⟩ := SignalBase.moveConstruct_effect run
    exact hl
  | replaceImpl calm owned run =>
    obtain ⟨-, hgo⟩ := SignalBase.replaceImpl_effect run
    exact SignalBase.letGo_linked hgo hl
  | dropHandle calm run =>
    obtain ⟨-, hgo⟩ := SignalBase.dropHandle_effect run
    exact SignalBase.letGo_linked hgo hl
  | endRelease top done => exact hl.pop top (by simp [Frame.link])
  | endDispose top unowned idle alive empty =>
    refine Linkage.emptyImpl hl (fun self hi => ?_) (fun y hy => by cases hy)
    obtain rfl := Option.some.inj (alive.symm.trans hi)
    exact empty
  | @endCleanup d below top =>
    have hd : some (.cleaning d) ∈ w.links := World.links_pop top ▸ List.mem_cons_self
    have h₁ : (w.setRecord d none).Linked := Linkage.eraseRecord hl (Linkage.cleaning hl d hd)
    exact h₁.pop top (by simp [Frame.link])
  | enterClear calm run =>
    obtain ⟨self, hi, -, -, -, -, rfl⟩ := SignalImpl.enterClear_effect run
    refine World.Linked.push ?_ rfl
    exact Linkage.setImpl hl hi rfl
  | clearNext top impl next severed => exact hl.setTop top rfl
  | recordCleared top => exact hl
  | restoreDeferred top impl => exact Linkage.setImpl hl impl rfl
  | @clearErase i saved below self s rest sl top impl slots alive =>
    have h₁ : (w.unlinkDying i self s sl).Linked :=
      Linkage.unlinkDying hl impl (slots ▸ List.mem_cons_self) alive rfl
    exact h₁.setTop top rfl
  | clearErased top gone => exact hl.setTop top rfl
  | leaveClear top impl cleared quiet =>
    exact (hl.decrement impl).pop top (by simp [Frame.link])
  | leaveClearSweep top impl cleared sweeps owned run =>
    exact SignalImpl.enterSweep_linked run ((hl.decrement impl).pop top (by simp [Frame.link]))
  | sweepSkip top impl next keep => exact hl.setTop top rfl
  | @sweepErase i it it' below self sl top impl next element empty alive =>
    have h₁ : (w.unlinkDying i self it sl).Linked := Linkage.unlinkDying hl impl element alive rfl
    exact h₁.setTop top rfl
  | sweepErased top gone => exact hl.setTop top rfl
  | leaveHolder top holder impl quiet =>
    refine (hl.decrement impl).setTop top ?_
    obtain rfl | ⟨n, rfl, -⟩ := holder <;> rfl
  | leaveHolderSweep top holder impl sweeps run =>
    refine SignalImpl.enterSweep_linked run ((hl.decrement impl).setTop top ?_)
    obtain rfl | ⟨n, rfl, -⟩ := holder <;> rfl
  | startRelease top => exact hl.setTop top rfl

/-! ### Emissions -/

/-- The address of the next placeholder is free. -/
theorem World.Linked.placeholder_free (hl : w.Linked) (hw : WellAddressed w) :
    w.slots (.placeholder w.frames.length) = none := by
  by_contra hne
  obtain ⟨sl, hs⟩ := Option.ne_none_iff_exists'.mp hne
  obtain ⟨-, i, ho⟩ := hw.placeholder _ sl hs
  have hlt := (List.getElem?_eq_some_iff.mp (Linkage.placeholder hl _ sl i hs ho)).1
  simp [World.links] at hlt

theorem Emission.start_linked {i : Addr} {e : Emission V} (hw : WellAddressed w)
    (run : Emission.start i w = (.ret e, w')) (hl : w.Linked) : w'.Linked := by
  obtain ⟨self, himpl, -, rfl, rfl⟩ := start_effect run
  have hlen : w.links.length = w.frames.length := List.length_map _
  have h₁ := Linkage.startEmission hl himpl (hlen.symm ▸ hl.placeholder_free hw)
    (y := { self with slots := self.slots ++ [.placeholder w.links.length]
                      execCount := self.execCount + 1 }) rfl
  rw [hlen] at h₁
  exact h₁

/-- The placeholder of the emission on top has been erased, and its holder lets go. -/
theorem World.Linked.finishEmission (hl : w.Linked) (hw : WellAddressed w) {e : Emission V}
    {below : List (Frame V)} {self : SignalImpl} {completed : Bool}
    (top : w.frames = .emission e :: below) (impl : w.impls e.impl = some self)
    (element : e.placeholder ∈ self.slots) :
    (((w.erasePlaceholder e self completed).decrement e.impl
      { self with slots := self.slots.erase e.placeholder }).setTop (.holding e.impl)).Linked := by
  obtain ⟨sl, hs, ho, hd⟩ := Linkage.element hl e.impl self e.placeholder impl element
  have hmem : some (.emitting e.impl e.placeholder) ∈ w.links :=
    World.links_pop top ▸ List.mem_cons_self
  obtain ⟨d, hk⟩ := Linkage.emitting hl _ _ hmem
  have hrep : sl.rep = none := (hw.placeholder d sl (hk ▸ hs)).1
  have h₁ : (w.unlinkDying e.impl self e.placeholder sl).Linked :=
    Linkage.unlinkDying hl impl element hs rfl
  have h₂ : (w.erasePlaceholder e self completed).Linked := by
    have := Linkage.eraseDying (s := e.placeholder) h₁ fun y hy j _ => by
      obtain ⟨-, hy⟩ | ⟨hne, -⟩ := update_eq_some.mp hy
      · obtain rfl := Option.some.inj hy
        exact ⟨rfl, fun r hr => by rw [hrep] at hr; cases hr⟩
      · exact absurd rfl hne
    unfold World.unlinkDying World.setSlot at this
    rw [Function.update_idem] at this
    exact this
  have h₃ := h₂.decrement (i := e.impl)
    (y := { self with slots := self.slots.erase e.placeholder }) (Function.update_self _ _ _)
  have h₄ := h₃.pop top fun i d' hd' => by
    obtain ⟨rfl, hd⟩ : e.impl = i ∧ e.placeholder = .placeholder d' := by
      simpa [Frame.link] using hd'
    rw [← hd]
    exact Function.update_self _ _ _
  exact h₄.push (f := .holding e.impl) rfl

theorem EmissionStep.linked (h : EmissionStep w w') (hw : WellAddressed w) (hl : w.Linked) :
    w'.Linked := by
  cases h with
  | start calm owned run => exact Emission.start_linked hw run hl
  | skip top inside arrived slot uncallable impl next => exact hl.setTop top rfl
  | beginCall top inside arrived callable => exact hl.setTop top rfl
  | endCall v top invoking => exact hl.setTop top rfl
  | advance top invoked impl next => exact hl.setTop top rfl
  | finish top ends impl element quiet => exact hl.finishEmission hw top impl element
  | finishSweep top ends impl element sweeps run =>
    exact SignalImpl.enterSweep_linked run (hl.finishEmission hw top impl element)

/-! ### Runs -/

/-- What holds of every world in a run: addresses are used once, and objects hang together. -/
structure Sound (w : World V) : Prop extends WellAddressed w where
  linked : w.Linked

/-- `w'` comes after the sound world `w` in a run. -/
structure Proceeds (w w' : World V) : Prop where
  extension : Extends w w'
  sound : Sound w'

theorem Step.linked (h : Step w w') (hw : WellAddressed w) (hl : w.Linked) : w'.Linked := by
  cases h with
  | command script wellFormed => exact hl
  | trackable h => exact h.linked hl
  | weak h => exact h.linked hl
  | slot h => exact h.linked hw hl
  | signal h => exact h.linked hw hl
  | emission h => exact h.linked hw hl

theorem Step.sound (h : Step w w') (hw : Sound w) : Sound w' where
  toWellAddressed := (h.advances hw.toWellAddressed).addressed
  linked := h.linked hw.toWellAddressed hw.linked

theorem Steps.sound (h : Steps w w') (hw : Sound w) : Sound w' :=
  h.preserves hw fun _ _ h => h.sound

theorem Steps.proceeds (h : Steps w w') (hw : Sound w) : Proceeds w w' where
  extension := (h.advances hw.toWellAddressed).extension
  sound := h.sound hw

theorem Sound.initial (script : List (Cmd V)) : Sound ({ script } : World V) where
  toWellAddressed := .initial script
  linked :=
    { unique := fun _ _ _ _ _ h => by cases h
      incomingOnce := fun _ => Nat.zero_le _
      incomingFree := fun _ h => by cases h
      nodup := fun _ _ h => by cases h
      element := fun _ _ _ h => by cases h
      listed := fun _ _ _ h => by cases h
      emitting := fun _ _ h => by cases h
      placeholder := fun _ _ _ h => by cases h
      child := fun _ _ _ h => by cases h
      parent := fun _ _ _ _ _ h => by cases h
      cleaning := fun _ h => by cases h }

end Sigc
