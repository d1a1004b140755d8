import Sigc.Assignment

/-!
# Sources that are stored in the destination

A slot may be assigned from one that is stored in its own functor, at any depth, and is destroyed
with it.
-/

namespace Sigc

open Reasoning Prog

variable {V : Type} {w w₂ w' : World V}

/-- Slots that store no more than they did. -/
theorem World.StoredIn.earlier {dst s : SlotAddr}
    (hinner : ∀ t g, w.Part dst t → w₂.inner t = some g → w.inner t = some g)
    (h : w₂.StoredIn dst s) : w.StoredIn dst s := by
  obtain ⟨f, hf, hs⟩ := h
  have hinside : ∀ t g x, w.Part dst t → w₂.inner t = some g → .slot x ∈ g → w.Part dst x :=
    fun t g x ht hg hx => .inr (ht.inside (hinner t g ht hg) hx)
  have hstored : Stores w.inner f s ∨ False := hs.transfer (Q := fun _ => False) hinside
    (fun t g ht hg => .inl (hinner t g ht hg)) fun x => hinside dst f x (.inl rfl) hf
  exact ⟨f, hinner dst f (.inl rfl) hf, hstored.resolve_right id⟩

/-- A slot that has been emptied stores nothing, and the others what they did. -/
theorem World.inner_of_setSlot_none {s t : SlotAddr} {g : Functor}
    (h : (w.setSlot s none).inner t = some g) : w.inner t = some g := by
  obtain ⟨sl, r, hsl, hr, hg⟩ := World.inner_eq_some.mp h
  obtain ⟨-, hcontra⟩ | ⟨-, hsl⟩ := update_eq_some.mp hsl
  · cases hcontra
  · exact World.inner_eq_some.mpr ⟨sl, r, hsl, hr, hg⟩

/-- Neither of the two slots is stored in the source, and what is stored there is not stored in the
destination as well. -/
def World.Alone (w : World V) (dst src : SlotAddr) : Prop :=
  w.Apart dst src ∧ ∀ x, w.StoredIn src x → ¬(w.setSlot src none).StoredIn dst x

/-! ## The exchange of the reps -/

/-- The new rep of an assignment is in hand, and what the destination stores is as it was, unless it
is the source that has been emptied. -/
structure World.Placed (w : World V) (move : Bool) (dst src : SlotAddr) (old sl : SlotBase)
    (new : Addr) (w₂ : World V) : Prop extends
    w.Brought (w.Alone dst src) move dst src old sl new w₂ where
  held : ∀ t x r, w.Part dst t → w₂.slots t = some x → x.rep = some r →
    r ≠ new ∧ (w.Taken move sl → t ≠ src) ∧ ∃ x', w.slots t = some x' ∧ x'.rep = some r
  cores : ∀ r, w.RepIn dst r → w₂.core r = w.core r

section Placed

variable {u : Env V} {dst src : SlotAddr} {self sl : SlotBase} {new : Addr} {b move : Bool} {n : Nat}

theorem World.Placed.inner (h : w.Placed move dst src self sl new w₂) {t : SlotAddr} {g : Functor}
    (ht : w.Part dst t) (hg : w₂.inner t = some g) :
    w.inner t = some g ∧ (w.Taken move sl → t ≠ src) := by
  obtain ⟨sl₂, r, hsl₂, hr, hg⟩ := World.inner_eq_some.mp hg
  obtain ⟨_, hsrc, sl', hsl', hr'⟩ := h.held t sl₂ r ht hsl₂ hr
  refine ⟨World.inner_eq_some.mpr ⟨sl', r, hsl', hr', ?_⟩, hsrc⟩
  rw [functorsOf_core, ← h.cores r ⟨t, sl', ht, hsl', hr'⟩, ← functorsOf_core, hg]

theorem WellAddressed.part_below (hw : WellAddressed w) (hself : w.slots dst = some self)
    {t : SlotAddr} (ht : w.Part dst t) : t.Below w.next := by
  cases ht with
  | inl heq => exact heq ▸ hw.below hself
  | inr hstored => exact hw.stored_below hstored

theorem WellAddressed.repIn_lt (hw : WellAddressed w) {r : Addr} (hr : w.RepIn dst r) :
    r < w.next := by
  obtain ⟨t, sl, _, hsl, hr⟩ := hr
  exact hw.slotRep t sl r hsl hr

/-- The flag of a slot is written, and nothing else. -/
theorem World.rep_of_setBlocked (hself : w.slots dst = some self) {t : SlotAddr} {r : Addr}
    {sl' : SlotBase} (hsl' : (w.setSlot dst (some { self with blocked := b })).slots t = some sl')
    (hr : sl'.rep = some r) : ∃ sl'', w.slots t = some sl'' ∧ sl''.rep = some r := by
  by_cases heq : t = dst
  · subst heq
    rw [World.setSlot_self] at hsl'
    obtain rfl := Option.some.inj hsl'
    exact ⟨self, hself, hr⟩
  · exact ⟨sl', (Function.update_of_ne heq _ _).symm.trans hsl', hr⟩

theorem World.Placed.stored (h : w.Placed move dst src self sl new w₂) {t : SlotAddr}
    (ht : w₂.StoredIn dst t) : w.StoredIn dst t :=
  ht.earlier fun _ _ ht hg => (h.inner ht hg).1

theorem World.Placed.repIn (h : w.Placed move dst src self sl new w₂) {r : Addr}
    (hr : w₂.RepIn dst r) : r ≠ new ∧ w.RepIn dst r := by
  obtain ⟨t, x, ht, hx, hr⟩ := hr
  have ht' : w.Part dst t := ht.imp_right h.stored
  obtain ⟨hne, -, x', hx', hr'⟩ := h.held t x r ht' hx hr
  exact ⟨hne, t, x', ht', hx', hr'⟩

/-- Once the source has been emptied, it leads nowhere. -/
theorem World.Placed.stored_aside (h : w.Placed move dst src self sl new w₂) (htaken : w.Taken move sl)
    {x : SlotAddr} (hx : w₂.StoredIn dst x) : (w.setSlot src none).StoredIn dst x := by
  refine hx.earlier fun t g ht hg => ?_
  have ht' : w.Part dst t := ht.imp_right fun hs =>
    hs.earlier fun _ _ _ => World.inner_of_setSlot_none
  obtain ⟨hg, hne⟩ := h.inner ht' hg
  obtain ⟨y, r, hy, hr, hg⟩ := World.inner_eq_some.mp hg
  exact World.inner_eq_some.mpr ⟨y, r, (Function.update_of_ne (hne htaken) _ _).trans hy, hr, hg⟩

/-- What comes with the functor is not destroyed with the old one. -/
theorem World.Placed.slot_outside (h : w.Placed move dst src self sl new w₂) (hw : WellAddressed w)
    (hself : w.slots dst = some self) {t : SlotAddr}
    (ht : w.BroughtSlot (w.Alone dst src) move src sl t) : t ≠ dst ∧ ¬w₂.StoredIn dst t := by
  refine ⟨fun heq => not_broughtSlot hw And.left hself (heq ▸ ht), fun hstored => ?_⟩
  obtain ⟨htaken, halone, hsrc⟩ | ⟨-, a, rfl, ha⟩ := ht
  · exact halone.2 t hsrc (h.stored_aside htaken hstored)
  · exact absurd (hw.stored_below (h.stored hstored) a rfl) (Nat.not_lt.mpr ha)

theorem World.Placed.rep_outside (h : w.Placed move dst src self sl new w₂) (hw : Sound w)
    (hsl : w.slots src = some sl) {q : Addr}
    (hq : w.BroughtRep (w.Alone dst src) move src sl q) : ¬w₂.RepIn dst q := by
  intro hin
  obtain ⟨t, x, ht, hx, hr⟩ := id hin
  obtain ⟨-, hsrc, x', hx', hr'⟩ := h.held t x q (ht.imp_right h.stored) hx hr
  obtain ⟨htaken, hsame | ⟨halone, s, y, hs, hy, hyr⟩⟩ | ⟨-, hle⟩ := hq
  · -- only the source has this rep
    exact hsrc htaken (hw.linked.unique _ _ _ _ _ hx' hr' hsl hsame)
  · obtain rfl := hw.linked.unique _ _ _ _ _ hx' hr' hy hyr
    have hstored := hs.resolve_left (hsrc htaken)
    cases ht with
    | inl heq => exact halone.1.1 (heq ▸ hstored)
    | inr hdst => exact halone.2 t hstored (h.stored_aside htaken hdst)
  · exact absurd (hw.repIn_lt (h.repIn hin).2) (Nat.not_lt.mpr hle)

/-- The clone of a rep is placed. -/
theorem SlotBase.incomingCopy_placed (hw : WellAddressed w) (htaken : ¬w.Taken move sl)
    (hself : w.slots dst = some self) (hsl : w.slots src = some sl) (hne : src ≠ dst)
    (hcalls : w.calls sl.rep = true)
    (h : incomingCopy u dst src (w.setSlot dst (some (flagged move self sl))) = (.ret new, w₂)) :
    w.Placed move dst src self sl new w₂ ∧
      ∀ t g, w.Part dst t → w.inner t = some g → w₂.inner t = some g := by
  have hbrought := incomingCopy_brought (K := w.Alone dst src) hw htaken hself hsl hne hcalls h
  obtain ⟨init, w₁, hinit, h⟩ := bind_eq_ret.mp h
  obtain ⟨f, w₁', hderef, hclone⟩ := bind_eq_ret.mp h
  obtain ⟨hf, rfl⟩ := deref_eq_ret.mp hderef
  have h₁ := (copyInit_spares (P := fun _ => True) (S := fun _ => True) u.fuel src).of_ret hinit
  obtain ⟨h₂, -, hfresh, -⟩ := cloneFor_core (P := fun _ => True) (S := fun _ => True) hclone
  have h₁₂ := h₁.trans h₂
  have hnew : w.next ≤ new := Nat.le_trans h₁.next hfresh
  have hcores : ∀ r, r < w.next → w₂.core r = w.core r := fun r hr => h₁₂.cores r trivial hr
  refine ⟨{ hbrought with
    held := fun t x r ht hx hr => ?_
    cores := fun r hr => hcores r (hw.repIn_lt hr) }, fun t g ht hg => ?_⟩
  · rw [h₁₂.slots t trivial (hw.part_below hself ht)] at hx
    obtain ⟨x', hx', hr'⟩ := World.rep_of_setBlocked hself hx hr
    exact ⟨Nat.ne_of_lt (Nat.lt_of_lt_of_le (hw.slotRep _ _ _ hx' hr') hnew),
      fun h => absurd h htaken, x', hx', hr'⟩
  · obtain ⟨sl', r, hsl', hr, hg⟩ := World.inner_eq_some.mp hg
    have hfunctor : functorsOf w₂.reps r = some (some g) := by
      rw [functorsOf_core, hcores r (hw.slotRep _ _ _ hsl' hr), ← functorsOf_core, hg]
    have hslot := h₁₂.slots t trivial (hw.part_below hself ht)
    by_cases heq : t = dst
    · subst heq
      obtain rfl := Option.some.inj (hself.symm.trans hsl')
      exact World.inner_eq_some.mpr ⟨_, r, hslot.trans (World.setSlot_self _), hr, hfunctor⟩
    · exact World.inner_eq_some.mpr
        ⟨sl', r, hslot.trans ((Function.update_of_ne heq _ _).trans hsl'), hr, hfunctor⟩

/-- The other code that is called meanwhile leaves alone the two slots, what is stored in the
destination, and what comes with the functor. -/
def World.SparesStored (w : World V) (move : Bool) (dst src : SlotAddr) (sl : SlotBase) :
    World V → World V → Prop :=
  World.Spares (fun q => w.BroughtRep (w.Alone dst src) move src sl q ∨ w.RepIn dst q)
    fun t => w.Part dst t ∨ t = src ∨ w.BroughtSlot (w.Alone dst src) move src sl t

instance : Std.Refl (w.SparesStored move dst src sl) := ⟨World.Spares.refl⟩

theorem World.SparesStored.brought (h : w.SparesStored move dst src sl w₂ w') :
    w₂.Spares (w.BroughtRep (w.Alone dst src) move src sl)
      (fun t => t = dst ∨ t = src ∨ w.BroughtSlot (w.Alone dst src) move src sl t) w' :=
  h.mono (fun _ => .inl) fun _ => Or.imp_left .inl

/-- The rep of the source is placed, and the source is left without one. -/
theorem SlotBase.moveFor_placed {r : Addr} {w₁ : World V} (hw : Sound w)
    (hu : ∀ d, Within (w.SparesStored true dst src sl) (u.call (.notify d)))
    (htaken : w.Taken true sl) (hself : w.slots dst = some self) (hsl : w.slots src = some sl)
    (hne : src ≠ dst) (hr : sl.rep = some r)
    (hnotify : notifyMove u r (w.setSlot dst (some (flagged true self sl))) = (.ret (), w₁))
    (h : moveFor dst src w₁ = (.ret new, w₂)) : w.Placed true dst src self sl new w₂ := by
  have hbrought := moveFor_brought hw.toWellAddressed And.left htaken
    (fun d v => World.SparesStored.brought (hu d v)) hself hsl hne hr hnotify h
  have h₁ := (notifyMove_spares hu r).of_ret hnotify
  have hsl₁ : w₁.slots src = some sl := (h₁.slots src (.inr (.inl rfl)) (hw.below hsl)).trans
    ((Function.update_of_ne hne _ _).trans hsl)
  obtain ⟨h₂, hrep₂, -, hsrc⟩ := moveFor_core (P := fun _ => True) (S := fun t => t ≠ src)
    (fun h => h rfl) hsl₁ h
  obtain rfl := Option.some.inj (hr.symm.trans hrep₂)
  refine { hbrought with held := fun t x q ht hx hq => ?_, cores := fun q hq => ?_ }
  · by_cases hts : t = src
    · subst hts
      rw [hsrc] at hx
      obtain rfl := Option.some.inj hx
      cases hq
    · have hbelow := hw.part_below hself ht
      rw [h₂.slots t hts fun a ha => Nat.lt_of_lt_of_le (hbelow a ha) h₁.next,
        h₁.slots t (.inl ht) hbelow] at hx
      obtain ⟨x', hx', hq'⟩ := World.rep_of_setBlocked hself hx hq
      refine ⟨?_, fun _ => hts, x', hx', hq'⟩
      -- no other slot has the rep
      rintro rfl
      exact hts (hw.linked.unique _ _ _ _ _ hx' hq' hsl hr)
  · have hlt := hw.repIn_lt hq
    rw [h₂.cores q trivial (Nat.lt_of_lt_of_le hlt h₁.next)]
    exact h₁.cores q (.inr hq) hlt

/-- The new rep of either assignment is placed. -/
theorem SlotBase.incoming_placed (hw : Sound w)
    (hu : ∀ d, Within (w.SparesStored move dst src sl) (u.call (.notify d)))
    (hself : w.slots dst = some self) (hsl : w.slots src = some sl) (hne : src ≠ dst)
    (hcalls : w.calls sl.rep = true) (h : incoming move u dst src w = (.ret new, w₂)) :
    w.Placed move dst src self sl new w₂ := by
  cases move with
  | false =>
    refine (incomingCopy_placed (u := u) hw.toWellAddressed World.not_taken_false hself hsl hne
      hcalls ?_).1
    rw [World.setBlocked_self hself]
    exact h
  | true =>
    obtain ⟨r, rep, hr, hrep, hnew⟩ := incomingMove_eq_ret hself hsl h
    split at hnew
    · rename_i hparent
      obtain ⟨_, w₁, hnotify, hmove⟩ := bind_eq_ret.mp hnew
      exact moveFor_placed hw hu (World.taken_of_parent hr hrep hparent) hself hsl hne hr hnotify hmove
    · rename_i hparent
      exact (incomingCopy_placed hw.toWellAddressed (fun h => hparent (h.2 r rep hr hrep)) hself hsl
        hne hcalls hnew).1

/-- What was stored in the destination is destroyed with the old rep, and nothing else. -/
theorem SlotBase.exchangeRep_run {P : Addr → Prop} {S : SlotAddr → Prop} {w₃ : World V}
    (hw : WellAddressed w) (hu : u.Destroys (w₂.StoredIn dst) (w₂.RepIn dst) P S)
    (hP : ∀ q, w.RepIn dst q → P q) (hS : ∀ t, w.Part dst t → S t)
    (hself : w.slots dst = some self) (hplaced : w.Placed move dst src self sl new w₂)
    (h : exchangeRep u dst new w₂ = (.ret (), w₃)) :
    w₃.slots dst = some { flagged move self sl with rep := some new } ∧
      (∀ s, w₂.StoredIn dst s → w₃.slots s = none) ∧
        w₂.Spares (fun q => P q ∧ ¬w₂.RepIn dst q)
          (fun s => (S s ∧ ¬w₂.StoredIn dst s) ∧ s ≠ dst) w₃ := by
  have hbelow {t : SlotAddr} (ht : w.Part dst t) : t.Below w₂.next := by
    intro a ha
    exact Nat.lt_of_lt_of_le (hw.part_below hself ht a ha) hplaced.next
  have hclosed : w₂.Closed (w₂.StoredIn dst) (w₂.RepIn dst) := by
    apply World.closed_storedIn
    · intro t ht
      exact hbelow (.inr (hplaced.stored ht))
    · intro r hr
      exact Nat.lt_of_lt_of_le (hw.repIn_lt (hplaced.repIn hr).2) hplaced.next
  obtain ⟨_, w', hdelete, h⟩ := bind_eq_ret.mp h
  obtain ⟨self₃, w'', hload, h⟩ := bind_eq_ret.mp h
  obtain ⟨⟨hself₃, _⟩, rfl⟩ := loadIntact_eq_ret.mp hload
  obtain rfl := modify_eq_ret.mp h
  -- the old rep is gone, with all that the destination has stored
  have hdeleted : w₂.Wrecks (w₂.StoredIn dst) (w₂.RepIn dst) P S w' ∧
      ∀ s, w₂.StoredIn dst s → w'.slots s = none := by
    obtain ⟨self', w'', hload, hdelete⟩ := bind_eq_ret.mp hdelete
    obtain ⟨hself', rfl⟩ := deref_eq_ret.mp hload
    obtain rfl := Option.some.inj (hplaced.slot.symm.trans hself')
    have hslot := hplaced.slot
    generalize flagged move self sl = old at hslot hdelete
    obtain ⟨rep, blocked, owner, dying⟩ := old
    cases rep with
    | none =>
      obtain ⟨_, rfl⟩ := pure_eq_ret.mp hdelete
      refine ⟨.refl _, fun s hs => ?_⟩
      obtain ⟨f, hf, _⟩ := hs
      obtain ⟨sl', r, hsl', hr, _⟩ := World.inner_eq_some.mp hf
      rw [hslot] at hsl'
      obtain rfl := Option.some.inj hsl'
      cases hr
    | some r =>
      have hr : w₂.RepIn dst r := ⟨dst, _, .inl rfl, hslot, rfl⟩
      obtain ⟨hwrecks, _, hgone⟩ := SlotRep.delete_wrecks hu
        (fun t ht => hS t (.inr (hplaced.stored ht))) (fun q hq => hP q (hplaced.repIn hq).2) hr
        hclosed hdelete
      refine ⟨hwrecks, fun s hs => ?_⟩
      obtain ⟨f, hf, hs⟩ := hs
      obtain ⟨sl', r', hsl', hr', hf⟩ := World.inner_eq_some.mp hf
      rw [hslot] at hsl'
      obtain rfl := Option.some.inj hsl'
      obtain rfl := Option.some.inj hr'
      exact hgone f hf s hs
  obtain ⟨hwrecks, hgone⟩ := hdeleted
  have hdst : ¬w₂.StoredIn dst dst := by
    intro hstored
    rw [hgone dst hstored] at hself₃
    cases hself₃
  rw [hwrecks.spares.slots dst ⟨hS dst (.inl rfl), hdst⟩ (hbelow (.inl rfl)), hplaced.slot]
    at hself₃
  obtain rfl := Option.some.inj hself₃
  refine ⟨Function.update_self .., fun s hs => ?_, ?_⟩
  · have hne : s ≠ dst := fun heq => hdst (heq ▸ hs)
    exact (Function.update_of_ne hne _ _).trans (hgone s hs)
  · have hset : w'.Spares (fun q => P q ∧ ¬w₂.RepIn dst q)
        (fun s => (S s ∧ ¬w₂.StoredIn dst s) ∧ s ≠ dst)
        (w'.setSlot dst (some { flagged move self sl with rep := some new })) :=
      .setSlot (fun h => h.2 rfl) _
    exact ((hwrecks.spares.mono (fun _ => id) fun _ => And.left).trans hset).trans
      (.of_heap rfl rfl (Nat.le_refl _))

end Placed

/-! ## Sources without a functor -/

/-- The destination is emptied; its flag stays. -/
theorem SlotBase.deleteRepWithCheck_empties {u : Env V} {cleanup : Addr → M V Unit}
    {dst : SlotAddr} {self : SlotBase} {P : Addr → Prop} {S : SlotAddr → Prop} {n : Nat}
    (hw : WellAddressed w) (hu : u.Destroys (w.StoredIn dst) (w.RepIn dst) P S)
    (hc : ∀ d, Within (World.Spares P S) (cleanup d)) (hP : ∀ q, w.RepIn dst q → P q)
    (hS : ∀ t, w.Part dst t → S t) (hself : w.slots dst = some self)
    (h : deleteRepWithCheck u cleanup dst w = (.ret (), w')) :
    w'.observe n dst = some ⟨true, self.blocked, none⟩ := by
  have hbelow := hw.below hself
  have hclosed := hw.closed_storedIn dst
  have hD : ∀ t, w.StoredIn dst t → S t := fun t ht => hS t (.inr ht)
  obtain ⟨self', w₁, hload, h⟩ := bind_eq_ret.mp h
  obtain ⟨hself', rfl⟩ := deref_eq_ret.mp hload
  obtain rfl := Option.some.inj (hself.symm.trans hself')
  obtain ⟨rep, blocked, owner, dying⟩ := self
  cases rep with
  | none =>
    obtain ⟨_, rfl⟩ := pure_eq_ret.mp h
    rw [World.observe_of_slot hself]
    rfl
  | some r =>
    have hr : w.RepIn dst r := ⟨dst, _, .inl rfl, hself, rfl⟩
    have hlt := hw.repIn_lt hr
    obtain ⟨x, w₁, hx, h⟩ := bind_eq_ret.mp h
    have h₁ := (WeakRawPtr.construct_spares (P := P) (S := S) (some (.rep r)) true).of_ret hx
    rw [modify_bind_run] at h
    obtain ⟨_, w₂, hdisconnect, h⟩ := bind_eq_ret.mp h
    have hpush : w₁.Spares P S (w₁.push (.checking dst r x)) := .of_heap rfl rfl (Nat.le_refl _)
    have hbegin := World.Wrecks.of_spares (h₁.trans hpush) hclosed hD hP
    have hdisconnected := SlotRep.disconnect_wrecks hu.notify hc hD hP hr (hbegin.closed hclosed)
      hdisconnect
    have h₂ := hbegin.trans hdisconnected hclosed
    have hlt₁ : r < w₁.next := Nat.lt_of_lt_of_le hlt h₁.next
    have hoff := disconnect_off (w := w₁.push (.checking dst r x)) hu.notify hc hlt₁ hdisconnect
    -- the slot is not touched, although the rep is
    have hself₂ : w₂.slots dst = some ⟨some r, blocked, owner, dying⟩ := by
      have hspares := (SlotRep.disconnect_spares (P := fun q => P q ∧ q ≠ r) (S := S) (r := r)
        (fun d v => (hu.notify d v).mono (fun _ h => h.1) fun _ h => h)
        (fun d v => (hc d v).mono (fun _ h => h.1) fun _ h => h) fun h => h.2 rfl).of_ret hdisconnect
      rw [hspares.slots dst (hS dst (.inl rfl)) fun a ha => Nat.lt_of_lt_of_le (hbelow a ha) h₁.next]
      exact (h₁.slots dst (hS dst (.inl rfl)) hbelow).trans hself
    have hbelow₂ : dst.Below w₂.next := fun a ha => Nat.lt_of_lt_of_le (hbelow a ha) h₂.spares.next
    obtain ⟨ptr, w₃, hload, h⟩ := bind_eq_ret.mp h
    obtain ⟨_, rfl⟩ := deref_eq_ret.mp hload
    obtain ⟨_, w₃, hclear, h⟩ := bind_eq_ret.mp h
    rw [modify_bind_run] at h
    have h₃ := (WeakRawPtr.destroy_spares (P := P) (S := S) x).of_ret h
    split at hclear
    · obtain ⟨_, rfl⟩ := pure_eq_ret.mp hclear
      rw [World.observe_of_slot ((h₃.slots dst (hS dst (.inl rfl)) hbelow₂).trans hself₂)]
      exact congrArg some
        (Observation.ofCore_off (h₃.off r (Nat.lt_of_lt_of_le hlt h₂.spares.next) hoff))
    · obtain ⟨self', w₄, hload, hclear⟩ := bind_eq_ret.mp hclear
      obtain ⟨hself', rfl⟩ := deref_eq_ret.mp hload
      obtain rfl := Option.some.inj (hself₂.symm.trans hself')
      obtain ⟨_, w₄, hdelete, hclear⟩ := bind_eq_ret.mp hclear
      obtain ⟨self', w₅, hload, hclear⟩ := bind_eq_ret.mp hclear
      obtain ⟨⟨hself₄, _⟩, rfl⟩ := loadIntact_eq_ret.mp hload
      obtain rfl := modify_eq_ret.mp hclear
      obtain ⟨h₄, hnone, _⟩ := SlotRep.delete_wrecks hu hD hP hr (h₂.closed hclosed) hdelete
      -- a slot that is stored in itself does not survive this
      have hdst : ¬w.StoredIn dst dst := by
        intro hstored
        obtain ⟨f, hf, _⟩ := id hstored
        cases (h₂.trans h₄ hclosed).complete dst f hstored hf with
        | inl hsame =>
          obtain ⟨sl, q, hsl, hq, hfunctor⟩ := World.inner_eq_some.mp hsame
          obtain ⟨sl', hsl', hq'⟩ := (h₂.trans h₄ hclosed).rep dst sl q hstored hsl hq
          obtain rfl := Option.some.inj (hself.symm.trans hsl')
          obtain rfl := Option.some.inj hq'
          rw [functorsOf, hnone] at hfunctor
          cases hfunctor
        | inr hlost =>
          obtain ⟨f', hf', hs⟩ := hstored
          obtain rfl := Option.some.inj (hf.symm.trans hf')
          rw [hlost dst hs] at hself₄
          cases hself₄
      rw [h₄.spares.slots dst ⟨hS dst (.inl rfl), hdst⟩ hbelow₂, hself₂] at hself₄
      obtain rfl := Option.some.inj hself₄
      have hbelow₄ : dst.Below w₄.next := fun a ha =>
        Nat.lt_of_lt_of_le (hbelow₂ a ha) h₄.spares.next
      have hself₅ := h₃.slots dst (hS dst (.inl rfl)) hbelow₄
      rw [World.observe_of_slot (hself₅.trans (Function.update_self ..))]
      rfl

/-! ## Assignment -/

namespace SlotBase

/-- Copy assignment reads the source when its own functor has been destroyed. -/
theorem assign_exchange {u : Env V} {cleanup : Addr → M V Unit} {dst src : SlotAddr}
    {self sl : SlotBase} {new : Addr} {w₃ : World V} (hself : w.slots dst = some self)
    (hsl : w.slots src = some sl) (hne : sl.rep ≠ self.rep) (hcalls : w.calls sl.rep = true)
    (hnew : incomingCopy u dst src w = (.ret new, w₂))
    (hexchange : exchangeRep u dst new w₂ = (.ret (), w₃)) :
    assign u cleanup dst src w = copyBlocked dst src w₃ := by
  obtain ⟨init, w₁, hinit, hnew⟩ := bind_eq_ret.mp hnew
  obtain ⟨f, w₁', hderef, hclone⟩ := bind_eq_ret.mp hnew
  obtain ⟨_, w₂', hdelete, hplace⟩ := bind_eq_ret.mp hexchange
  obtain ⟨self', w₃', hload, hplace⟩ := bind_eq_ret.mp hplace
  obtain rfl := modify_eq_ret.mp hplace
  obtain ⟨_, rfl⟩ := deref_eq_ret.mp hload
  have hloadSelf : loadSlot dst w = (.ret self, w) := deref_of_some hself
  have hloadSource : loadSlot src w = (.ret sl, w) := deref_of_some hsl
  rw [assign, bind_of_ret hloadSelf, bind_of_ret hloadSource, if_neg hne,
    bind_of_ret (empty_of_calls hsl hcalls), if_neg (by simp), bind_of_ret hinit,
    bind_of_ret hderef, bind_of_ret hclone, bind_of_ret hdelete, bind_of_ret hload,
    modify_bind_run]
  rfl

/-- Move assignment does not. -/
theorem moveAssign_exchange {u : Env V} {cleanup : Addr → M V Unit} {dst src : SlotAddr}
    {self sl : SlotBase} {new : Addr} {w₃ : World V} (hself : w.slots dst = some self)
    (hsl : w.slots src = some sl) (hne : sl.rep ≠ self.rep) (hcalls : w.calls sl.rep = true)
    (hnew : incomingMove u dst src w = (.ret new, w₂))
    (hexchange : exchangeRep u dst new w₂ = (.ret (), w₃)) :
    moveAssign u cleanup dst src w = (.ret (), w₃) := by
  obtain ⟨self', w₁, hload, hnew⟩ := bind_eq_ret.mp hnew
  obtain ⟨hself', rfl⟩ := deref_eq_ret.mp hload
  obtain rfl := Option.some.inj (hself.symm.trans hself')
  obtain ⟨sl', w₁, hload, hnew⟩ := bind_eq_ret.mp hnew
  obtain ⟨hsl', rfl⟩ := deref_eq_ret.mp hload
  obtain rfl := Option.some.inj (hsl.symm.trans hsl')
  rw [modify_bind_run] at hnew
  obtain ⟨r, w₁, hderef, hnew⟩ := bind_eq_ret.mp hnew
  obtain ⟨_, rfl⟩ := deref_eq_ret.mp hderef
  obtain ⟨rep, w₁, hloadRep, hnew⟩ := bind_eq_ret.mp hnew
  obtain ⟨_, rfl⟩ := deref_eq_ret.mp hloadRep
  have hloadSelf : loadSlot dst w = (.ret self, w) := deref_of_some hself
  have hloadSource : loadSlot src w = (.ret sl, w) := deref_of_some hsl
  rw [moveAssign, bind_of_ret hloadSelf, bind_of_ret hloadSource, if_neg hne,
    bind_of_ret (empty_of_calls hsl hcalls), if_neg (by simp), modify_bind_run,
    bind_of_ret hderef, bind_of_ret hloadRep]
  exact (bind_of_ret hnew).trans hexchange

/-- The assignment comes to the point where the new rep is in its place; or, where it exchanges no
reps, to its end. -/
def Arrives (move : Bool) (u : Env V) (cleanupSelfAndIter : Addr → M V Unit) (dst src : SlotAddr)
    (self sl : SlotBase) (w : World V) (new : Addr) (w₂ w₃ : World V) : Prop :=
  if sl.rep ≠ self.rep ∧ w.calls sl.rep then
    incoming move u dst src w = (.ret new, w₂) ∧ exchangeRep u dst new w₂ = (.ret (), w₃)
  else assignBy move u cleanupSelfAndIter dst src w = (.ret (), w₃)

end SlotBase

/-- A copy assignment that exchanges the reps needs a source that outlives the functor of the
destination.  One that empties the destination leaves its flag. -/
def World.Assignable (w : World V) (move : Bool) (dst src : SlotAddr) (self sl : SlotBase) : Prop :=
  if sl.rep = self.rep then True
  else if w.calls sl.rep then move = true ∨ ¬w.StoredIn dst src
  else self.blocked = sl.blocked

namespace SlotBase

section Assign

variable [Inhabited V] {other : Nat → Call → M V V} {n : Nat} {cleanup : Addr → M V Unit}
  {move : Bool} {dst src : SlotAddr} {self sl : SlotBase} {new : Addr} {w₃ : World V}

theorem placed_destroys (hu : ∀ n c, Within (w.SparesStored move dst src sl) (other n c))
    (hplaced : w.Placed move dst src self sl new w₂) (n : Nat) :
    (nestedEnv other n).Destroys (w₂.StoredIn dst) (w₂.RepIn dst)
      (fun q => w.BroughtRep (w.Alone dst src) move src sl q ∨ w.RepIn dst q)
      fun t => w.Part dst t ∨ t = src ∨ w.BroughtSlot (w.Alone dst src) move src sl t :=
  nested_destroys hu (fun _ ht => .inl (.inr (hplaced.stored ht)))
    (fun _ hq => .inr (hplaced.repIn hq).2) n

/-- After the exchange the destination shows the functor of the source. -/
theorem exchangeRep_observe (hw : Sound w)
    (hu : ∀ n c, Within (w.SparesStored move dst src sl) (other n c))
    (hself : w.slots dst = some self) (hsl : w.slots src = some sl)
    (hplaced : w.Placed move dst src self sl new w₂)
    (hexchange : exchangeRep (nestedEnv other n) dst new w₂ = (.ret (), w₃)) (m : Nat)
    (hm : m = 0 ∨ w.Separate (w.Alone dst src) move dst src self sl) :
    (w₃.setSlot dst (some { self with rep := some new, blocked := sl.blocked })).observe m dst =
      some (.ofCore (w.glimpse m) sl.blocked (sl.rep.bind w.core)) := by
  obtain ⟨-, -, hspares⟩ := exchangeRep_run hw.toWellAddressed (placed_destroys hu hplaced n)
    (fun _ => .inr) (fun _ => .inl) hself hplaced hexchange
  have hkept : w₂.Spares (w.BroughtRep (w.Alone dst src) move src sl)
      (w.BroughtSlot (w.Alone dst src) move src sl)
      (w₃.setSlot dst (some { self with rep := some new, blocked := sl.blocked })) :=
    (hspares.mono (fun q hq => ⟨.inl hq, hplaced.rep_outside hw hsl hq⟩) fun t ht =>
      ⟨⟨.inr (.inr ht), (hplaced.slot_outside hw.toWellAddressed hself ht).2⟩,
        (hplaced.slot_outside hw.toWellAddressed hself ht).1⟩).trans
      (.setSlot (not_broughtSlot hw.toWellAddressed And.left hself) _)
  rw [World.observe_of_slot (World.setSlot_self _)]
  exact congrArg some (hplaced.seen _ hkept m hm)

/-- The flag of the source is copied, unless the source was stored in the destination. -/
theorem copyBlocked_iff (hw : Sound w)
    (hu : ∀ n c, Within (w.SparesStored false dst src sl) (other n c))
    (hself : w.slots dst = some self) (hsl : w.slots src = some sl) (hne : src ≠ dst)
    (hcalls : w.calls sl.rep = true)
    (hnew : incomingCopy (nestedEnv other n) dst src w = (.ret new, w₂))
    (hexchange : exchangeRep (nestedEnv other n) dst new w₂ = (.ret (), w₃)) :
    copyBlocked dst src w₃ = (.ret (), w') ↔ ¬w.StoredIn dst src ∧
      w' = w₃.setSlot dst (some { self with rep := some new, blocked := sl.blocked }) := by
  have hnew₀ : incomingCopy (nestedEnv other n) dst src
      (w.setSlot dst (some (flagged false self sl))) = (.ret new, w₂) := by
    rw [World.setBlocked_self hself]
    exact hnew
  obtain ⟨hplaced, hkept⟩ := incomingCopy_placed hw.toWellAddressed World.not_taken_false hself hsl hne
    hcalls hnew₀
  obtain ⟨hslot, hgone, hspares⟩ := exchangeRep_run hw.toWellAddressed (placed_destroys hu hplaced n)
    (fun _ => .inr) (fun _ => .inl) hself hplaced hexchange
  constructor
  · intro h
    obtain ⟨sl', w₄, hload, h⟩ := bind_eq_ret.mp h
    obtain ⟨hsl', rfl⟩ := deref_eq_ret.mp hload
    -- A source stored in the destination has gone with the old functor.
    have hout : ¬w.StoredIn dst src := by
      rintro ⟨f, hf, hs⟩
      have hstored : Stores w₂.inner f src ∨ False := hs.transfer (D := w.Part dst)
        (Q := fun _ => False) (fun t g x ht hg hx => .inr (ht.inside hg hx))
        (fun t g ht hg => .inl (hkept t g ht hg))
        fun x hx => .inr (World.Part.inside (.inl rfl) hf hx)
      rw [hgone src ⟨f, hkept dst f (.inl rfl) hf, hstored.resolve_right id⟩] at hsl'
      cases hsl'
    have hbelow : src.Below w₂.next := fun a ha =>
      Nat.lt_of_lt_of_le (hw.below hsl a ha) hplaced.next
    rw [hspares.slots src ⟨⟨.inr (.inl rfl), fun h => hout (hplaced.stored h)⟩, hne⟩ hbelow,
      hplaced.source World.not_taken_false] at hsl'
    obtain rfl := Option.some.inj hsl'
    obtain ⟨self', w₄, hload, h⟩ := bind_eq_ret.mp h
    obtain ⟨hself', rfl⟩ := deref_eq_ret.mp hload
    obtain rfl := Option.some.inj (hslot.symm.trans hself')
    exact ⟨hout, (modify_eq_ret.mp h).symm⟩
  -- Any other source is there still, unchanged: the flag can be read.
  · rintro ⟨hout, rfl⟩
    have hbelow : src.Below w₂.next := fun a ha =>
      Nat.lt_of_lt_of_le (hw.below hsl a ha) hplaced.next
    have hsrc : w₃.slots src = some sl :=
      (hspares.slots src ⟨⟨.inr (.inl rfl), fun h => hout (hplaced.stored h)⟩, hne⟩ hbelow).trans
        (hplaced.source World.not_taken_false)
    have hloadSource : loadSlot src w₃ = (.ret sl, w₃) := deref_of_some hsrc
    have hloadSelf : loadSlot dst w₃ = (.ret _, w₃) := deref_of_some hslot
    rw [copyBlocked, bind_of_ret hloadSource, bind_of_ret hloadSelf]
    rfl

/-- No reps are exchanged: the two slots share a rep, or the source is empty. -/
theorem assignBy_keeps_iff (hw : Sound w)
    (hu : ∀ n c, Within (w.SparesStored move dst src sl) (other n c))
    (hc : ∀ d, Within (w.SparesStored move dst src sl) (cleanup d))
    (hself : w.slots dst = some self) (hsl : w.slots src = some sl)
    (hkeeps : sl.rep = self.rep ∨ w.calls sl.rep = false)
    (h : assignBy move (nestedEnv other n) cleanup dst src w = (.ret (), w')) (m : Nat) :
    w'.observe m dst = some (.ofCore (w.glimpse m) sl.blocked (sl.rep.bind w.core)) ↔
      sl.rep = self.rep ∨ self.blocked = sl.blocked := by
  -- The same rep: only the flag is assigned. An empty source: the destination is emptied, and keeps
  -- its flag.
  by_cases hsame : sl.rep = self.rep
  · rw [assignBy_of_same hself hsl hsame] at h
    obtain rfl := (Prod.mk.inj h).2
    exact iff_of_true (observe_of_same hw hself hsl hsame) (.inl hsame)
  · have hcalls := hkeeps.resolve_left hsame
    have hdestroys := nested_destroys (D := w.StoredIn dst) (R := w.RepIn dst) hu
      (fun t ht => .inl (.inr ht)) (fun q hq => .inr hq) n
    rw [deleteRepWithCheck_empties hw.toWellAddressed hdestroys hc (fun _ => .inr) (fun _ => .inl)
      hself (assignBy_of_not_calls hself hsl hsame hcalls h), Observation.ofCore_of_not_calls hcalls]
    simp [hsame]

end Assign

end SlotBase

/-- A slot, and one whose functor holds a copy of it. -/
def holdsSuccessor : List (Cmd Unit) := [.makeSlot [], .makeSlot [.slot (.object 1)]]

def afterHolding : World Unit := (run 40 (holdsSuccessor ++ [.ret ()])).2

theorem afterHolding_sound : Sound afterHolding := by
  have hstops : stops (run 40 (holdsSuccessor ++ [.ret ()])).1 = true := by decide +kernel
  obtain ⟨script, hsteps, _⟩ := (Reachable.of_run hstops).steps
  exact hsteps.sound (.initial script)

/-- Whatever else is called does nothing. -/
def quiet : Env Unit := nestedEnv (fun _ _ => pure ()) 9

theorem afterHolding_arrives : ∃ w₂ w₃, SlotBase.Arrives false quiet (fun _ => pure ()) (.object 5)
    (.object 3) { rep := some 4 } { rep := some 2, owner := .functor } afterHolding 6 w₂ w₃ := by
  have hexchanges : (some 2 : Option Addr) ≠ some 4 ∧ afterHolding.calls (some 2) = true := by
    decide +kernel
  let w₂ := (SlotBase.incoming false quiet (.object 5) (.object 3) afterHolding).2
  refine ⟨w₂, (SlotBase.exchangeRep quiet (.object 5) 6 w₂).2, ?_⟩
  rw [SlotBase.Arrives, if_pos hexchanges]
  exact ⟨run_of_value (by decide +kernel), run_of_value (by decide +kernel)⟩

end Sigc
