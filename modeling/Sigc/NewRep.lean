import Sigc.Leaving
import Sigc.StoredSource

/-!
# The rep that an assignment brings in

A clone of the rep of the source, or that rep itself, is given the parent of the old rep of the
destination, and takes its place.
-/

namespace Sigc

open Reasoning Prog

variable {V : Type} {C P : Addr → Prop} {S : SlotAddr → Prop} {w w₁ w₂ w' : World V}

/-! ## Copies -/

/-- The slots in `f` have no rep that is older than `n`. -/
def World.NewIn (w : World V) (n : Addr) (f : Functor) : Prop :=
  ∀ s sl q, .slot s ∈ f → w.slots s = some sl → sl.rep = some q → n ≤ q

/-- Every rep in `P` exists. -/
def World.Existing (w : World V) (P : Addr → Prop) : Prop := ∀ q, P q → ∃ rep, w.reps q = some rep

theorem World.Existing.leaves (hP : w.Existing P) (hw : WellAddressed w) (h : w.Leaves C P S w') :
    w'.Existing P := by
  intro q hq
  obtain ⟨rep, hrep⟩ := hP q hq
  exact ⟨rep, (h.reps q hq (hw.reps q rep hrep)).trans hrep⟩

theorem WellAddressed.existing_lt (hw : WellAddressed w) (hP : w.Existing P) {q : Addr} (hq : P q) :
    q < w.next := by
  obtain ⟨rep, hrep⟩ := hP q hq
  exact hw.reps q rep hrep

/-- A rep that is constructed becomes a dependency of trackables, and the parent of new reps. -/
theorem RepConstructed.leaves {f : Functor} {tks : Addr → Option Trackable}
    {ign : List (Addr × Addr)} {rps : Addr → Option SlotRep} (h : RepConstructed w f tks ign rps)
    (hP : w.Existing P) {n : Addr} (hlt : ∀ q, P q → q < n) (hf : w.FunctorOk f)
    (hnew : w.NewIn n f) : w.Leaves C P S (w.afterRep tks ign rps) := by
  refine ⟨Nat.le_succ _, fun _ _ _ => rfl, fun q hq hqlt => ?_, fun q hq hqlt => ?_,
    fun c x' _ _ hx => ⟨x', hx, .inl rfl⟩⟩
  · have hne : q ≠ w.next := Nat.ne_of_lt hqlt
    show rps q = w.reps q
    cases h.bound q with
    | inl heq => rw [heq, Function.update_of_ne hne]
    | inr hbound =>
      obtain ⟨s, sl, _, hs, hsl, hq', _⟩ := hbound
      exact absurd (hlt q hq) (Nat.not_lt.mpr (hnew s sl q hs hsl hq'))
  · have hne : q ≠ w.next := Nat.ne_of_lt hqlt
    have hcount : f.count (.trackable q) = 0 := by
      apply List.count_eq_zero.mpr
      intro hin
      obtain ⟨rep, hrep⟩ := hP q hq
      rw [(hf.trackable q hin).2] at hrep
      cases hrep
    refine (h.registered.changed q).trans ?_
    show (Function.update w.trackables w.next _ q).map
      (Nat.iterate _ (f.count (.trackable q))) = w.trackables q
    rw [hcount, Function.update_of_ne hne]
    cases w.trackables q <;> rfl

namespace SlotBase

theorem construct_leaves {owner : Owner} {init : SlotInit} {s : SlotAddr} {n : Addr}
    (hP : w.Existing P) (hlt : ∀ q, P q → q < n) (hle : n ≤ w.next)
    (hf : ∀ f, init.functor = some f → w.FunctorOk f ∧ w.NewIn n f)
    (h : construct owner init w = (.ret s, w')) :
    w.Leaves C P (fun _ => True) w' ∧ w'.NewIn n [.slot s] := by
  have hplace {v : World V} {a : Addr} {x : SlotBase} (hbelow : w.next ≤ a) (hv : v.next ≤ a + 1) :
      v.Leaves C P (fun t => t.Below w.next)
        (World.setSlot { v with next := a + 1 } (.object a) (some x)) := by
    refine ⟨hv, fun t ht _ => ?_, fun _ _ _ => rfl, fun _ _ _ => rfl,
      fun c x' _ _ hx => ⟨x', hx, .inl rfl⟩⟩
    apply Function.update_of_ne
    intro heq
    exact absurd (ht a heq) (Nat.not_lt.mpr hbelow)
  have hall {v : World V} (hv : w.Leaves C P (fun t => t.Below w.next) v) :
      w.Leaves C P (fun _ => True) v :=
    { hv with slots := fun t _ hb => hv.slots t hb hb }
  cases construct_effect h with
  | inl hnone =>
    obtain ⟨_, rfl, rfl⟩ := hnone
    refine ⟨hall (hplace (Nat.le_refl _) (Nat.le_succ _)), fun t sl q ht hsl hq => ?_⟩
    obtain rfl : t = .object w.next := by simpa using ht
    rw [World.setSlot_self] at hsl
    obtain rfl := Option.some.inj hsl
    cases hq
  | inr hsome =>
    obtain ⟨f, tks, ign, rps, hinit, hcons, rfl, rfl⟩ := hsome
    obtain ⟨hok, hnew⟩ := hf f hinit
    refine ⟨hall ((hcons.leaves hP hlt hok hnew).trans
      (hplace (Nat.le_succ _) (Nat.le_succ _))), fun t sl q ht hsl hq => ?_⟩
    obtain rfl : t = .object (w.next + 1) := by simpa using ht
    rw [World.setSlot_self] at hsl
    obtain rfl := Option.some.inj hsl
    obtain rfl := Option.some.inj hq
    exact hle

/-- What copies of slots have left alone: the reps there were. -/
def CopiesBeside (C : Addr → Prop) (copySlot : SlotAddr → M V SlotAddr) : Prop :=
  ∀ (P : Addr → Prop) (w : World V) (s s' : SlotAddr) (w' : World V), Sound w → w.Existing P →
    copySlot s w = (.ret s', w') → w.Leaves C P (fun _ => True) w' ∧ w'.NewIn w.next [.slot s']

theorem copyFunctor_leaves {copySlot : SlotAddr → M V SlotAddr}
    (hends : ∀ w s, Sound w → Ends (fun _ => True) w (copySlot s) w fun s' w' =>
      Keeps w w' ∧ w'.FunctorOk [.slot s'])
    (hcopy : CopiesBeside C copySlot) (f : Functor) :
    ∀ {w w' : World V} {f' : Functor}, Sound w → w.Existing P →
      copyFunctor copySlot f w = (.ret f', w') →
        w.Leaves C P (fun _ => True) w' ∧ w'.NewIn w.next f' := by
  -- on the targets, each copy being made in the world that those before it have left
  induction f with
  | nil =>
    intro w w' f' _ _ h
    obtain ⟨rfl, rfl⟩ := pure_eq_ret.mp h
    exact ⟨.refl w, fun _ _ _ hs => by cases hs⟩
  | cons t ts ih =>
    intro w w' f' hw hP h
    cases t with
    | trackable t =>
      obtain ⟨ts', w₁, hts, h⟩ := bind_eq_ret.mp h
      obtain ⟨rfl, rfl⟩ := pure_eq_ret.mp h
      obtain ⟨hleaves, hnew⟩ := ih hw hP hts
      refine ⟨hleaves, fun s sl q hs => hnew s sl q ?_⟩
      simpa using hs
    | slot s =>
      obtain ⟨s', w₁, hs', h⟩ := bind_eq_ret.mp h
      obtain ⟨ts', w₂, hts, h⟩ := bind_eq_ret.mp h
      obtain ⟨rfl, rfl⟩ := pure_eq_ret.mp h
      obtain ⟨hkeeps, hok⟩ := (hends w s hw).of_ret hs'
      obtain ⟨h₁, hnew₁⟩ := hcopy P w s s' w₁ hw hP hs'
      have hw₁ := hkeeps.1.sound hw
      obtain ⟨h₂, hnew₂⟩ := ih hw₁ (hP.leaves hw.toWellAddressed h₁) hts
      refine ⟨h₁.trans h₂, fun x sl q hx hsl hq => ?_⟩
      cases List.mem_cons.mp hx with
      | inl heq =>
        -- the copy that has just been made is still what it was
        cases heq
        have hbelow : s'.Below w₁.next := by
          intro a ha
          obtain ⟨b, hb, hlt, _⟩ := hok.slot s' (by simp)
          rw [hb] at ha
          cases ha
          exact hlt
        rw [h₂.slots s' trivial hbelow] at hsl
        exact hnew₁ s' sl q (by simp) hsl hq
      | inr hmem => exact Nat.le_trans h₁.next (hnew₂ x sl q hmem hsl hq)

theorem copyInit_leaves (n : Nat) : ∀ {P : Addr → Prop} {w w' : World V} {src : SlotAddr}
    {init : SlotInit}, Sound w → w.Existing P → copyInit n src w = (.ret init, w') →
      w.Leaves C P (fun _ => True) w' ∧ ∀ f, init.functor = some f → w'.NewIn w.next f := by
  -- on the depth, for all sets of reps at once: the copies made so far are among them
  induction n with
  | zero =>
    intro P w w' src init _ _ h
    cases h
  | succ n ih =>
    intro P w w' src init hw hP h
    have hnone {v : World V} {b : Bool} (h : (pure { functor := none, blocked := b } : M V SlotInit)
        v = (.ret init, w')) (hv : w = v) :
        w.Leaves C P (fun _ => True) w' ∧ ∀ f, init.functor = some f → w'.NewIn w.next f := by
      obtain ⟨rfl, rfl⟩ := pure_eq_ret.mp h
      subst hv
      exact ⟨.refl w, fun f hf => by cases hf⟩
    obtain ⟨sl, w₁, hload, h⟩ := bind_eq_ret.mp h
    obtain ⟨_, rfl⟩ := deref_eq_ret.mp hload
    cases hr : sl.rep with
    | none =>
      rw [hr] at h
      exact hnone h rfl
    | some r =>
      rw [hr] at h
      obtain ⟨rep, w₁, hload, h⟩ := bind_eq_ret.mp h
      obtain ⟨_, rfl⟩ := deref_eq_ret.mp hload
      split at h
      · obtain ⟨f, w₁, hderef, h⟩ := bind_eq_ret.mp h
        obtain ⟨_, rfl⟩ := deref_eq_ret.mp hderef
        obtain ⟨f', w₁, hcopy, h⟩ := bind_eq_ret.mp h
        obtain ⟨rfl, rfl⟩ := pure_eq_ret.mp h
        have hends := (copyInit_ends (T := fun _ => True) (V := V) (fun _ => trivial) n).stored
        obtain ⟨hleaves, hnew⟩ := copyFunctor_leaves (C := C) hends (fun P v s s' v' hv hPv h => by
          obtain ⟨init, v₁, hinit, hcons⟩ := bind_eq_ret.mp h
          obtain ⟨h₁, hnew₁⟩ := ih hv hPv hinit
          obtain ⟨hkeeps, hok⟩ := (copyInit_ends (T := fun _ => True) (fun _ => trivial) n v s
            hv).of_ret hinit
          obtain ⟨h₂, hnew₂⟩ := construct_leaves (C := C) (hPv.leaves hv.toWellAddressed h₁)
            (fun q hq => hv.existing_lt hPv hq) h₁.next (fun f hf => ⟨hok f hf, hnew₁ f hf⟩) hcons
          exact ⟨h₁.trans h₂, hnew₂⟩) f hw hP hcopy
        refine ⟨hleaves, fun g hg => ?_⟩
        obtain rfl := Option.some.inj hg
        exact hnew
      · exact hnone h rfl

end SlotBase

/-! ## The new rep -/

/-- The reps that the destination may have in the end: the one that `src` has, and those that are
made from now on. -/
def SlotBase.Incoming (w : World V) (sl : SlotBase) (q : Addr) : Prop := w.next ≤ q ∨ sl.rep = some q

/-- `rep` has the parent of the rep that the slot `self` has, or none if that has no rep. -/
def World.Inherits (w : World V) (self : SlotBase) (rep : SlotRep) : Prop :=
  match self.rep.bind w.reps with
  | none => rep.parent = none
  | some old => rep.parent = old.parent ∧ rep.cleanup = old.cleanup

/-- The rep `new` can be called, is that of no slot, and holds what the slot `sl` held. -/
structure World.Fresh (w : World V) (dst : SlotAddr) (x sl : SlotBase) (new : Addr)
    (w₂ : World V) : Prop where
  prepared : SlotBase.Prepared w dst new w₂
  slot : w₂.slots dst = some x
  rep : ∃ rep, w₂.reps new = some rep ∧ rep.call = true ∧ w.Inherits x rep ∧
    Observation.ofCore (w.glimpse 0) sl.blocked (some (true, rep.functor)) =
      .ofCore (w.glimpse 0) sl.blocked (sl.rep.bind w.core)
  incoming : SlotBase.Incoming w sl new

namespace SlotBase

variable {u : Env V} {cleanup : Addr → M V Unit} {dst src : SlotAddr} {self sl : SlotBase}
  {new : Addr}

/-- `set_parent(rep_->parent_, rep_->cleanup_)`. -/
theorem passParent_inherits {newRep : SlotRep} (hself : w.slots dst = some self)
    (hnew : w₁.reps new = some newRep) (hparent : newRep.parent = none)
    (hold : ∀ r rep, self.rep = some r → w₁.reps r = some rep → w.reps r = some rep)
    (h : passParent new self.rep w₁ = (.ret (), w₂)) :
    ∃ rep, w₂.reps new = some rep ∧ rep.call = newRep.call ∧ rep.functor = newRep.functor ∧
      w.Inherits self rep := by
  obtain ⟨q, blocked, owner, dying⟩ := self
  cases passParent_effect h with
  | inl hnone =>
    obtain ⟨rfl, rfl⟩ := hnone
    exact ⟨newRep, hnew, rfl, rfl, hparent⟩
  | inr hsome =>
    obtain ⟨r, oldRep, newRep', rfl, hr, hnew', rfl⟩ := hsome
    obtain rfl := Option.some.inj (hnew.symm.trans hnew')
    refine ⟨_, Function.update_self .., rfl, rfl, ?_⟩
    unfold World.Inherits
    show match w.reps r with
      | none => oldRep.parent = none
      | some old => oldRep.parent = old.parent ∧ oldRep.cleanup = old.cleanup
    rw [hold r oldRep rfl hr]
    exact ⟨rfl, rfl⟩

theorem passParent_leaves {old : Option Addr} (hnew : ¬P new)
    (h : passParent new old w = (.ret (), w')) : w.Leaves C P S w' ∧ w'.slots = w.slots := by
  cases passParent_effect h with
  | inl hnone =>
    obtain ⟨_, rfl⟩ := hnone
    exact ⟨.refl _, rfl⟩
  | inr hsome =>
    obtain ⟨_, _, _, _, _, _, rfl⟩ := hsome
    exact ⟨.setRep hnew _, rfl⟩

/-- The clone of the rep of the source. -/
theorem incomingCopy_fresh (hw : Sound w) (calm : w.Calm) (hself : w.slots dst = some self)
    (hsl : w.slots src = some sl) (unlisted : ¬w.Listed dst) (hcalls : w.calls sl.rep = true)
    (hP : w.Existing P) (h : incomingCopy u dst src w = (.ret new, w₂)) :
    w.Fresh dst self sl new w₂ ∧ w.Leaves C P (fun _ => True) w₂ := by
  obtain ⟨init, w₁, hinit, h⟩ := bind_eq_ret.mp h
  obtain ⟨f, w₁', hderef, hclone⟩ := bind_eq_ret.mp h
  obtain ⟨hf, rfl⟩ := deref_eq_ret.mp hderef
  obtain ⟨hkeeps, hok⟩ := (copyInit_ends (T := fun _ => True) (fun _ => trivial) u.fuel w src
    hw).of_ret hinit
  have hadv := hkeeps.1.proceeds hw
  have hlarger (P : Addr → Prop) (hP : w.Existing P) := copyInit_leaves (C := C) u.fuel hw hP hinit
  obtain ⟨h₁, hnew₁⟩ := hlarger P hP
  have hprepared := (cloneFor_ends (T := fun _ => True) hadv.sound (hkeeps.1.calm calm)
    (hadv.unlisted hw hself unlisted) (hok f hf)).of_ret hclone
  have hself₁ : w₁.slots dst = some self := (h₁.slots dst trivial (hw.below hself)).trans hself
  obtain ⟨rfl, tks, ign, rps, self', w₃, hcons, hself', hpass, rfl⟩ := cloneFor_effect hclone
  obtain rfl := Option.some.inj (hself₁.symm.trans hself')
  have hle : w.next ≤ w₁.next := h₁.next
  have hlt (P : Addr → Prop) (hP : w.Existing P) : ∀ q, P q → q < w.next :=
    fun q hq => hw.existing_lt hP hq
  have hbuilt (P : Addr → Prop) (hP : w.Existing P) :
      w.Leaves C P (fun _ => True) (w₁.afterRep tks ign rps) :=
    (hlarger P hP).1.trans (hcons.leaves (hP.leaves hw.toWellAddressed (hlarger P hP).1) (hlt P hP)
      (hok f hf) ((hlarger P hP).2 f hf))
  have hnotNew : ¬P w₁.next := fun hq => absurd (hlt P hP _ hq) (Nat.not_lt.mpr hle)
  obtain ⟨hpassed, hslots⟩ := passParent_leaves (C := C) (S := fun _ => True) hnotNew hpass
  have hrep : (w₁.afterRep tks ign rps).reps w₁.next = some { call := true, functor := some f } :=
    hcons.rep hadv.sound.toWellAddressed
  -- the old rep is what it was when its parent is passed on
  have hold : ∀ r rep, self.rep = some r → (w₁.afterRep tks ign rps).reps r = some rep →
      w.reps r = some rep := by
    intro r rep hr hrep
    have hltr : r < w.next := hw.slotRep dst self r hself hr
    cases hold : w.reps r with
    | some old =>
      have hsame := (hbuilt (· = r) (fun q hq => ⟨old, hq ▸ hold⟩)).reps r rfl hltr
      rw [hsame, hold] at hrep
      exact hrep
    | none =>
      -- a rep that has been destroyed does not come back
      have hgone : w₁.reps r = none := hadv.extension.reps.eq_none hltr hold
      have hne : r ≠ w₁.next := Nat.ne_of_lt (Nat.lt_of_lt_of_le hltr hle)
      cases hcons.bound r with
      | inl heq =>
        rw [Function.update_of_ne hne, hgone] at heq
        exact absurd (hrep.symm.trans heq) (by simp)
      | inr hbound =>
        obtain ⟨_, _, _, _, _, _, hbefore, _⟩ := hbound
        rw [Function.update_of_ne hne, hgone] at hbefore
        cases hbefore
  obtain ⟨rep, hnew, hcall, hfunctor, hinherits⟩ := passParent_inherits hself hrep rfl hold hpass
  refine ⟨⟨⟨hkeeps.1.1.trans hprepared.1, hprepared.2.1.trans (congrArg _ hkeeps.1.2),
    hprepared.2.2⟩, ?_, ⟨rep, hnew, hcall, hinherits, ?_⟩, .inl hle⟩, ?_⟩
  · show w₃.slots dst = some self
    rw [hslots]
    exact hself₁
  · rw [hfunctor]
    exact copyInit_seen (n := u.fuel) hw.since_zero hsl hcalls hinit hf (.refl _) 0
  · exact ((hbuilt P hP).trans hpassed).trans
      (.of_heap (Nat.le_refl _) rfl rfl (fun _ _ _ => rfl) rfl)

/-- The weak pointers to the rep are reset, and nothing else happens to slots and reps. -/
theorem notifyMove_resets {r : Addr} {rep : SlotRep} (hw : Sound w) (calm : w.Calm)
    (alive : w.reps r = some rep) :
    Ends (fun _ => True) w (notifyMove u r) w fun _ w' => w'.slots = w.slots ∧ w'.reps = w.reps := by
  have hs := Steps.single (.slot (.move (w := w) r))
  refine .modify (((Trackable.notifyCallbacks_weak (hs.proceeds hw).sound alive
    (.inr (.inr rfl)) (calm.of_frames rfl)).after hs).mono fun _ w' h => ?_)
  obtain ⟨⟨_, _, _, _, rfl⟩, _⟩ := h
  exact ⟨rfl, rfl⟩

theorem notifyMove_destructors {r : Addr} {rep : SlotRep} (hw : Sound w)
    (alive : w.reps r = some rep) : notifyMove u r w = notifyMove u.destructors r w := by
  unfold notifyMove
  rw [modify_bind_run, modify_bind_run]
  apply Trackable.notifyCallbacks_destructors
  intro tr htr
  exact hw.weakOnly r rep tr alive htr

/-- The rep of the source itself, which has been told. -/
theorem moveFor_fresh {r : Addr} {rep : SlotRep} (hw : Sound w) (calm : w.Calm)
    (hself : w.slots dst = some self) (hsl : w.slots src = some sl) (unlisted : ¬w.Listed dst)
    (source : ¬w.Listed src) (hne : src ≠ dst) (hr : sl.rep = some r) (hrep : w.reps r = some rep)
    (hparent : rep.parent = none) (hcall : rep.call = true)
    (hnotify : notifyMove u.destructors r w = (.ret (), w₁))
    (h : moveFor dst src w₁ = (.ret new, w₂)) :
    w.Fresh dst self sl new w₂ ∧ w.Leaves C (fun _ => False) (fun t => t ≠ src) w₂ ∧
      w₂.slots src = some { sl with rep := none, blocked := false } := by
  obtain ⟨⟨hgoes, _⟩, htold⟩ := (notifyMove_ends (T := fun _ => True) hw calm hsl hr hrep).of_ret
    hnotify
  -- The connections of the rep have been told, and no slot or rep has changed.
  obtain ⟨hslots, hreps⟩ := (notifyMove_resets hw calm hrep).of_ret hnotify
  have hadv := hgoes.proceeds hw
  have hprepared := (moveFor_ends (T := fun _ => True) hadv.sound (hgoes.calm calm)
    (hadv.unlisted hw hself unlisted) (hadv.unlisted hw hsl source) htold).of_ret h
  have h₁ : w.Leaves C (fun _ => False) (fun _ => True) w₁ := by
    apply Within.of_ret _ hnotify
    exact within_bind (modify_leaves fun _ => ⟨rfl, rfl, rfl, rfl, rfl⟩) fun _ =>
      Trackable.notifyCallbacks_leaves (fun _ => within_halt _) id
  -- The source is left without a rep, and the rep gets the parent of the destination.
  obtain ⟨from_, self', w₃, ⟨hfrom, _⟩, hnew, hdst, hpass, rfl⟩ := moveFor_effect h
  rw [hslots] at hfrom hdst
  obtain rfl := Option.some.inj (hsl.symm.trans hfrom)
  obtain rfl := Option.some.inj (hr.symm.trans hnew)
  rw [Function.update_of_ne hne.symm] at hdst
  obtain rfl := Option.some.inj (hself.symm.trans hdst)
  obtain ⟨hpassed, hkept⟩ := passParent_leaves (P := fun _ => False) (C := C) (S := fun t => t ≠ src)
    id hpass
  have hplaced (t : SlotAddr) : w₃.slots t =
      Function.update w.slots src (some { sl with rep := none, blocked := false }) t := by
    rw [hkept]
    show Function.update w₁.slots src _ t = _
    rw [hslots]
  have hold : (w₁.setSlot src (some { sl with rep := none, blocked := false })).reps = w.reps := hreps
  have hrep₁ : (w₁.setSlot src (some { sl with rep := none, blocked := false })).reps r =
      some rep := hold ▸ hrep
  obtain ⟨rep', hrep', hcall', hfunctor, hinherits⟩ := passParent_inherits hself hrep₁ hparent
    (fun q rep _ h => by rwa [hold] at h) hpass
  refine ⟨⟨⟨hgoes.1.trans hprepared.1, hprepared.2.1.trans (congrArg _ hgoes.2), hprepared.2.2⟩,
    ?_, ⟨rep', hrep', hcall'.trans hcall, hinherits, ?_⟩, .inr hr⟩, ?_, ?_⟩
  · show w₃.slots dst = some self
    rw [hplaced, Function.update_of_ne hne.symm, hself]
  · rw [hfunctor, hr, ← hcall]
    show _ = Observation.ofCore (w.glimpse 0) sl.blocked (w.core r)
    rw [World.core_of_rep hrep]
  -- The three parts in turn: the notification, the source's base, the parent of the rep.
  · have hset : w₁.Leaves C (fun _ => False) (fun t => t ≠ src)
        (w₁.setSlot src (some { sl with rep := none, blocked := false })) :=
      .setSlot (fun hsrc => hsrc rfl) _
    exact ((h₁.mono (fun _ => id) (fun _ => id) fun _ _ => trivial).trans (hset.trans hpassed)).trans
      (.of_heap (Nat.le_refl _) rfl rfl (fun _ _ _ => rfl) rfl)
  · show w₃.slots src = _
    rw [hplaced, Function.update_self]

/-! ## The old rep -/

/-- The old rep is deleted, and the new one takes its place.  A rep in `P` is not that of the
destination, nor that of a slot stored in it. -/
theorem exchangeRep_leaves (hw : Sound w) {below : List (Frame V)}
    (hu : u.DestroysBeside C P S w) (top : w.frames = .assigning dst new :: below)
    (unlisted : ¬w.Listed dst) (hself : w.slots dst = some self) (hS : S dst) (hP : w.Existing P)
    (hheld : ∀ q s sl, P q → w.slots s = some sl → sl.rep = some q →
      s ≠ dst ∧ ∀ f, w.inner dst = some f → .slot s ∉ f)
    (h : exchangeRep u.destructors dst new w = (.ret (), w')) :
    w'.slots dst = some { self with rep := some new } ∧
      w.Leaves C P (fun t => S t ∧ t ≠ dst) w' ∧ Steps w w' ∧
      ∀ r, self.rep = some r → w'.reps r = none := by
  obtain ⟨_, w₁, hdelete, h⟩ := bind_eq_ret.mp h
  obtain ⟨self', w₂, hload, h⟩ := bind_eq_ret.mp h
  obtain rfl := modify_eq_ret.mp h
  obtain ⟨⟨hself', hdying⟩, rfl⟩ := loadIntact_eq_ret.mp hload
  have hsteps := ((deleteOld_ends hu.spec hw top unlisted).of_ret hdelete).2.2 self' hself' hdying
  obtain ⟨self₀, w₂, hload, hdelete⟩ := bind_eq_ret.mp hdelete
  obtain ⟨hself₀, rfl⟩ := deref_eq_ret.mp hload
  obtain rfl := Option.some.inj (hself.symm.trans hself₀)
  -- The deletion of the old rep; a default-constructed destination has none.
  have hdeleted : w.Leaves C P S w₁ ∧ ∀ r, self.rep = some r → w₁.reps r = none := by
    have hends := (deleteRep_ends hu.spec hw (.of_top top rfl) hself (.inr unlisted)).of_ret hdelete
    refine ⟨?_, fun r hr => (hends.2 r hr).1⟩
    cases hr : self.rep with
    | none =>
      rw [hr] at hdelete
      obtain ⟨_, rfl⟩ := pure_eq_ret.mp hdelete
      exact .refl _
    | some r =>
      rw [hr] at hdelete
      have hinner {rep : SlotRep} {f : Functor} (hrep : w.reps r = some rep)
          (hf : rep.functor = some f) : w.inner dst = some f :=
        World.inner_eq_some.mpr ⟨self, r, hself, hr, by rw [functorsOf, hrep, ← hf]; rfl⟩
      apply SlotRep.delete_leaves hu (.of_top top rfl) hself hr unlisted
      · intro hin
        exact (hheld r dst self hin hself hr).1 rfl
      · intro rep f t hrep hf ht hin
        obtain ⟨rep', hrep'⟩ := hP t hin
        rw [((hw.functor r rep f hrep hf).trackable t ht).2] at hrep'
        cases hrep'
      · intro rep f s sl q hrep hf hs hsl hq hin
        exact (hheld q s sl hin hsl hq).2 f (hinner hrep hf) hs
      · exact hdelete
  obtain ⟨hleaves, hgone⟩ := hdeleted
  -- The destructor of the old functor has left the destination's base alone.
  have hsame : self' = self := by
    rw [hleaves.slots dst hS (hw.below hself), hself] at hself'
    exact (Option.some.inj hself').symm
  subst hsame
  refine ⟨Function.update_self .., ?_, hsteps, hgone⟩
  have hset : w₁.Leaves C P (fun t => S t ∧ t ≠ dst)
      (w₁.setSlot dst (some { self' with rep := some new })) := .setSlot (fun h => h.2 rfl) _
  exact ((hleaves.mono (fun _ => id) (fun _ => id) fun _ => And.left).trans hset).trans
    (.of_heap (Nat.le_refl _) rfl rfl (fun _ _ _ => rfl) rfl)

/-- The whole exchange runs no other code than the destructor of the old functor. -/
theorem exchangeRep_destructors (hu : u.destructors.Spec fun _ => True) (hw : Sound w)
    {below : List (Frame V)} (top : w.frames = .assigning dst new :: below)
    (unlisted : ¬w.Listed dst) : exchangeRep u dst new w = exchangeRep u.destructors dst new w := by
  unfold exchangeRep
  apply bind_congr_run
  unfold deleteOld
  apply bind_congr_right
  intro sl w₁ hload
  obtain ⟨hsl, rfl⟩ := deref_eq_ret.mp hload
  cases hr : sl.rep with
  | none => rfl
  | some r => exact SlotRep.delete_destructors hu hw (.of_top top rfl) hsl hr unlisted

end SlotBase

end Sigc
