import Sigc.Copying

/-!
# Assignment

What can be observed of a slot after an assignment: the functor of the source, to any depth, and the
blocked flag of the one slot or the other.
-/

namespace Sigc

open Reasoning Prog

variable {V : Type}

/-- The blocked flag after an assignment to `self`. -/
def World.assignedFlag (w : World V) (self sl : SlotBase) : Bool :=
  if sl.rep = self.rep ∨ w.calls sl.rep then sl.blocked else self.blocked

/-- The rep of the source is not cloned: it is moved, and has no parent. -/
def World.Taken (w : World V) (move : Bool) (sl : SlotBase) : Prop :=
  move = true ∧ ∀ r rep, sl.rep = some r → w.reps r = some rep → rep.parent = none

variable {w w' v : World V} {P : Addr → Prop} {S : SlotAddr → Prop} {K : Prop} {move : Bool}
  {dst src : SlotAddr} {self sl : SlotBase} {n : Nat}

theorem WellAddressed.below (hw : WellAddressed w) {s : SlotAddr} {sl : SlotBase}
    (hsl : w.slots s = some sl) : s.Below w.next := by
  intro a ha
  subst ha
  exact hw.slots a sl hsl

/-! ## What comes with the functor -/

/-- Neither of the two slots is stored in the source. -/
def World.Apart (w : World V) (dst src : SlotAddr) : Prop :=
  ¬w.StoredIn src dst ∧ ¬w.StoredIn src src

/-- A slot that comes with the functor: it is stored in a source that is moved, or it is a copy of
one that is stored in a source that is copied. -/
def World.BroughtSlot (w : World V) (K : Prop) (move : Bool) (src : SlotAddr) (sl : SlotBase)
    (t : SlotAddr) : Prop :=
  (w.Taken move sl ∧ K ∧ w.StoredIn src t) ∨ (¬w.Taken move sl ∧ ∃ a, t = .object a ∧ w.next ≤ a)

/-- The rep that holds the functor, or one of a slot that comes with it. -/
def World.BroughtRep (w : World V) (K : Prop) (move : Bool) (src : SlotAddr) (sl : SlotBase)
    (q : Addr) : Prop :=
  (w.Taken move sl ∧ (sl.rep = some q ∨ K ∧ w.RepIn src q)) ∨ (¬w.Taken move sl ∧ w.next ≤ q)

/-- A functor that can be called looks the same when the source has been emptied, and when the
destination has been given another flag. -/
def World.Separate (w : World V) (K : Prop) (move : Bool) (dst src : SlotAddr) (self sl : SlotBase) :
    Prop :=
  w.calls sl.rep = true →
    (w.Taken move sl → K) ∧ (move = true → w.StoredIn src dst → self.blocked = sl.blocked)

theorem World.not_taken_false : ¬w.Taken false sl := fun h => by cases h.1

theorem not_broughtSlot (hw : WellAddressed w) (hK : K → w.Apart dst src)
    (hself : w.slots dst = some self) : ¬w.BroughtSlot K move src sl dst := by
  rintro (⟨-, hk, hstored⟩ | ⟨-, a, rfl, ha⟩)
  · exact (hK hk).1 hstored
  · exact absurd (hw.slots a self hself) (Nat.not_lt.mpr ha)

/-- The rep that is deleted does not come with the functor. -/
theorem not_broughtRep (hw : Sound w) (hK : K → w.Apart dst src)
    (hself : w.slots dst = some self) (hsl : w.slots src = some sl) (hne : sl.rep ≠ self.rep)
    {r : Addr} (hr : self.rep = some r) : ¬w.BroughtRep K move src sl r := by
  rintro (⟨-, hsame | ⟨hk, t, x, hpart, hx, hxr⟩⟩ | ⟨-, hle⟩)
  · exact hne (hsame.trans hr.symm)
  · -- no other slot has the rep
    obtain rfl := hw.linked.unique t dst x self r hx hxr hself hr
    cases hpart with
    | inl heq =>
      subst heq
      obtain rfl := Option.some.inj (hsl.symm.trans hself)
      exact hne rfl
    | inr hstored => exact (hK hk).1 hstored
  · exact absurd (hw.slotRep dst self r hself hr) (Nat.not_lt.mpr hle)

/-! ## The exchange of the reps -/

namespace SlotBase

/-- The new rep of a copy assignment: a clone. -/
def incomingCopy (u : Env V) (dst src : SlotAddr) : M V Addr := do
  let init ← copyInit u.fuel src
  let f ← deref (.fault .nullFunction) fun _ => init.functor
  cloneFor dst f

/-- The new rep of a move assignment: that of the source, or a clone. -/
def incomingMove (u : Env V) (dst src : SlotAddr) : M V Addr := do
  let self ← loadSlot dst
  let from_ ← loadSlot src
  modify (·.setSlot dst (some { self with blocked := from_.blocked }))
  let r ← deref (.fault .deadRep) fun _ => from_.rep
  let rep ← loadRep r
  if rep.parent = none then do
    notifyMove u r
    moveFor dst src
  else incomingCopy u dst src

/-- The old rep is deleted, and the new one takes its place. -/
def exchangeRep (u : Env V) (dst : SlotAddr) (new : Addr) : M V Unit := do
  deleteOld u dst
  let self ← loadIntact dst
  modify fun w => (w.replaceRep dst self (some new)).pop

/-- `blocked_ = src.blocked_`. -/
def copyBlocked (dst src : SlotAddr) : M V Unit := do
  let from_ ← loadSlot src
  let self ← loadSlot dst
  modify (·.setSlot dst (some { self with blocked := from_.blocked }))

/-- The flag of the destination when it is given the new rep. -/
def flagged (move : Bool) (self sl : SlotBase) : SlotBase :=
  { self with blocked := if move then sl.blocked else self.blocked }

/-- Either of the two assignment operators. -/
def assignBy (move : Bool) (u : Env V) (cleanupSelfAndIter : Addr → M V Unit)
    (dst src : SlotAddr) : M V Unit :=
  if move then moveAssign u cleanupSelfAndIter dst src else assign u cleanupSelfAndIter dst src

def incoming (move : Bool) (u : Env V) (dst src : SlotAddr) : M V Addr :=
  if move then incomingMove u dst src else incomingCopy u dst src

theorem empty_calls {s : SlotAddr} {sl : SlotBase} {b : Bool} (hsl : w.slots s = some sl)
    (h : empty s w = (.ret b, w')) : b = !w.calls sl.rep ∧ w = w' := by
  obtain ⟨sl', w₁, hload, h⟩ := bind_eq_ret.mp h
  obtain ⟨hsl', rfl⟩ := deref_eq_ret.mp hload
  obtain rfl := Option.some.inj (hsl.symm.trans hsl')
  obtain ⟨rep, blocked, owner, dying⟩ := sl
  cases rep with
  | none =>
    obtain ⟨rfl, hw⟩ := pure_eq_ret.mp h
    exact ⟨rfl, hw⟩
  | some r =>
    obtain ⟨rep, w₁, hload, h⟩ := bind_eq_ret.mp h
    obtain ⟨hrep, rfl⟩ := deref_eq_ret.mp hload
    obtain ⟨rfl, hw⟩ := pure_eq_ret.mp h
    refine ⟨?_, hw⟩
    show _ = !((some r).bind w.reps).any (·.call)
    simp [hrep]

theorem calls_eq_true {sl : SlotBase} (h : w.calls sl.rep = true) :
    ∃ r rep, sl.rep = some r ∧ w.reps r = some rep ∧ rep.call = true := by
  unfold World.calls at h
  cases hr : sl.rep with
  | none => simp [hr] at h
  | some r =>
    cases hrep : w.reps r with
    | none => simp [hr, hrep] at h
    | some rep => exact ⟨r, rep, rfl, hrep, by simpa [hr, hrep] using h⟩

theorem empty_of_calls {s : SlotAddr} {sl : SlotBase} (hsl : w.slots s = some sl)
    (h : w.calls sl.rep = true) : empty s w = (.ret false, w) := by
  obtain ⟨r, rep, hr, hrep, hcall⟩ := calls_eq_true h
  have hload : loadSlot s w = (.ret sl, w) := deref_of_some hsl
  have hloadRep : loadRep r w = (.ret rep, w) := deref_of_some hrep
  obtain ⟨q, blocked, owner, dying⟩ := sl
  subst hr
  rw [empty, bind_of_ret hload]
  show (loadRep r >>= fun rep => pure (!rep.call)) w = _
  rw [bind_of_ret hloadRep, hcall]
  rfl

variable {u : Env V} {cleanup : Addr → M V Unit}

/-- Copy assignment from a slot that is not empty. -/
theorem assign_of_calls (hself : w.slots dst = some self) (hsl : w.slots src = some sl)
    (hne : sl.rep ≠ self.rep) (hcalls : w.calls sl.rep = true) :
    assign u cleanup dst src w = (incomingCopy u dst src >>= fun new =>
      exchangeRep u dst new >>= fun _ => copyBlocked dst src) w := by
  have hloadSelf : loadSlot dst w = (.ret self, w) := deref_of_some hself
  have hloadSource : loadSlot src w = (.ret sl, w) := deref_of_some hsl
  rw [assign, bind_of_ret hloadSelf, bind_of_ret hloadSource, if_neg hne,
    bind_of_ret (empty_of_calls hsl hcalls), if_neg (by simp), incomingCopy, bind_assoc_run]
  apply bind_congr_right
  intro init w₁ _
  rw [bind_assoc_run]
  apply bind_congr_right
  intro f w₁ _
  apply bind_congr_right
  intro new w₁ _
  rw [exchangeRep, bind_assoc_run]
  apply bind_congr_right
  intro _ w₁ _
  rw [bind_assoc_run]
  rfl

/-- Move assignment from a slot that is not empty. -/
theorem moveAssign_of_calls (hself : w.slots dst = some self) (hsl : w.slots src = some sl)
    (hne : sl.rep ≠ self.rep) (hcalls : w.calls sl.rep = true) :
    moveAssign u cleanup dst src w = (incomingMove u dst src >>= exchangeRep u dst) w := by
  have hloadSelf : loadSlot dst w = (.ret self, w) := deref_of_some hself
  have hloadSource : loadSlot src w = (.ret sl, w) := deref_of_some hsl
  rw [moveAssign, bind_of_ret hloadSelf, bind_of_ret hloadSource, if_neg hne,
    bind_of_ret (empty_of_calls hsl hcalls), if_neg (by simp), incomingMove, bind_assoc_run,
    bind_of_ret hloadSelf, bind_assoc_run, bind_of_ret hloadSource, modify_bind_run, bind_assoc_run,
    modify_bind_run, bind_assoc_run]
  apply bind_congr_right
  intro r w₁ _
  rw [bind_assoc_run]
  rfl

/-- No reps are exchanged: the two slots share a rep, or the source is empty. -/
theorem assignBy_of_same (hself : w.slots dst = some self) (hsl : w.slots src = some sl)
    (hsame : sl.rep = self.rep) : assignBy move u cleanup dst src w =
      (.ret (), w.setSlot dst (some { self with blocked := sl.blocked })) := by
  have hload : loadSlot dst w = (.ret self, w) := deref_of_some hself
  have hloadSource : loadSlot src w = (.ret sl, w) := deref_of_some hsl
  unfold assignBy
  split
  · rw [moveAssign, bind_of_ret hload, bind_of_ret hloadSource, if_pos hsame]
    rfl
  · rw [assign, bind_of_ret hload, bind_of_ret hloadSource, if_pos hsame]
    rfl

theorem assignBy_of_not_calls (hself : w.slots dst = some self) (hsl : w.slots src = some sl)
    (hne : sl.rep ≠ self.rep) (hcalls : w.calls sl.rep = false)
    (h : assignBy move u cleanup dst src w = (.ret (), w')) :
    deleteRepWithCheck u cleanup dst w = (.ret (), w') := by
  have hload : loadSlot dst w = (.ret self, w) := deref_of_some hself
  have hloadSource : loadSlot src w = (.ret sl, w) := deref_of_some hsl
  unfold assignBy at h
  split at h
  · rw [moveAssign, bind_of_ret hload, bind_of_ret hloadSource, if_neg hne] at h
    obtain ⟨b, w₁, hempty, h⟩ := bind_eq_ret.mp h
    obtain ⟨rfl, rfl⟩ := empty_calls hsl hempty
    rwa [if_pos (by simp [hcalls])] at h
  · rw [assign, bind_of_ret hload, bind_of_ret hloadSource, if_neg hne] at h
    obtain ⟨b, w₁, hempty, h⟩ := bind_eq_ret.mp h
    obtain ⟨rfl, rfl⟩ := empty_calls hsl hempty
    rwa [if_pos (by simp [hcalls])] at h

end SlotBase

/-! ## A destination that is emptied -/

namespace SlotBase

theorem deleteRep_spares {u : Env V} (hu : u.Spares P S) {rep : Option Addr}
    (hr : ∀ r, rep = some r → ¬P r) : Within (World.Spares P S) (deleteRep u rep) := by
  cases rep with
  | none => exact within_pure _
  | some r => exact SlotRep.delete_spares hu (hr r rfl)

theorem disconnect_off {u : Env V} {cleanup : Addr → M V Unit} {r : Addr}
    (hu : ∀ d, Within (World.Spares P S) (u.call (.notify d)))
    (hc : ∀ d, Within (World.Spares P S) (cleanup d)) (hlt : r < w.next)
    (h : SlotRep.disconnect u cleanup r w = (.ret (), w')) : w'.Off r := by
  obtain ⟨rep, w₁, hload, h⟩ := bind_eq_ret.mp h
  obtain ⟨hrep, rfl⟩ := deref_eq_ret.mp hload
  obtain ⟨call, cleanup', parent, functor⟩ := rep
  have hoff (f : SlotRep) (hf : f.call = false) : (w.setRep r (some f)).Off r := by
    intro rep hrep
    change Function.update w.reps r (some f) r = some rep at hrep
    rw [Function.update_self] at hrep
    obtain rfl := Option.some.inj hrep
    exact hf
  cases parent with
  | none =>
    obtain rfl := modify_eq_ret.mp h
    exact hoff ⟨false, cleanup', none, functor⟩ rfl
  | some d =>
    have hbefore := hoff ⟨false, cleanup', none, functor⟩ rfl
    cases cleanup' with
    | none => cases h
    | some func =>
      cases func with
      | notifySlotRepInvalidated =>
        change (u.call (.notify d) >>= fun _ => pure ()) _ = _ at h
        exact ((within_bind (hu _) fun _ => within_pure (R := World.Spares P S) ()).of_ret h).off r
          hlt hbefore
      | notifySelfAndIterOfInvalidatedSlot => exact ((hc d).of_ret h).off r hlt hbefore
      | notifyObjectInvalidated => cases h

theorem clearRep_observe {u : Env V} (hu : u.Spares P S) (hS : S dst)
    (hself : w.slots dst = some self) (hbelow : dst.Below w.next)
    (hr : ∀ r, self.rep = some r → ¬P r) (h : clearRep u dst w = (.ret (), w')) :
    w'.slots dst = some { self with rep := none } ∧ w.next ≤ w'.next := by
  obtain ⟨self', w₁, hload, h⟩ := bind_eq_ret.mp h
  obtain ⟨hself', rfl⟩ := deref_eq_ret.mp hload
  obtain rfl := Option.some.inj (hself.symm.trans hself')
  obtain ⟨_, w₁, hdelete, h⟩ := bind_eq_ret.mp h
  have hspares := (deleteRep_spares hu hr).of_ret hdelete
  obtain ⟨self', w₂, hload, h⟩ := bind_eq_ret.mp h
  obtain ⟨⟨hself₁, _⟩, rfl⟩ := loadIntact_eq_ret.mp hload
  rw [hspares.slots dst hS hbelow, hself] at hself₁
  obtain rfl := Option.some.inj hself₁
  obtain rfl := modify_eq_ret.mp h
  exact ⟨Function.update_self .., hspares.next⟩

/-- The destination is emptied, and nothing else is done to it. -/
theorem deleteRepWithCheck_observe {u : Env V} {cleanup : Addr → M V Unit} (hw : WellAddressed w)
    (hu : u.Spares P S) (hc : ∀ d, Within (World.Spares P S) (cleanup d)) (hS : S dst)
    (hself : w.slots dst = some self) (hP : ∀ r, self.rep = some r → ¬P r)
    (h : deleteRepWithCheck u cleanup dst w = (.ret (), w')) :
    w'.observe n dst = some ⟨true, self.blocked, none⟩ := by
  have hbelow := hw.below hself
  obtain ⟨self', w₁, hload, h⟩ := bind_eq_ret.mp h
  obtain ⟨hself', rfl⟩ := deref_eq_ret.mp hload
  obtain rfl := Option.some.inj (hself.symm.trans hself')
  obtain ⟨rep, blocked, owner, dying⟩ := self
  cases rep with
  -- No rep: there is nothing to do.
  | none =>
    obtain ⟨_, rfl⟩ := pure_eq_ret.mp h
    rw [World.observe_of_slot hself]
    rfl
  | some r =>
    have hlt := hw.slotRep _ _ _ hself rfl
    obtain ⟨x, w₁, hx, h⟩ := bind_eq_ret.mp h
    -- The notifier is registered, and then rep_->disconnect() switches the rep off.
    have h₁ := (WeakRawPtr.construct_spares (P := P) (S := S) (some (.rep r)) true).of_ret hx
    rw [modify_bind_run] at h
    obtain ⟨_, w₂, hdisconnect, h⟩ := bind_eq_ret.mp h
    have h₂ := (SlotRep.disconnect_spares (fun d => hu _) hc (hP r rfl)).of_ret hdisconnect
    have hlt₁ : r < w₁.next := Nat.lt_of_lt_of_le hlt h₁.next
    have hoff := disconnect_off (w := w₁.push (.checking dst r x)) (fun d => hu _) hc hlt₁
      hdisconnect
    have hnext := Nat.le_trans h₁.next h₂.next
    have hbelow₂ : dst.Below w₂.next := fun a ha => Nat.lt_of_lt_of_le (hbelow a ha) hnext
    have hself₂ : w₂.slots dst = some ⟨some r, blocked, owner, dying⟩ := by
      rw [h₂.slots dst hS fun a ha => Nat.lt_of_lt_of_le (hbelow a ha) h₁.next]
      exact (h₁.slots dst hS hbelow).trans hself
    obtain ⟨ptr, w₃, hload, h⟩ := bind_eq_ret.mp h
    obtain ⟨_, rfl⟩ := deref_eq_ret.mp hload
    obtain ⟨_, w₃, hclear, h⟩ := bind_eq_ret.mp h
    rw [modify_bind_run] at h
    have h₃ := (WeakRawPtr.destroy_spares (P := P) (S := S) x).of_ret h
    split at hclear
    · -- the rep has been deleted, but the slot has not
      obtain ⟨_, rfl⟩ := pure_eq_ret.mp hclear
      have hself₃ := (h₃.slots dst hS hbelow₂).trans hself₂
      rw [World.observe_of_slot hself₃]
      exact congrArg some
        (Observation.ofCore_off (h₃.off r (Nat.lt_of_lt_of_le hlt hnext) hoff))
    -- The rep is there still: it is deleted, and rep_ set to null.
    · obtain ⟨hself₃, hnext₃⟩ := clearRep_observe hu hS hself₂ hbelow₂ hP hclear
      have hbelow₃ : dst.Below w₃.next := fun a ha => Nat.lt_of_lt_of_le (hbelow₂ a ha) hnext₃
      rw [World.observe_of_slot ((h₃.slots dst hS hbelow₃).trans hself₃)]
      rfl

end SlotBase

/-! ## The new rep -/

namespace SlotBase

theorem notifyMove_spares {u : Env V} (hu : ∀ d, Within (World.Spares P S) (u.call (.notify d)))
    (r : Addr) :
    Within (World.Spares P S) (notifyMove u r) :=
  within_bind (modify_spares (fun _ => rfl) (fun _ => rfl) fun _ => rfl) fun _ =>
    Trackable.notifyCallbacks_spares hu r

theorem passParent_spares (new : Addr) (old : Option Addr) :
    Within (World.Spares P S) (passParent new old : M V Unit) := by
  cases old with
  | none => exact within_pure _
  | some r =>
    refine within_bind (within_deref _ _) fun oldRep => ?_
    apply within_load
    intro w newRep hnew
    exact World.Spares.setRep hnew rfl rfl

/-- The clone is there, and the destination and the source are as before. -/
theorem cloneFor_core {dst : SlotAddr} {f : Functor} {new : Addr}
    (h : cloneFor dst f w = (.ret new, w')) :
    w.Spares P S w' ∧ w'.core new = some (true, some f) ∧ w.next ≤ new ∧ new < w'.next := by
  obtain ⟨new', w₁, hnew, h⟩ := bind_eq_ret.mp h
  have h₁ := (SlotRep.construct_spares (P := P) (S := S) f).of_ret hnew
  obtain ⟨rfl, hnext, -, hcore, -⟩ := SlotRep.construct_core hnew
  have hlt : w.next < w₁.next := hnext ▸ Nat.lt_succ_self _
  obtain ⟨self, w₂, hload, h⟩ := bind_eq_ret.mp h
  obtain ⟨_, rfl⟩ := deref_eq_ret.mp hload
  obtain ⟨_, w₂, hpass, h⟩ := bind_eq_ret.mp h
  rw [modify_bind_run] at h
  obtain ⟨rfl, rfl⟩ := pure_eq_ret.mp h
  have h₂ := (passParent_spares (P := P) (S := S) w.next self.rep).of_ret hpass
  have hall := (passParent_spares (P := fun _ => True) (S := S) w.next self.rep).of_ret hpass
  refine ⟨h₁.trans (h₂.trans (.of_heap rfl rfl (Nat.le_refl _))), ?_, Nat.le_refl _,
    Nat.lt_of_lt_of_le hlt h₂.next⟩
  show w₂.core w.next = _
  rw [hall.cores w.next trivial hlt, hcore]

/-- The rep of the source is taken, and the source wiped. -/
theorem moveFor_core {dst src : SlotAddr} {sl : SlotBase} {new : Addr} (hsrc : ¬S src)
    (hsl : w.slots src = some sl) (h : moveFor dst src w = (.ret new, w')) :
    w.Spares P S w' ∧ sl.rep = some new ∧ (new < w.next → w'.core new = w.core new) ∧
      w'.slots src = some { sl with rep := none, blocked := false } := by
  obtain ⟨sl', w₁, hload, h⟩ := bind_eq_ret.mp h
  obtain ⟨⟨hsl', _⟩, rfl⟩ := loadIntact_eq_ret.mp hload
  obtain rfl := Option.some.inj (hsl.symm.trans hsl')
  obtain ⟨new', w₁, hderef, h⟩ := bind_eq_ret.mp h
  obtain ⟨hrep, rfl⟩ := deref_eq_ret.mp hderef
  rw [modify_bind_run] at h
  obtain ⟨self, w₁, hload, h⟩ := bind_eq_ret.mp h
  obtain ⟨_, rfl⟩ := deref_eq_ret.mp hload
  obtain ⟨_, w₂, hpass, h⟩ := bind_eq_ret.mp h
  rw [modify_bind_run] at h
  obtain ⟨rfl, rfl⟩ := pure_eq_ret.mp h
  have h₂ := (passParent_spares (P := P) (S := S) new' self.rep).of_ret hpass
  have hall := (passParent_spares (P := fun _ => True) (S := S) new' self.rep).of_ret hpass
  refine ⟨?_, hrep, ?_, ?_⟩
  · have h₁ : w.Spares P S (w.setSlot src (some { sl with rep := none, blocked := false })) :=
      World.Spares.setSlot hsrc _
    exact h₁.trans (h₂.trans (.of_heap rfl rfl (Nat.le_refl _)))
  · intro hlt
    exact hall.cores new' trivial hlt
  · have hslots : w₂.slots =
        (w.setSlot src (some { sl with rep := none, blocked := false })).slots := by
      obtain ⟨_, rfl⟩ | ⟨_, _, _, _, _, _, rfl⟩ := passParent_effect hpass
      · rfl
      · rfl
    show w₂.slots src = _
    rw [hslots]
    exact Function.update_self ..

theorem deleteOld_spares {u : Env V} {dst : SlotAddr} {self : SlotBase} (hu : u.Spares P S)
    (hself : w.slots dst = some self) (hr : ∀ r, self.rep = some r → ¬P r)
    (h : deleteOld u dst w = (.ret (), w')) : w.Spares P S w' := by
  obtain ⟨self', w₁, hload, h⟩ := bind_eq_ret.mp h
  obtain ⟨hself', rfl⟩ := deref_eq_ret.mp hload
  obtain rfl := Option.some.inj (hself.symm.trans hself')
  exact (deleteRep_spares hu hr).of_ret h

theorem ne_of_rep_ne (hself : w.slots dst = some self) (hsl : w.slots src = some sl)
    (hne : sl.rep ≠ self.rep) : src ≠ dst := by
  intro heq
  subst heq
  obtain rfl := Option.some.inj (hsl.symm.trans hself)
  exact hne rfl

end SlotBase

theorem World.setBlocked_self (hself : w.slots dst = some self) :
    w.setSlot dst (some (SlotBase.flagged false self sl)) = w := by
  unfold World.setSlot
  rw [show some (SlotBase.flagged false self sl) = w.slots dst from hself.symm,
    Function.update_eq_self]

/-- The new rep is in hand, and the old one is still there. -/
structure World.Brought (w : World V) (K : Prop) (move : Bool) (dst src : SlotAddr)
    (old sl : SlotBase) (new : Addr) (w₂ : World V) : Prop where
  next : w.next ≤ w₂.next
  slot : w₂.slots dst = some (SlotBase.flagged move old sl)
  source : ¬w.Taken move sl → w₂.slots src = some sl
  rep : w.BroughtRep K move src sl new
  lt : new < w₂.next
  /-- it shows what the source has shown -/
  seen : ∀ v, w₂.Spares (w.BroughtRep K move src sl) (w.BroughtSlot K move src sl) v →
    ∀ n, (n = 0 ∨ w.Separate K move dst src old sl) →
      Observation.ofCore (v.glimpse n) sl.blocked (v.core new) =
        .ofCore (w.glimpse n) sl.blocked (sl.rep.bind w.core)

section Brought

variable {u : Env V} {new : Addr} {w₂ : World V}

/-- The flag of the destination is written, and the functor of the source looks the same. -/
theorem World.Separate.flagged (hw : WellAddressed w) (hself : w.slots dst = some self)
    (hsl : w.slots src = some sl) (hcalls : w.calls sl.rep = true)
    (hn : n = 0 ∨ w.Separate K move dst src self sl) (b : Bool) :
    Observation.ofCore ((w.setSlot dst (some (SlotBase.flagged move self sl))).glimpse n) b
        (sl.rep.bind (w.setSlot dst (some (SlotBase.flagged move self sl))).core) =
      .ofCore (w.glimpse n) b (sl.rep.bind w.core) := by
  by_cases hstored : w.StoredIn src dst
  · refine hw.seen_of_spares (K := w.Separate K move dst src self sl) hsl ?_ (fun _ => hn) b
    by_cases hsep : w.Separate K move dst src self sl
    · have hsame : SlotBase.flagged move self sl = self := by
        unfold SlotBase.flagged
        cases move with
        | false => rfl
        | true => rw [if_pos rfl, ← (hsep hcalls).2 rfl hstored]
      rw [hsame, World.setSlot, ← hself, Function.update_eq_self]
      exact .refl w
    · exact .setSlot (fun h => hsep h.1) _
  · exact hw.seen_of_spares (K := True) hsl (.setSlot (fun h => hstored h.2) _)
      (fun _ => .inr trivial) b

/-- A clone. -/
theorem SlotBase.incomingCopy_brought (hw : WellAddressed w) (htaken : ¬w.Taken move sl)
    (hself : w.slots dst = some self) (hsl : w.slots src = some sl) (hne : src ≠ dst)
    (hcalls : w.calls sl.rep = true)
    (h : incomingCopy u dst src (w.setSlot dst (some (flagged move self sl))) = (.ret new, w₂)) :
    w.Brought K move dst src self sl new w₂ := by
  have hsl₀ : (w.setSlot dst (some (flagged move self sl))).slots src = some sl :=
    (Function.update_of_ne hne _ _).trans hsl
  have hw₀ : (w.setSlot dst (some (flagged move self sl))).Since 0 :=
    hw.since_zero.setBlocked hself _
  obtain ⟨init, w₁, hinit, h⟩ := bind_eq_ret.mp h
  obtain ⟨f, w₁', hderef, hclone⟩ := bind_eq_ret.mp h
  obtain ⟨hf, rfl⟩ := deref_eq_ret.mp hderef
  have h₁ := (copyInit_spares (P := fun _ => True) (S := fun _ => True) u.fuel src).of_ret hinit
  obtain ⟨h₂, hcore, hfresh, hlt⟩ := cloneFor_core (P := fun _ => True) (S := fun _ => True) hclone
  have h₁₂ := h₁.trans h₂
  have hnew : w.next ≤ new := Nat.le_trans h₁.next hfresh
  refine ⟨h₁₂.next, (h₁₂.slots dst trivial (hw.below hself)).trans (Function.update_self _ _ _),
    fun _ => (h₁₂.slots src trivial (hw.below hsl)).trans hsl₀, .inr ⟨htaken, hnew⟩, hlt,
    fun v hv n hn => ?_⟩
  have hmade := (h₂.mono (fun _ _ => trivial) fun _ _ => trivial).trans
    (hv.mono (fun q hq => .inr ⟨htaken, hq⟩) fun t ht => .inr ⟨htaken, ht⟩)
  rw [hv.cores new (.inr ⟨htaken, hnew⟩) hlt, hcore,
    copyInit_seen (n := u.fuel) hw₀ hsl₀ hcalls hinit hf hmade n]
  exact World.Separate.flagged hw hself hsl hcalls hn sl.blocked

/-- The rep of the source itself. -/
theorem SlotBase.moveFor_brought {r : Addr} {w₁ : World V} (hw : WellAddressed w)
    (hK : K → w.Apart dst src) (htaken : w.Taken true sl)
    (hu : ∀ d, Within (World.Spares (w.BroughtRep K true src sl)
      fun t => t = dst ∨ t = src ∨ w.BroughtSlot K true src sl t) (u.call (.notify d)))
    (hself : w.slots dst = some self) (hsl : w.slots src = some sl) (hne : src ≠ dst)
    (hr : sl.rep = some r)
    (hnotify : notifyMove u r (w.setSlot dst (some (flagged true self sl))) = (.ret (), w₁))
    (h : moveFor dst src w₁ = (.ret new, w₂)) :
    w.Brought K true dst src self sl new w₂ := by
  have h₁ := (notifyMove_spares hu r).of_ret hnotify
  have hsl₁ : w₁.slots src = some sl := (h₁.slots src (.inr (.inl rfl)) (hw.below hsl)).trans
    ((Function.update_of_ne hne _ _).trans hsl)
  have hself₁ := (h₁.slots dst (.inl rfl) (hw.below hself)).trans (Function.update_self _ _ _)
  obtain ⟨h₂, hrep₂, -, -⟩ := moveFor_core (P := fun _ => True) (S := fun t => t ≠ src)
    (fun h => h rfl) hsl₁ h
  obtain rfl := Option.some.inj (hr.symm.trans hrep₂)
  have hlt : r < w₁.next := Nat.lt_of_lt_of_le (hw.slotRep src sl r hsl hr) h₁.next
  have hbelow : dst.Below w₁.next := fun a ha => Nat.lt_of_lt_of_le (hw.below hself a ha) h₁.next
  -- from the beginning on
  have hkept : w.Spares (fun q => sl.rep = some q ∨ K ∧ w.RepIn src q)
      (fun t => K ∧ w.StoredIn src t) w₂ := by
    have h₀ : w.Spares (fun q => sl.rep = some q ∨ K ∧ w.RepIn src q)
        (fun t => K ∧ w.StoredIn src t) (w.setSlot dst (some (flagged true self sl))) :=
      .setSlot (fun h => (hK h.1).1 h.2) _
    refine (h₀.trans (h₁.mono (fun q hq => .inl ⟨htaken, hq⟩)
      fun t ht => .inr (.inr (.inl ⟨htaken, ht⟩)))).trans (h₂.mono (fun _ _ => trivial) ?_)
    rintro t ⟨hk, hstored⟩ rfl
    exact (hK hk).2 hstored
  refine ⟨Nat.le_trans h₁.next h₂.next, (h₂.slots dst hne.symm hbelow).trans hself₁,
    fun h => absurd htaken h, .inl ⟨htaken, .inl hr⟩, Nat.lt_of_lt_of_le hlt h₂.next,
    fun v hv n hn => ?_⟩
  have hall := hkept.trans
    (hv.mono (fun q hq => .inl ⟨htaken, hq⟩) fun t ht => .inl ⟨htaken, ht⟩)
  have hseen := hw.seen_of_spares hsl hall (fun hcalls => hn.imp_right fun h => (h hcalls).1 htaken)
    sl.blocked
  rwa [show sl.rep.bind v.core = v.core r by rw [hr]; rfl] at hseen

theorem World.taken_of_parent {r : Addr} {rep : SlotRep} (hr : sl.rep = some r)
    (hrep : w.reps r = some rep) (hparent : rep.parent = none) : w.Taken true sl := by
  refine ⟨rfl, fun q rep' hq hrep' => ?_⟩
  obtain rfl := Option.some.inj (hr.symm.trans hq)
  obtain rfl := Option.some.inj (hrep.symm.trans hrep')
  exact hparent

/-- A move assignment writes the flag first. -/
theorem SlotBase.incomingMove_eq_ret (hself : w.slots dst = some self) (hsl : w.slots src = some sl)
    (h : incomingMove u dst src w = (.ret new, w₂)) :
    ∃ r rep, sl.rep = some r ∧ w.reps r = some rep ∧
      (if rep.parent = none then do
          notifyMove u r
          moveFor dst src
        else incomingCopy u dst src) (w.setSlot dst (some (flagged true self sl))) =
          (.ret new, w₂) := by
  obtain ⟨self', w₁, hload, h⟩ := bind_eq_ret.mp h
  obtain ⟨hself', rfl⟩ := deref_eq_ret.mp hload
  obtain rfl := Option.some.inj (hself.symm.trans hself')
  obtain ⟨sl', w₁, hload, h⟩ := bind_eq_ret.mp h
  obtain ⟨hsl', rfl⟩ := deref_eq_ret.mp hload
  obtain rfl := Option.some.inj (hsl.symm.trans hsl')
  rw [modify_bind_run] at h
  obtain ⟨r, w₁, hderef, h⟩ := bind_eq_ret.mp h
  obtain ⟨hr, rfl⟩ := deref_eq_ret.mp hderef
  obtain ⟨rep, w₁, hload, h⟩ := bind_eq_ret.mp h
  obtain ⟨hrep, rfl⟩ := deref_eq_ret.mp hload
  exact ⟨r, rep, hr, hrep, h⟩

/-- The new rep of either assignment. -/
theorem SlotBase.incoming_brought (hw : WellAddressed w) (hK : K → w.Apart dst src)
    (hu : ∀ d, Within (World.Spares (w.BroughtRep K move src sl)
      fun t => t = dst ∨ t = src ∨ w.BroughtSlot K move src sl t) (u.call (.notify d)))
    (hself : w.slots dst = some self) (hsl : w.slots src = some sl) (hne : src ≠ dst)
    (hcalls : w.calls sl.rep = true) (h : incoming move u dst src w = (.ret new, w₂)) :
    w.Brought K move dst src self sl new w₂ := by
  cases move with
  | false =>
    refine incomingCopy_brought (u := u) hw World.not_taken_false hself hsl hne hcalls ?_
    rw [World.setBlocked_self hself]
    exact h
  | true =>
    obtain ⟨r, rep, hr, hrep, hnew⟩ := incomingMove_eq_ret hself hsl h
    split at hnew
    · rename_i hparent
      obtain ⟨_, w₁, hnotify, hmove⟩ := bind_eq_ret.mp hnew
      exact moveFor_brought hw hK (World.taken_of_parent hr hrep hparent) hu hself hsl hne hr hnotify
        hmove
    · rename_i hparent
      exact incomingCopy_brought hw (fun h => hparent (h.2 r rep hr hrep)) hself hsl hne hcalls hnew

end Brought

/-! ## Assignment -/

namespace SlotBase

variable {u : Env V} {cleanup : Addr → M V Unit} {new : Addr} {w₂ w₃ : World V}

/-- The old rep is deleted, and nothing that is in `P` or `S` is touched but the destination. -/
theorem exchangeRep_spares (hu : u.Spares P S) (hS : S dst) (hself : w.slots dst = some self)
    (hbelow : dst.Below w.next) (hP : ∀ r, self.rep = some r → ¬P r)
    (h : exchangeRep u dst new w = (.ret (), w')) :
    w'.slots dst = some { self with rep := some new } ∧ w.Spares P (fun t => S t ∧ t ≠ dst) w' := by
  obtain ⟨_, w₁, hdelete, h⟩ := bind_eq_ret.mp h
  have h₁ := deleteOld_spares hu hself hP hdelete
  obtain ⟨self', w₂, hload, h⟩ := bind_eq_ret.mp h
  obtain ⟨⟨hself', _⟩, rfl⟩ := loadIntact_eq_ret.mp hload
  rw [h₁.slots dst hS hbelow, hself] at hself'
  obtain rfl := Option.some.inj hself'
  obtain rfl := modify_eq_ret.mp h
  refine ⟨Function.update_self _ _ _, ?_⟩
  have h₂ : w₁.Spares P (fun t => S t ∧ t ≠ dst)
      (w₁.setSlot dst (some { self with rep := some new })) := .setSlot (fun h => h.2 rfl) _
  exact ((h₁.mono (fun _ => id) fun _ h => h.1).trans h₂).trans (.of_heap rfl rfl (Nat.le_refl _))

/-- The assignment after the exchange: copy assignment still has to copy the flag. -/
theorem assignBy_eq_ret (hself : w.slots dst = some self) (hsl : w.slots src = some sl)
    (hne : sl.rep ≠ self.rep) (hcalls : w.calls sl.rep = true)
    (h : assignBy move u cleanup dst src w = (.ret (), w')) :
    ∃ new w₂ w₃, incoming move u dst src w = (.ret new, w₂) ∧
      exchangeRep u dst new w₂ = (.ret (), w₃) ∧
      (if move then (.ret (), w₃) else copyBlocked dst src w₃) = (.ret (), w') := by
  cases move with
  | false =>
    have hassign : assign u cleanup dst src w = (.ret (), w') := h
    rw [assign_of_calls hself hsl hne hcalls] at hassign
    obtain ⟨new, w₂, hnew, hassign⟩ := bind_eq_ret.mp hassign
    obtain ⟨_, w₃, hexchange, hcopy⟩ := bind_eq_ret.mp hassign
    exact ⟨new, w₂, w₃, hnew, hexchange, hcopy⟩
  | true =>
    have hassign : moveAssign u cleanup dst src w = (.ret (), w') := h
    rw [moveAssign_of_calls hself hsl hne hcalls] at hassign
    obtain ⟨new, w₂, hnew, hexchange⟩ := bind_eq_ret.mp hassign
    exact ⟨new, w₂, w', hnew, hexchange, rfl⟩

/-- Slots that share a rep are the same slot. -/
theorem observe_of_same (hw : Sound w) (hself : w.slots dst = some self)
    (hsl : w.slots src = some sl) (hsame : sl.rep = self.rep) :
    (w.setSlot dst (some { self with blocked := sl.blocked })).observe n dst =
      some (.ofCore (w.glimpse n) sl.blocked (sl.rep.bind w.core)) := by
  cases hr : sl.rep with
  | none =>
    rw [World.observe_of_slot (Function.update_self _ _ _), ← hsame, hr]
    rfl
  | some r =>
    obtain rfl := hw.linked.unique _ _ _ _ _ hsl hr hself (hsame ▸ hr)
    obtain rfl := Option.some.inj (hsl.symm.trans hself)
    rw [World.setSlot, ← hself, Function.update_eq_self, World.observe_of_slot hself, hr]

/-- What the destination is seen to have after an assignment: the functor of the source, and one of
the two flags. -/
theorem assignBy_observe (hw : Sound w) (hK : K → w.Apart dst src)
    (hu : u.Spares (w.BroughtRep K move src sl)
      fun t => t = dst ∨ t = src ∨ w.BroughtSlot K move src sl t)
    (hc : ∀ d, Within (World.Spares (w.BroughtRep K move src sl)
      fun t => t = dst ∨ t = src ∨ w.BroughtSlot K move src sl t) (cleanup d))
    (hself : w.slots dst = some self) (hsl : w.slots src = some sl)
    (h : assignBy move u cleanup dst src w = (.ret (), w'))
    (hn : n = 0 ∨ w.Separate K move dst src self sl) :
    w'.observe n dst = some (.ofCore (w.glimpse n) (w.assignedFlag self sl) (sl.rep.bind w.core)) := by
  by_cases hsame : sl.rep = self.rep
  · rw [assignBy_of_same hself hsl hsame] at h
    obtain rfl := (Prod.mk.inj h).2
    rw [World.assignedFlag, if_pos (.inl hsame)]
    exact observe_of_same hw hself hsl hsame
  · have hP (r : Addr) (hr : self.rep = some r) : ¬w.BroughtRep K move src sl r :=
      not_broughtRep hw hK hself hsl hsame hr
    cases hcalls : w.calls sl.rep with
    | false =>
      rw [deleteRepWithCheck_observe hw.toWellAddressed hu hc (.inl rfl) hself hP
          (assignBy_of_not_calls hself hsl hsame hcalls h),
        Observation.ofCore_of_not_calls hcalls, World.assignedFlag, if_neg (by simp [hsame, hcalls])]
    | true =>
      have hne := ne_of_rep_ne hself hsl hsame
      obtain ⟨new, w₂, w₃, hnew, hexchange, h⟩ := assignBy_eq_ret hself hsl hsame hcalls h
      have hbrought := incoming_brought hw.toWellAddressed hK (fun d => hu _) hself hsl hne hcalls
        hnew
      have hbelow : dst.Below w₂.next := fun a ha =>
        Nat.lt_of_lt_of_le (hw.below hself a ha) hbrought.next
      obtain ⟨hself₃, h₃⟩ := exchangeRep_spares hu (.inl rfl) hbrought.slot hbelow hP hexchange
      have hout : ¬w.BroughtSlot K move src sl dst := not_broughtSlot hw.toWellAddressed hK hself
      have hkept : w₂.Spares (w.BroughtRep K move src sl) (w.BroughtSlot K move src sl) w₃ :=
        h₃.mono (fun _ => id) fun t ht => ⟨.inr (.inr ht), fun heq => hout (heq ▸ ht)⟩
      have hflag : w.assignedFlag self sl = sl.blocked := if_pos (.inr hcalls)
      -- the flag has been set, or is set now
      have hend : w₃.Spares (w.BroughtRep K move src sl) (w.BroughtSlot K move src sl) w' ∧
          w'.slots dst = some { self with rep := some new, blocked := sl.blocked } := by
        cases move with
        | true =>
          obtain rfl := (Prod.mk.inj h).2
          exact ⟨.refl _, hself₃⟩
        | false =>
          change copyBlocked dst src w₃ = _ at h
          obtain ⟨sl₄, w₄, hload, h⟩ := bind_eq_ret.mp h
          obtain ⟨hsl₄, rfl⟩ := deref_eq_ret.mp hload
          obtain ⟨self₄, w₄, hload, h⟩ := bind_eq_ret.mp h
          obtain ⟨hself₄, rfl⟩ := deref_eq_ret.mp hload
          obtain rfl := modify_eq_ret.mp h
          have hbelowSource : src.Below w₂.next := fun a ha =>
            Nat.lt_of_lt_of_le (hw.below hsl a ha) hbrought.next
          rw [h₃.slots src ⟨.inr (.inl rfl), hne⟩ hbelowSource,
            hbrought.source World.not_taken_false] at hsl₄
          obtain rfl := Option.some.inj hsl₄
          obtain rfl := Option.some.inj (hself₃.symm.trans hself₄)
          exact ⟨.setSlot hout _, Function.update_self _ _ _⟩
      rw [World.observe_of_slot hend.2, hflag]
      exact congrArg some (hbrought.seen w' (hkept.trans hend.1) n hn)

end SlotBase

end Sigc
