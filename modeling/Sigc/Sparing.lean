import Sigc.Framing
import Sigc.Straight

/-!
# What an operation on a slot leaves alone

The functions of the slots, seen from some of the slots and some of the reps: those slots are as they
were, and so is what those reps hold and whether they can be called.
-/

namespace Sigc

open Reasoning Prog

variable {V : Type}

namespace World

/-- What can be told of a rep by whoever calls it: whether `call_` is set, and its functor. -/
def core (w : World V) (q : Addr) : Option (Bool × Option Functor) :=
  (w.reps q).map fun rep => (rep.call, rep.functor)

/-- `call_` is null, or the rep has been destroyed. -/
def Off (w : World V) (q : Addr) : Prop := ∀ rep, w.reps q = some rep → rep.call = false

end World

def SlotAddr.Below (s : SlotAddr) (n : Addr) : Prop := ∀ a, s = .object a → a < n

/-- The slots in `S` are as they were, and so are the reps in `P`.  None has been armed again. -/
structure World.Spares (P : Addr → Prop) (S : SlotAddr → Prop) (w w' : World V) : Prop where
  next : w.next ≤ w'.next
  slots : ∀ s, S s → s.Below w.next → w'.slots s = w.slots s
  cores : ∀ q, P q → q < w.next → w'.core q = w.core q
  off : ∀ q, q < w.next → w.Off q → w'.Off q

namespace World.Spares

variable {P P' : Addr → Prop} {S S' : SlotAddr → Prop} {w v w' : World V}

theorem refl (w : World V) : w.Spares P S w := ⟨Nat.le_refl _, fun _ _ _ => rfl, fun _ _ _ => rfl,
  fun _ _ h => h⟩

theorem trans (h : w.Spares P S v) (h' : v.Spares P S w') : w.Spares P S w' where
  next := Nat.le_trans h.next h'.next
  slots s hs hb := by
    have hbelow : s.Below v.next := fun a ha => Nat.lt_of_lt_of_le (hb a ha) h.next
    rw [h'.slots s hs hbelow, h.slots s hs hb]
  cores q hq hlt := by
    rw [h'.cores q hq (Nat.lt_of_lt_of_le hlt h.next), h.cores q hq hlt]
  off q hlt hoff := h'.off q (Nat.lt_of_lt_of_le hlt h.next) (h.off q hlt hoff)

theorem mono (h : w.Spares P S w') (hP : ∀ q, P' q → P q) (hS : ∀ s, S' s → S s) :
    w.Spares P' S' w' where
  next := h.next
  slots s hs hb := h.slots s (hS s hs) hb
  cores q hq hlt := h.cores q (hP q hq) hlt
  off := h.off

/-- Neither slots nor reps have changed. -/
theorem of_heap (slots : w'.slots = w.slots) (reps : w'.reps = w.reps) (next : w.next ≤ w'.next) :
    w.Spares P S w' where
  next := next
  slots s _ _ := by rw [slots]
  cores q _ _ := by rw [core, core, reps]
  off q _ h := by
    intro rep hrep
    rw [reps] at hrep
    exact h rep hrep

/-- A rep that is changed keeps its functor, and `call_`. -/
theorem setRep {q : Addr} {rep rep' : SlotRep} (hrep : w.reps q = some rep)
    (hcall : rep'.call = rep.call) (hfunctor : rep'.functor = rep.functor) :
    w.Spares P S (w.setRep q (some rep')) where
  next := Nat.le_refl _
  slots _ _ _ := rfl
  cores x _ _ := by
    unfold core World.setRep
    -- The rep itself has the same functor and the same call_; the others are untouched.
    by_cases hx : x = q
    · subst hx
      simp [hrep, hcall, hfunctor]
    · simp [Function.update_of_ne hx]
  off x _ hoff := by
    intro r hr
    by_cases hx : x = q
    · subst hx
      change Function.update w.reps x (some rep') x = some r at hr
      rw [Function.update_self] at hr
      obtain rfl := Option.some.inj hr
      exact hcall.trans (hoff rep hrep)
    · exact hoff r ((Function.update_of_ne hx _ _).symm.trans hr)

/-- A rep that is not in `P` may be changed, but is not armed, and may be destroyed. -/
theorem setOther {q : Addr} (hq : ¬P q) {x : Option SlotRep}
    (harm : ∀ rep', x = some rep' → rep'.call = true →
      ∃ rep, w.reps q = some rep ∧ rep.call = true) :
    w.Spares P S (w.setRep q x) where
  next := Nat.le_refl _
  slots _ _ _ := rfl
  cores y hy _ := by
    have hne : y ≠ q := fun heq => hq (heq ▸ hy)
    unfold core World.setRep
    simp [Function.update_of_ne hne]
  off y _ hoff := by
    intro r hr
    by_cases hy : y = q
    · subst hy
      have hx : x = some r := by
        change Function.update w.reps y x y = some r at hr
        rwa [Function.update_self] at hr
      cases hcall : r.call with
      | false => rfl
      | true =>
        -- It would have been armed before, which is excluded.
        obtain ⟨rep, hrep, hrcall⟩ := harm r hx hcall
        rw [hoff rep hrep] at hrcall
        cases hrcall
    · exact hoff r ((Function.update_of_ne hy _ _).symm.trans hr)

/-- A rep is placed at a fresh address. -/
theorem newRep (x : Option SlotRep) :
    w.Spares P S ({ w with next := w.next + 1 }.setRep w.next x) where
  next := Nat.le_succ _
  slots _ _ _ := rfl
  cores y _ hlt := by
    unfold core World.setRep
    simp [Function.update_of_ne (Nat.ne_of_lt hlt)]
  off y hlt hoff := by
    intro r hr
    exact hoff r ((Function.update_of_ne (Nat.ne_of_lt hlt) _ _).symm.trans hr)

/-- A slot is placed at a fresh address. -/
theorem newSlot (x : Option SlotBase) :
    w.Spares P S ({ w with next := w.next + 1 }.setSlot (.object w.next) x) where
  next := Nat.le_succ _
  slots s _ hb := by
    apply Function.update_of_ne
    intro heq
    exact absurd (hb w.next heq) (Nat.lt_irrefl _)
  cores _ _ _ := rfl
  off _ _ h := h

/-- A slot that is not in `S` may be changed. -/
theorem setSlot {s : SlotAddr} (hs : ¬S s) (x : Option SlotBase) :
    w.Spares P S (w.setSlot s x) where
  next := Nat.le_refl _
  slots y hy _ := by
    have hne : y ≠ s := fun heq => hs (heq ▸ hy)
    exact Function.update_of_ne hne _ _
  cores _ _ _ := rfl
  off _ _ h := h

end World.Spares

variable {P : Addr → Prop} {S : SlotAddr → Prop}

instance : Std.Refl (World.Spares (V := V) P S) := ⟨World.Spares.refl⟩

instance : IsTrans (World V) (World.Spares P S) := ⟨fun _ _ _ h h' => h.trans h'⟩

/-- Whatever other code is called, it leaves these slots and these reps alone. -/
def Env.Spares (P : Addr → Prop) (S : SlotAddr → Prop) (u : Env V) : Prop :=
  ∀ c, Within (World.Spares P S) (u.call c)

theorem modify_spares {f : World V → World V} (hslots : ∀ w, (f w).slots = w.slots)
    (hreps : ∀ w, (f w).reps = w.reps) (hnext : ∀ w, (f w).next = w.next) :
    Within (World.Spares P S) (modify f : M V Unit) :=
  within_modify fun w => .of_heap (hslots w) (hreps w) (Nat.le_of_eq (hnext w).symm)

theorem alloc_spares : Within (World.Spares P S) (alloc : M V Addr) :=
  within_bind (within_read _) fun _ =>
    within_bind (within_modify fun _ => .of_heap rfl rfl (Nat.le_succ _)) fun _ => within_pure _

/-! ## Callbacks -/

namespace Trackable

theorem addDestroyNotifyCallback_spares (t data : Addr) (func : DestroyNotify) :
    Within (World.Spares P S) (addDestroyNotifyCallback t data func : M V Unit) :=
  within_bind (within_deref _ _) fun _ =>
    modify_spares (fun _ => rfl) (fun _ => rfl) fun _ => rfl

theorem removeDestroyNotifyCallback_spares (t data : Addr) :
    Within (World.Spares P S) (removeDestroyNotifyCallback t data : M V Unit) :=
  within_bind (within_deref _ _) fun _ =>
    modify_spares (fun _ => rfl) (fun _ => rfl) fun _ => rfl

theorem notifyObjectInvalidated_spares (c : Addr) :
    Within (World.Spares P S) (notifyObjectInvalidated c : M V Unit) :=
  within_bind (within_deref _ _) fun _ =>
    modify_spares (fun _ => rfl) (fun _ => rfl) fun _ => rfl

variable {u : Env V}

theorem runCallback_spares (hu : ∀ d, Within (World.Spares P S) (u.call (.notify d)))
    (cb : TrackableCallback) : Within (World.Spares P S) (runCallback u cb) := by
  unfold runCallback
  cases cb.func with
  | none => exact within_pure _
  | some func =>
    cases func with
    | notifySlotRepInvalidated => exact within_bind (hu _) fun _ => within_pure _
    | notifySelfAndIterOfInvalidatedSlot => exact within_halt _
    | notifyObjectInvalidated => exact notifyObjectInvalidated_spares _

theorem notifyCallbacks_spares (hu : ∀ d, Within (World.Spares P S) (u.call (.notify d))) (t : Addr) :
    Within (World.Spares P S) (notifyCallbacks u t) :=
  notifyCallbacks_within (fun w _ cb _ _ => runCallback_spares hu cb w)
    (fun _ _ => .of_heap rfl rfl (Nat.le_refl _)) (fun _ _ => .of_heap rfl rfl (Nat.le_refl _))
    (fun _ _ _ _ _ _ => .of_heap rfl rfl (Nat.le_refl _))
    fun _ _ _ _ => .of_heap rfl rfl (Nat.le_refl _)

end Trackable

/-! ## Weak pointers and visitors -/

namespace WeakRawPtr

theorem register_spares (c : Addr) (p : WeakTarget) :
    Within (World.Spares P S) (register c p : M V Unit) := by
  cases p with
  | rep r => exact Trackable.addDestroyNotifyCallback_spares r c _
  | slot s =>
    refine within_bind (within_deref _ _) fun sl => ?_
    cases sl.rep with
    | none => exact within_pure _
    | some r => exact Trackable.addDestroyNotifyCallback_spares r c _

theorem unregister_spares (c : Addr) (p : WeakTarget) :
    Within (World.Spares P S) (unregister c p : M V Unit) := by
  cases p with
  | rep r => exact Trackable.removeDestroyNotifyCallback_spares r c
  | slot s =>
    refine within_bind (within_deref _ _) fun sl => ?_
    cases sl.rep with
    | none => exact within_pure _
    | some r => exact Trackable.removeDestroyNotifyCallback_spares r c

theorem construct_spares (ptr : Option WeakTarget) (notifier : Bool) :
    Within (World.Spares P S) (construct ptr notifier : M V Addr) := by
  refine within_bind alloc_spares fun c =>
    within_bind (modify_spares (fun _ => rfl) (fun _ => rfl) fun _ => rfl) fun _ =>
      within_bind ?_ fun _ => within_pure _
  cases ptr with
  | none => exact within_pure _
  | some p => exact register_spares c p

theorem destroy_spares (c : Addr) : Within (World.Spares P S) (destroy c : M V Unit) := by
  refine within_bind (within_deref _ _) fun self => within_bind ?_ fun _ =>
    modify_spares (fun _ => rfl) (fun _ => rfl) fun _ => rfl
  cases self.ptr with
  | none => exact within_pure _
  | some p => exact unregister_spares c p

end WeakRawPtr

theorem slotDoBind_spares (r : Addr) (t : Target) :
    Within (World.Spares P S) (slotDoBind r t : M V Unit) := by
  cases t with
  | trackable t => exact Trackable.addDestroyNotifyCallback_spares t r _
  | slot s =>
    refine within_bind (within_deref _ _) fun sl => ?_
    cases sl.rep with
    | none => exact within_pure _
    | some q =>
      apply within_load
      intro w rep hrep
      split
      · exact World.Spares.setRep hrep rfl rfl
      · exact World.Spares.refl w

theorem slotDoUnbind_spares (r : Addr) (t : Target) :
    Within (World.Spares P S) (slotDoUnbind r t : M V Unit) := by
  cases t with
  | trackable t => exact Trackable.removeDestroyNotifyCallback_spares t r
  | slot s =>
    refine within_bind (within_deref _ _) fun sl => ?_
    cases sl.rep with
    | none => exact within_pure _
    | some q =>
      apply within_load
      intro w rep hrep
      split
      · exact World.Spares.setRep hrep rfl rfl
      · exact World.Spares.refl w

/-! ## Reps -/

namespace SlotRep

variable {u : Env V} {r : Addr}

theorem construct_spares (f : Functor) :
    Within (World.Spares P S) (construct f : M V Addr) := by
  intro w
  have hnew : w.Spares P S (({ w with next := w.next + 1 }.setRep w.next
      (some { call := true, functor := some f })).setTrackable w.next (some {})) :=
    (World.Spares.newRep _).trans (.of_heap rfl rfl (Nat.le_refl _))
  exact hnew.trans (within_bind (visitEach_within (slotDoBind_spares w.next) f)
    (fun _ => within_pure (R := World.Spares P S) w.next) _)

theorem setOff_spares {w : World V} (hr : ¬P r) {rep : SlotRep} (hrep : rep.call = false) :
    w.Spares P S (w.setRep r (some rep)) := by
  apply World.Spares.setOther hr
  intro rep' hrep' hcall
  obtain rfl := Option.some.inj hrep'
  rw [hrep] at hcall
  cases hcall

/-- Only the rep itself is changed. -/
theorem detachFunctor_spares (hr : ¬P r) :
    Within (World.Spares P S) (detachFunctor r : M V (Option Functor)) := by
  apply within_load
  intro w self hself
  obtain ⟨call, cleanup, parent, functor⟩ := self
  cases functor with
  | none => exact setOff_spares hr rfl
  | some f =>
    have hoff : w.Spares P S (w.setRep r (some ⟨false, cleanup, parent, some f⟩)) :=
      setOff_spares hr rfl
    -- call_ is cleared first; then the functor's targets are unbound, and only then is it taken
    -- away.
    refine hoff.trans (within_bind (visitEach_within (slotDoUnbind_spares r) f) (fun _ => ?_) _)
    apply within_load
    intro w' self' hself'
    apply World.Spares.setOther hr
    intro rep' hrep' hcall
    obtain rfl := Option.some.inj hrep'
    exact ⟨self', hself', hcall⟩

theorem destroy_spares (hu : u.Spares P S) (hr : ¬P r) :
    Within (World.Spares P S) (destroy u r) := by
  refine within_bind (detachFunctor_spares hr) fun fo => ?_
  cases fo with
  | none => exact within_pure _
  | some f => exact within_bind (hu _) fun _ => within_pure _

theorem delete_spares (hu : u.Spares P S) (hr : ¬P r) :
    Within (World.Spares P S) (SlotRep.delete u r) := by
  refine within_bind (within_deref _ _) fun _ => within_bind (within_deref _ _) fun base => ?_
  apply within_ite
  · exact within_halt _
  -- destroy(), and then the callbacks of the base, by the destructor of trackable.
  · refine within_bind (modify_spares (fun _ => rfl) (fun _ => rfl) fun _ => rfl) fun _ =>
      within_bind (destroy_spares hu hr) fun _ =>
        within_bind (Trackable.notifyCallbacks_spares (fun d => hu _) r)
          fun _ => within_modify fun w => ?_
    exact (World.Spares.setOther hr (by simp)).trans (.of_heap rfl rfl (Nat.le_refl _))

theorem disconnect_spares {cleanup : Addr → M V Unit}
    (hu : ∀ d, Within (World.Spares P S) (u.call (.notify d)))
    (hc : ∀ d, Within (World.Spares P S) (cleanup d)) (hr : ¬P r) :
    Within (World.Spares P S) (disconnect u cleanup r) := by
  apply within_load
  intro w self hself
  obtain ⟨call, cleanup, parent, functor⟩ := self
  have hoff (rep : SlotRep) (hrep : rep.call = false) :
      w.Spares P S ((w.setRep r (some rep)).record (.disconnected r)) :=
    (setOff_spares hr hrep).trans (.of_heap rfl rfl (Nat.le_refl _))
  cases parent with
  | none => exact hoff ⟨false, cleanup, none, functor⟩ rfl
  -- The parent is told once: parent_ is null by then.
  | some d =>
    refine (hoff ⟨false, cleanup, none, functor⟩ rfl).trans ?_
    cases cleanup with
    | none => exact within_halt (R := World.Spares P S) _ _
    | some func =>
      cases func with
      | notifySlotRepInvalidated => exact within_bind (hu _) (fun _ => within_pure _) _
      | notifySelfAndIterOfInvalidatedSlot => exact hc d _
      | notifyObjectInvalidated => exact within_halt (R := World.Spares P S) _ _

end SlotRep

end Sigc
