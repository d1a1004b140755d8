import Sigc.ClientRuns
import Sigc.RegistrationSteps

/-!
# Slots depend on what their functors refer to

A rep is registered with a trackable as often as `visit_each` reaches it in its functor.  The
exceptions are two: a dependency that is added while the trackable runs through its callbacks is
ignored, and a rep whose slot is moved in the middle of its invalidation keeps a functor that is
not registered any more.
-/

namespace Sigc

open Reasoning Prog

variable {V : Type} {w w' : World V} {t r : Addr}

/-- The number of active callbacks of `t` for `data`. -/
def World.active (w : World V) (t data : Addr) : Nat :=
  (callbacksOf w.trackables t).callbacks.countP fun cb => cb.data = data && cb.func.isSome

/-- `r` is a rep that is alive and holds a functor. -/
def World.HoldsFunctor (w : World V) (r : Addr) : Prop :=
  ∃ rep f, w.reps r = some rep ∧ rep.functor = some f

namespace World.Registered

theorem active_eq_bindings (hr : w.Registered) (hf : w.HoldsFunctor r) :
    w.active t r = bindings w.trackables t r := by
  obtain ⟨rep, f, hrep, hf⟩ := hf
  have hfns : functorsOf w.reps r = some (some f) := by simp [functorsOf, hrep, hf]
  unfold active bindings
  rw [List.count_eq_countP]
  refine List.countP_congr fun cb hcb => ?_
  cases ht : w.trackables t with
  | none =>
    rw [callbacksOf_of_eq_none ht] at hcb
    cases hcb
  | some tr =>
    have hmem : cb ∈ tr.callbacks.callbacks := by simpa [callbacksOf, ht] using hcb
    constructor
    · intro h
      simp only [Bool.and_eq_true, decide_eq_true_eq, Option.isSome_iff_ne_none] at h
      exact beq_iff_eq.mpr
        ((Registry.only_bindings hr hfns t tr ht cb hmem h.1).resolve_left h.2)
    · intro h
      rw [beq_iff_eq.mp h]
      simp

/-- A rep that holds a functor is registered with the trackables in it. -/
theorem count_eq (hr : w.Registered) (hw : WellAddressed w) {rep : SlotRep} {f : Functor}
    (hrep : w.reps r = some rep) (hf : rep.functor = some f) (heeded : (t, r) ∉ w.ignored)
    (unmoved : .moved r true ∉ w.log) : w.active t r = f.count (.trackable t) := by
  have hreach : reaches (functorsOf w.reps) r t = f.count (.trackable t) := by
    simp [reaches, functorsOf, hrep, hf]
  rw [hr.active_eq_bindings ⟨rep, f, hrep, hf⟩]
  by_cases ht : w.reps t = none
  · rw [← hreach]
    exact (Registry.balanced hr t (by simp [functorsOf, ht]) r).2 heeded unmoved
  · -- only weak pointers are registered with the base of a rep
    rw [← hreach, hw.unreached fun h => ht h.2]
    obtain ⟨rep', hrep'⟩ := Option.ne_none_iff_exists'.mp ht
    refine List.count_eq_zero.mpr fun hm => ?_
    cases htr : w.trackables t with
    | none =>
      rw [callbacksOf_of_eq_none htr] at hm
      cases hm
    | some tr =>
      have hm' : SlotRep.binding r ∈ tr.callbacks.callbacks := by
        simpa [callbacksOf, htr] using hm
      obtain h | h := hw.weakOnly t rep' tr hrep' htr _ hm' <;> cases h

/-- A callback that invalidates a rep belongs to one that holds a functor. -/
theorem holds (hr : w.Registered) (hw : WellAddressed w) {tr : Trackable}
    (alive : w.trackables t = some tr) (hm : SlotRep.binding r ∈ tr.callbacks.callbacks) :
    w.HoldsFunctor r := by
  by_cases ht : w.reps t = none
  · have hb := (Registry.balanced hr t (by simp [functorsOf, ht]) r).1
    have hpos : 0 < bindings w.trackables t r :=
      List.count_pos_iff.mpr (by simpa [callbacksOf, alive] using hm)
    have hreach : 0 < reaches (functorsOf w.reps) r t := by omega
    unfold reaches functorsOf at hreach
    cases hrep : w.reps r with
    | none => simp [hrep] at hreach
    | some rep =>
      cases hf : rep.functor with
      | none => simp [hrep, hf] at hreach
      | some f => exact ⟨rep, f, hrep, hf⟩
  · obtain ⟨rep', hrep'⟩ := Option.ne_none_iff_exists'.mp ht
    obtain h | h := hw.weakOnly t rep' tr hrep' alive _ hm <;> cases h

end World.Registered

theorem Steps.registered_initial {script : List (Cmd V)} (h : Steps ({ script } : World V) w) :
    w.Registered :=
  h.registered (.initial script) (.initial script) (.initial script)

/-- In every state of every run the callbacks of a trackable for a rep are as many as the functor of
the rep reaches it, where no registration has been ignored and the slot has not been moved while the
rep was being invalidated; and whatever is notified on the way holds a functor. -/
theorem Reachable.registration_consistent [Inhabited V] (h : Reachable w) {tr : Trackable}
    (alive : w.trackables t = some tr) :
    (∀ r rep f, w.reps r = some rep → rep.functor = some f → (t, r) ∉ w.ignored →
      .moved r true ∉ w.log → w.active t r = f.count (.trackable t)) ∧
    (∀ cb ∈ tr.callbacks.callbacks, cb.func = some .notifySlotRepInvalidated →
      w.HoldsFunctor cb.data) ∧
    ∃ script, Steps ({ script } : World V) w ∧
      ∀ w₁ r, Steps ({ script } : World V) w₁ → w₁.CallsBack r → w₁.HoldsFunctor r := by
  obtain ⟨script, hs, -⟩ := h.steps
  have hw := (hs.sound (.initial script)).toWellAddressed
  have hr := hs.registered_initial
  refine ⟨fun r rep f hrep hf hi hm => hr.count_eq hw hrep hf hi hm, fun cb hcb hf => ?_,
    script, hs, fun w₁ r hs₁ hcalls => ?_⟩
  · refine hr.holds hw alive ?_
    rwa [SlotRep.binding, ← hf]
  · obtain ⟨t', pos, deps, below, tr', l, -, alive', list, element⟩ := hcalls
    refine hs₁.registered_initial.holds (hs₁.sound (.initial script)).toWellAddressed alive' ?_
    rw [Trackable.callbacks, list]
    exact List.mem_of_getElem? element

/-- Two references to one trackable. -/
theorem registration_consistent_twice :
    ((run 20 [.newTrackable, .makeSlot [.trackable 0, .trackable 0]]).2 : World Unit).active 0 1 =
      2 := by
  have h : Reachable (run (V := Unit) 20
    [.newTrackable, .makeSlot [.trackable 0, .trackable 0]]).2 := .of_run (by decide +kernel)
  have alive : (run (V := Unit) 20
      [.newTrackable, .makeSlot [.trackable 0, .trackable 0]]).2.trackables 0 =
        some { callbackList := some { callbacks := [SlotRep.binding 1, SlotRep.binding 1] } } := by
    decide +kernel
  exact (h.registration_consistent alive).1 1
    { call := true, functor := some [.trackable 0, .trackable 0] } _ (by decide +kernel) rfl
    (by decide +kernel) (by decide +kernel)

/-- A slot holds another one by value, and the destructor of its functor moves that one out of it
when the trackable in it is notifying. -/
def movedOut : List (Cmd Unit) :=
  [.newTrackable, .makeSlot [.trackable 0], .makeSlot [.slot (.object 2)],
    .destroySlot (.object 2), .ret (), .notifyCallbacks 0, .moveSlot (.object 4), .ret (), .ret ()]

/-- The slot that has been moved out still refers to the trackable, but is not registered with it. -/
theorem moved_out_not_registered :
    ∃ (w : World Unit) (t r : Addr) (tr : Trackable) (rep : SlotRep) (f : Functor),
      Reachable w ∧ w.UserPoint ∧ w.ignored = [] ∧ w.trackables t = some tr ∧
        w.reps r = some rep ∧ rep.functor = some f ∧ w.active t r ≠ f.count (.trackable t) :=
  ⟨(run 40 movedOut).2, 0, 3, {},
    { call := false, cleanup := some .notifySlotRepInvalidated, functor := some [.trackable 0] },
    [.trackable 0], .of_run (by decide +kernel), .inl (by decide +kernel), by decide +kernel,
    by decide +kernel, by decide +kernel, rfl, by decide +kernel⟩

/-! ## Dependencies are kept -/

/-- While a trackable runs through its callbacks, others are not added to them. -/
theorem Trackable.addDestroyNotifyCallback_ignored {tr : Trackable}
    (alive : w.trackables t = some tr) (clearing : tr.callbacks.clearing = true) (data : Addr)
    (func : DestroyNotify) : ∃ w', addDestroyNotifyCallback t data func w = (.ret (), w') ∧
      callbacksOf w'.trackables t = callbacksOf w.trackables t := by
  have hload : loadTrackable t w = (.ret tr, w) := deref_eq_ret.mpr ⟨alive, rfl⟩
  refine ⟨_, (bind_of_ret hload).trans rfl, ?_⟩
  have hsame : (tr.addCallback data func).callbacks = tr.callbacks := by
    change tr.callbacks.addCallback data func = tr.callbacks
    rw [TrackableCallbackList.addCallback, if_pos clearing]
  simp [callbacksOf, World.setTrackable, alive, hsame]

/-- A rep that holds a functor, and has not tried to register itself with a trackable in it that was
running through its callbacks, is registered with that trackable, which is alive. -/
theorem Reachable.dependency_kept [Inhabited V] (h : Reachable w) :
    (∀ r rep f, w.reps r = some rep → rep.functor = some f → .moved r true ∉ w.log →
      ∀ t, .trackable t ∈ f → (t, r) ∉ w.ignored →
        (∃ tr, w.trackables t = some tr) ∧ w.active t r = f.count (.trackable t)) ∧
    ∀ t tr, w.trackables t = some tr → tr.callbacks.clearing = true → ∀ data func,
      ∃ w', Trackable.addDestroyNotifyCallback t data func w = (.ret (), w') ∧
        callbacksOf w'.trackables t = callbacksOf w.trackables t := by
  obtain ⟨script, hs, -⟩ := h.steps
  have hw := (hs.sound (.initial script)).toWellAddressed
  have hr := hs.registered_initial
  refine ⟨fun r rep f hrep hf unmoved t ht heeded => ?_, fun t tr alive clearing data func =>
    Trackable.addDestroyNotifyCallback_ignored alive clearing data func⟩
  have hcount := hr.count_eq hw hrep hf heeded unmoved
  refine ⟨Option.ne_none_iff_exists'.mp fun hdead => ?_, hcount⟩
  have hzero : w.active t r = 0 := by
    rw [World.active, callbacksOf_of_eq_none hdead]
    rfl
  have hpos : 0 < f.count (.trackable t) := List.count_pos_iff.mpr ht
  omega

/-- A slot that refers to a trackable, and another one that is built when the first has been told of
a notification. -/
def builtAfter : World Unit :=
  (run 40 [.newTrackable, .makeSlot [.trackable 0], .notifyCallbacks 0, .ret (),
    .makeSlot [.trackable 0]]).2

theorem dependency_kept_after : builtAfter.active 0 1 = 0 ∧
    (∃ tr, builtAfter.trackables 0 = some tr) ∧ builtAfter.active 0 4 = 1 :=
  ⟨by decide +kernel, (Reachable.dependency_kept (V := Unit) (w := builtAfter)
    (.of_run (by decide +kernel))).1 4 { call := true, functor := some [.trackable 0] }
      [.trackable 0] (by decide +kernel) rfl (by decide +kernel) 0 (by decide) (by decide +kernel)⟩

/-- The destructor of a functor that refers to a trackable builds another slot that does. -/
def rebuilt : List (Cmd Unit) :=
  [.newTrackable, .makeSlot [.trackable 0], .notifyCallbacks 0, .makeSlot [.trackable 0], .ret ()]

/-- The new slot is not registered after the notification, and survives the trackable. -/
theorem rebuilt_not_registered :
    (∃ (w : World Unit) (rep : SlotRep), Reachable w ∧ w.frames = [] ∧
      .notified 0 [⟨1, none⟩] ∈ w.log ∧ w.trackables 0 = some {} ∧ w.reps 4 = some rep ∧
        rep.functor = some [.trackable 0] ∧ w.active 0 4 = 0) ∧
    ∃ (w : World Unit) (rep : SlotRep), Reachable w ∧ w.trackables 0 = none ∧
      w.reps 4 = some rep ∧ rep.call = true ∧ rep.functor = some [.trackable 0] :=
  ⟨⟨(run 40 rebuilt).2, { call := true, functor := some [.trackable 0] },
      .of_run (by decide +kernel), by decide +kernel, by decide +kernel, by decide +kernel,
      by decide +kernel, rfl, by decide +kernel⟩,
    (run 40 (rebuilt ++ [.destroyTrackable 0])).2,
      { call := true, functor := some [.trackable 0] }, .of_run (by decide +kernel),
      by decide +kernel, by decide +kernel, rfl, rfl⟩

end Sigc
