import Sigc.Dependence
import Sigc.Guarantees

/-!
# After a notification

A trackable that is destroyed, assigned to or moved notifies whoever depends on it.  The slots whose
functor referred to it have lost their functor by then; they are never called again, and where no
function runs on the list of a signal they are not connected to it any more.
-/

namespace Sigc

open Reasoning Prog

variable {V : Type} {w w' v : World V} {i r t : Addr} {f : Functor}

/-! ## A slot that can be called holds a functor -/

namespace World

def Armed (w : World V) : Prop :=
  ∀ r rep, w.reps r = some rep → rep.call = true → rep.functor ≠ none

/-- A dependency that `w'` has ignored was ignored before, or is one of a rep or a weak pointer that
is new, or of a weak pointer. -/
def Ignores (w w' : World V) : Prop :=
  ∀ p ∈ w'.ignored, p ∈ w.ignored ∨ p.2 = w.next ∧ w.next < w'.next ∨ w.weaks p.2 ≠ none

/-- Each rep holds the functor that it held before, or holds one, or cannot be called; and what a
trackable has ignored is not forgotten. -/
structure Retains (w w' : World V) : Prop where
  functor : ∀ r, functorsOf w'.reps r = functorsOf w.reps r ∨ (functorsOf w'.reps r).join ≠ none ∨
    ∀ rep, w'.reps r = some rep → rep.call = false
  ignored : ∀ p ∈ w.ignored, p ∈ w'.ignored
  ignores : w.Ignores w'

theorem Retains.of_eq (functors : functorsOf w'.reps = functorsOf w.reps)
    (ignored : w'.ignored = w.ignored) : w.Retains w' where
  functor r := .inl (congrFun functors r)
  ignored _ hp := ignored ▸ hp
  ignores _ hp := .inl (ignored ▸ hp)

theorem Retains.then (h : w.Retains v) (keeps : ∀ q rep', w'.reps q = some rep' →
      rep'.call = false ∨
        ∃ rep, v.reps q = some rep ∧ rep.call = rep'.call ∧ rep.functor = rep'.functor)
    (ignored : w'.ignored = v.ignored) (next : v.next ≤ w'.next) : w.Retains w' where
  functor q := by
    cases hrep' : w'.reps q with
    | none => exact .inr (.inr fun _ h => by cases h)
    | some rep' =>
      rcases keeps q rep' hrep' with hoff | ⟨rep, hrep, hcall, hfunctor⟩
      · exact .inr (.inr fun x hx => by rwa [← Option.some.inj hx])
      · have hsame : functorsOf w'.reps q = functorsOf v.reps q := by
          rw [functorsOf, functorsOf, hrep', hrep, Option.map_some, Option.map_some, hfunctor]
        rw [hsame]
        refine (h.functor q).imp_right fun h => h.imp_right fun hoff x hx => ?_
        rw [← Option.some.inj hx, ← hcall]
        exact hoff rep hrep
  ignored p hp := ignored ▸ h.ignored p hp
  ignores p hp := (h.ignores p (ignored ▸ hp)).imp_right fun h =>
    h.imp_left fun h => ⟨h.1, Nat.lt_of_lt_of_le h.2 next⟩

theorem Armed.step (ha : w.Armed) (h : w.Retains w') (hext : Extends w w')
    (hw : WellAddressed w) : w'.Armed := by
  intro q rep' hrep' hcall
  have hfns : functorsOf w'.reps q = some rep'.functor := by
    rw [functorsOf, hrep', Option.map_some]
  rcases h.functor q with hsame | hholds | hoff
  · rw [hfns, functorsOf, eq_comm, Option.map_eq_some_iff] at hsame
    obtain ⟨rep, hrep, hfunctor⟩ := hsame
    obtain ⟨x, hx, hback, -⟩ := hext.reps.old (hw.reps q rep hrep) hrep'
    obtain rfl := Option.some.inj (hrep.symm.trans hx)
    rw [← hfunctor]
    exact ha q rep hrep (hback hcall)
  · rwa [hfns] at hholds
  · rw [hoff rep' hrep'] at hcall
    cases hcall

end World

theorem Registered.ignores_new {func : DestroyNotify} {k : Addr → Nat}
    {old tks : Addr → Option Trackable} {v : World V}
    (h : Registered w.next func k old w.ignored tks v.ignored) (next : w.next < v.next) :
    w.Ignores v :=
  fun p hp => (h.ignores p hp).imp_right fun h => .inl ⟨h.1, next⟩

theorem Unregistering.retains (h : Unregistering w w') : w.Retains w' :=
  .of_eq h.functors h.ignored

theorem RepConstructed.retains {tks : Addr → Option Trackable} {ign : List (Addr × Addr)}
    {rps : Addr → Option SlotRep} (h : RepConstructed w f tks ign rps) :
    w.Retains (w.afterRep tks ign rps) where
  functor q := by
    show functorsOf rps q = functorsOf w.reps q ∨ (functorsOf rps q).join ≠ none ∨ _
    rw [h.bound.functorsOf, functorsOf_update]
    by_cases hq : q = w.next
    · subst hq
      exact .inr (.inl (by simp))
    · exact .inl (Function.update_of_ne hq _ _)
  ignored := h.registered.grown
  ignores := h.registered.ignores_new (v := w.afterRep tks ign rps) (Nat.lt_succ_self _)

theorem SlotBase.construct_retains {owner : Owner} {init : SlotInit} {s : SlotAddr}
    (run : SlotBase.construct owner init w = (.ret s, w')) : w.Retains w' := by
  obtain ⟨-, -, rfl⟩ | ⟨g, tks, ign, rps, -, hcons, -, rfl⟩ := SlotBase.construct_effect run
  · exact .of_eq rfl rfl
  · have hretains := hcons.retains
    exact hretains.then (fun q rep' h => .inr ⟨rep', h, rfl, rfl⟩) rfl (Nat.le_succ _)

theorem SlotRep.detachFunctor_retains {fo : Option Functor}
    (run : SlotRep.detachFunctor r w = (.ret fo, w')) : w.Retains w' := by
  obtain ⟨rep, tks, rps, hrep, -, rfl, -, rps₁, rep', hun, hrep', rfl⟩ :=
    SlotRep.detachFunctor_effect run
  have hoff : rep'.call = false := by
    rcases hun r with hsame | ⟨_, _, x, -, -, -, hx, -, hnew⟩
    · rw [hrep', Function.update_self] at hsame
      rw [Option.some.inj hsame]
    · rw [Function.update_self] at hx
      rw [hrep'] at hnew
      rw [Option.some.inj hnew, ← Option.some.inj hx]
  refine ⟨fun q => ?_, fun p hp => hp, fun p hp => .inl hp⟩
  by_cases hq : q = r
  · subst hq
    refine .inr (.inr fun x hx => ?_)
    have hsame : Function.update rps₁ q (some { rep' with functor := none }) q = some x := hx
    rw [Function.update_self] at hsame
    rw [← Option.some.inj hsame]
    exact hoff
  · refine .inl ?_
    show functorsOf (Function.update rps₁ r _) q = _
    rw [functorsOf_update, Function.update_of_ne hq, hun.functorsOf,
      functorsOf_setRep (x := { rep with call := false }) hrep rfl]

/-- The rep of a new element, or its `dummy_slot_rep`. -/
theorem SignalImpl.Placed.retains {first : Bool} {n : SlotAddr} {sl : SlotBase}
    (h : SignalImpl.Placed v i first n sl w') (retains : w.Retains v) : w.Retains w' := by
  obtain ⟨-, self, q, rep, nx, tks, -, -, hplaced, rfl⟩ := h
  have hnext : v.next ≤ nx := by
    obtain ⟨-, -, rfl, -⟩ | ⟨-, -, -, rfl, -⟩ := hplaced
    · exact Nat.le_succ _
    · exact Nat.le_trans (Nat.le_succ _) (Nat.le_succ _)
  refine retains.then (fun q' rep' hrep' => ?_) rfl hnext
  rcases update_eq_some.mp hrep' with ⟨rfl, hx⟩ | ⟨-, hold⟩
  · rw [← Option.some.inj hx]
    obtain ⟨-, hrep, -⟩ | ⟨-, -, rfl, -⟩ := hplaced
    · exact .inr ⟨rep, hrep, rfl, rfl⟩
    · exact .inl rfl
  · exact .inr ⟨rep', hold, rfl, rfl⟩

theorem SlotBase.passParent_retains {new : Addr} {old : Option Addr}
    (run : SlotBase.passParent new old v = (.ret (), w')) (retains : w.Retains v) :
    w.Retains w' := by
  obtain ⟨-, rfl⟩ | ⟨q, oldRep, newRep, -, -, hnew, rfl⟩ := SlotBase.passParent_effect run
  · exact retains
  · refine retains.then (fun q' rep' hrep' => ?_) rfl (Nat.le_refl _)
    rcases update_eq_some.mp hrep' with ⟨rfl, hx⟩ | ⟨-, hold⟩
    · rw [← Option.some.inj hx]
      exact .inr ⟨newRep, hnew, rfl, rfl⟩
    · exact .inr ⟨rep', hold, rfl, rfl⟩

theorem SlotStep.retains (h : SlotStep w w') : w.Retains w' := by
  cases h with
  | construct unlisted functor run => exact SlotBase.construct_retains run
  | take unlisted source told run => exact (SlotBase.takeRep_unregistering run).retains
  | sever h => exact h.unregistering.retains
  | @startInvalidation w₁ w' r rep x calm alive run sever =>
    obtain ⟨-, tks, ign, rfl, hreg⟩ := WeakRawPtr.construct_effect run
    have hsever := sever.unregistering
    have hignores := hreg.ignores_new (w := w) (v := { w with next := w.next + 1, ignored := ign })
      (Nat.lt_succ_self _)
    refine ⟨fun q => .inl ?_, fun p hp => hsever.ignored ▸ hreg.grown p hp, fun p hp => ?_⟩
    swap
    · refine (hignores p (hsever.ignored ▸ hp)).imp_right fun h => h.imp_left fun h => ⟨h.1, ?_⟩
      exact Nat.lt_of_lt_of_le h.2 hsever.next
    rw [hsever.functors]
    exact congrFun (functorsOf_setRep (x := { rep with call := false }) alive rfl) q
  | detach top run => exact SlotRep.detachFunctor_retains run
  | endInvalidation top weak gutted run =>
    obtain ⟨tks, self, -, rfl, -⟩ := WeakRawPtr.destroy_effect run
    exact .of_eq rfl rfl
  | endCallback top weak gutted run alive list element =>
    obtain ⟨tks, self, -, rfl, -⟩ := WeakRawPtr.destroy_effect run
    exact .of_eq rfl rfl
  | beginDelete calm alive idle slot rep unlisted run =>
    have hretains := SlotRep.detachFunctor_retains run
    exact ⟨hretains.functor, hretains.ignored, hretains.ignores⟩
  | @endDelete r base below top alive notified =>
    refine ⟨fun q => ?_, fun p hp => hp, fun p hp => .inl hp⟩
    by_cases hq : q = r
    · subst hq
      refine .inr (.inr fun x hx => ?_)
      have hnone : Function.update w.reps q none q = some x := hx
      rw [Function.update_self] at hnone
      cases hnone
    · refine .inl ?_
      show functorsOf (Function.update w.reps r none) q = _
      rw [functorsOf_update, Function.update_of_ne hq]
  | startCheck calm alive rep unlisted run =>
    obtain ⟨-, tks, ign, rfl, hreg⟩ := WeakRawPtr.construct_effect run
    exact ⟨fun q => .inl rfl, hreg.grown, hreg.ignores_new (Nat.lt_succ_self _)⟩
  | endCheck top run =>
    obtain ⟨tks, self, -, rfl, -⟩ := WeakRawPtr.destroy_effect run
    exact .of_eq rfl rfl
  | cloneFor calm unlisted functor run =>
    obtain ⟨rfl, tks, ign, rps, sl, w₂, hcons, alive, hpass, rfl⟩ := SlotBase.cloneFor_effect run
    have hretains := SlotBase.passParent_retains hpass hcons.retains
    exact ⟨hretains.functor, hretains.ignored, hretains.ignores⟩
  | moveFor calm unlisted source told run =>
    obtain ⟨from_, sl, w₂, -, -, -, hpass, rfl⟩ := SlotBase.moveFor_effect run
    have hpassed := SlotBase.passParent_unregistering hpass
    exact .of_eq hpassed.functors hpassed.ignored
  | _ => exact .of_eq rfl rfl

theorem SignalStep.retains (h : SignalStep w w') : w.Retains w' := by
  cases h with
  | insertBuilt user owned functor run =>
    obtain ⟨w₁, rep?, hcons, -, hp⟩ := SignalImpl.insertBuilt_effect run
    exact hp.retains (SlotBase.construct_retains hcons)
  | insertTaken user owned source told run =>
    obtain ⟨w₁, sl, htake, -, -, hp⟩ := SignalImpl.insertTaken_effect run
    exact hp.retains (SlotBase.takeRep_unregistering htake).retains
  | impl run => exact (SignalBase.impl_unregistering run).retains
  | copyConstruct handle run =>
    obtain ⟨j, w₁, hrun, -, rfl⟩ := SignalBase.copyConstruct_effect run
    have himpl := SignalBase.impl_unregistering hrun
    exact .of_eq himpl.functors himpl.ignored
  | moveConstruct run =>
    obtain ⟨-, rfl⟩ := SignalBase.moveConstruct_effect run
    exact .of_eq rfl rfl
  | replaceImpl calm owned run =>
    obtain ⟨-, hgo⟩ := SignalBase.replaceImpl_effect run
    have hletGo := World.letGo_unregistering hgo
    exact .of_eq hletGo.functors hletGo.ignored
  | dropHandle calm run =>
    obtain ⟨-, hgo⟩ := SignalBase.dropHandle_effect run
    have hletGo := World.letGo_unregistering hgo
    exact .of_eq hletGo.functors hletGo.ignored
  | enterClear calm run =>
    obtain ⟨self, himpl, rfl, rfl, rfl, -, rfl⟩ := SignalImpl.enterClear_effect run
    exact .of_eq rfl rfl
  | leaveClearSweep top impl cleared sweeps owned run =>
    have hsweep := SignalImpl.enterSweep_unregistering run
    exact .of_eq hsweep.functors hsweep.ignored
  | leaveHolderSweep top holder impl sweeps run =>
    have hsweep := SignalImpl.enterSweep_unregistering run
    exact .of_eq hsweep.functors hsweep.ignored
  | _ => exact .of_eq rfl rfl

theorem Step.retains (h : Step w w') : w.Retains w' := by
  cases h with
  | command script wellFormed => exact .of_eq rfl rfl
  | trackable h => cases h <;> exact .of_eq rfl rfl
  | weak h =>
    cases h with
    | refer s => exact .of_eq rfl rfl
    | construct user source run =>
      obtain ⟨-, tks, ign, rfl, hreg⟩ := WeakRawPtr.construct_effect run
      exact ⟨fun q => .inl rfl, hreg.grown, hreg.ignores_new (Nat.lt_succ_self _)⟩
    | assign user connection run =>
      obtain ⟨mid, tks, ign, self, from_, hself, -, rfl, -, hreg⟩ := WeakRawPtr.assign_effect run
      refine ⟨fun q => .inl rfl, hreg.grown, fun p hp => (hreg.ignores p hp).imp_right fun h => ?_⟩
      exact .inr (by rw [h.1, hself]; exact Option.some_ne_none _)
    | destroy user connection run =>
      obtain ⟨tks, self, -, rfl, -⟩ := WeakRawPtr.destroy_effect run
      exact .of_eq rfl rfl
  | slot h => exact h.retains
  | signal h => exact h.retains
  | emission h =>
    cases h with
    | start calm owned run =>
      obtain ⟨self, himpl, -, rfl, rfl⟩ := Emission.start_effect run
      exact .of_eq rfl rfl
    | finishSweep top ends impl element sweeps run =>
      have hsweep := SignalImpl.enterSweep_unregistering run
      exact .of_eq hsweep.functors hsweep.ignored
    | _ => exact .of_eq rfl rfl

/-! ## Whoever depended on a trackable -/

namespace World

/-- `r` is not the rep of a slot that can be called. -/
def Spent (w : World V) (r : Addr) : Prop :=
  ∀ rep, w.reps r = some rep → rep.functor = none ∧ rep.call = false

/-- After every notification of `t` since the log was `base`, the slot of `r` is empty and its functor
has not been invoked.  The exceptions are a rep that `t` has ignored, because it was notifying, and
one whose slot has been moved in the middle of its invalidation. -/
def Released (w : World V) (base : List Event) (t r : Addr) : Prop :=
  (t, r) ∉ w.ignored → .moved r true ∉ w.log → ∀ later deps earlier,
    w.log = later ++ .notified t deps :: (earlier ++ base) → w.Spent r ∧ .invoked r ∉ later

/-- The functor of `r` refers to `t`. -/
def Refers (w : World V) (t r : Addr) : Prop :=
  ∀ rep f, w.reps r = some rep → rep.functor = some f → .trackable t ∈ f

theorem Spent.extends (h : w.Spent r) (hext : Extends w w') (hr : r < w.next) : w'.Spent r := by
  intro rep' hrep'
  obtain ⟨rep, hrep, hcall, hfunctor⟩ := hext.reps.old hr hrep'
  obtain ⟨hnone, hoff⟩ := h rep hrep
  constructor
  · rcases hfunctor with hnone' | hsame
    · exact hnone'
    · exact hsame.trans hnone
  · rw [← Bool.not_eq_true]
    intro hcall'
    rw [hcall hcall'] at hoff
    cases hoff

theorem Refers.extends (h : w.Refers t r) (hext : Extends w w') (hr : r < w.next) :
    w'.Refers t r := by
  intro rep' f hrep' hf
  obtain ⟨rep, hrep, -, hfunctor⟩ := hext.reps.old hr hrep'
  rcases hfunctor with hnone | hsame
  · rw [hf] at hnone
    cases hnone
  · exact h rep f hrep (hsame.symm.trans hf)

/-- Where `t` has no callbacks, no functor refers to it that has been registered. -/
theorem Refers.spent (h : w.Refers t r) (hr : w.Registered) (hw : WellAddressed w) (ha : w.Armed)
    (callbacks : callbacksOf w.trackables t = {}) (heeded : (t, r) ∉ w.ignored)
    (unmoved : .moved r true ∉ w.log) : w.Spent r := by
  intro rep hrep
  have hnone : rep.functor = none := by
    by_contra hne
    obtain ⟨f, hf⟩ := Option.ne_none_iff_exists'.mp hne
    have hcount := hr.count_eq (t := t) hw hrep hf heeded unmoved
    have hzero : w.active t r = 0 := by
      rw [active, callbacks]
      rfl
    have hpos : 0 < f.count (.trackable t) := List.count_pos_iff.mpr (h rep f hrep hf)
    omega
  refine ⟨hnone, ?_⟩
  rw [← Bool.not_eq_true]
  exact fun hcall => ha r rep hrep hcall hnone

theorem Released.step {base : List Event} (hrel : w.Released base t r) (href : w.Refers t r)
    (hr : r < w.next) (h : Step w w') (hw : WellAddressed w) (registered : w'.Registered)
    (armed : w'.Armed) : w'.Released base t r := by
  have hadvances := h.advances hw
  have hext := hadvances.extension
  intro heeded unmoved
  have hold := hrel (fun hm => heeded (h.retains.ignored _ hm)) fun hm =>
    unmoved (hext.log.subset hm)
  -- an event that is no notification of `t`, and no call of what has been released
  have hcons {ev : Event} {log : List Event} (hlog : ∀ later deps earlier,
      log = later ++ .notified t deps :: (earlier ++ base) → w.Spent r ∧ .invoked r ∉ later)
      (notice : ∀ deps, ev ≠ .notified t deps) (calls : ev = .invoked r → ¬w.Spent r)
      (later : List Event) (deps : List Dependent) (earlier : List Event)
      (heq : ev :: log = later ++ .notified t deps :: (earlier ++ base)) :
      w.Spent r ∧ .invoked r ∉ later := by
    cases later with
    | nil => exact absurd (List.cons.inj heq).1 (notice deps)
    | cons ev' later =>
      obtain ⟨rfl, htail⟩ := List.cons.inj heq
      obtain ⟨hspent, hcalls⟩ := hlog later deps earlier htail
      refine ⟨hspent, fun hm => ?_⟩
      rcases List.mem_cons.mp hm with hev | hm
      · exact calls hev.symm hspent
      · exact hcalls hm
  have hkeep {later : List Event} (hspent : w.Spent r ∧ .invoked r ∉ later) :
      w'.Spent r ∧ .invoked r ∉ later := ⟨hspent.1.extends hext hr, hspent.2⟩
  intro later deps earlier heq
  cases h.logStep with
  | quiet log => exact hkeep (hold later deps earlier (log ▸ heq))
  | @other ev neutral calls notice moves log =>
    by_cases hev : ∃ deps, ev = .notified t deps
    · obtain ⟨deps', rfl⟩ := hev
      have hspent := (href.extends hext hr).spent registered hadvances.addressed armed
        (notice t deps' rfl) heeded unmoved
      refine ⟨hspent, ?_⟩
      rw [log] at heq
      cases later with
      | nil => simp
      | cons ev' later =>
        obtain ⟨rfl, htail⟩ := List.cons.inj heq
        simpa using (hold later deps earlier htail).2
    · rw [log] at heq
      refine hkeep (hcons hold (fun deps heq => hev ⟨deps, heq⟩) (fun heq hspent => ?_) later deps
        earlier heq)
      obtain ⟨rep, hrep, hcall⟩ := calls r heq
      rw [(hspent rep hrep).2] at hcall
      cases hcall
  | disconnected alive log call =>
    rcases log with log | log
    · rw [log] at heq
      exact hkeep (hcons hold (by simp) (by simp) later deps earlier heq)
    · rw [log] at heq
      exact hkeep (hcons (hcons hold (by simp) (by simp)) (by simp) (by simp) later deps earlier heq)
  | connected first impl sets slot holds alive log =>
    rw [log] at heq
    exact hkeep (hcons hold (by simp) (by simp) later deps earlier heq)

end World

/-- What is known of a slot that depends on `t`, and of the world around it. -/
structure World.Depends (w : World V) (base : List Event) (t r : Addr) : Prop where
  sound : Sound w
  watched : w.Watched
  registered : w.Registered
  armed : w.Armed
  used : r < w.next
  refers : w.Refers t r
  released : w.Released base t r

theorem World.Depends.step {base : List Event} (hd : w.Depends base t r) (h : Step w w') :
    w'.Depends base t r := by
  have hw := hd.sound.toWellAddressed
  have hext := (h.advances hw).extension
  have hregistered := h.registered hw hd.watched hd.registered
  have harmed := hd.armed.step h.retains hext hw
  exact
    { sound := h.sound hd.sound
      watched := h.watched hd.sound hd.watched
      registered := hregistered
      armed := harmed
      used := Nat.lt_of_lt_of_le hd.used hext.next
      refers := hd.refers.extends hext hd.used
      released := hd.released.step hd.refers hd.used h hw hregistered harmed }

theorem Steps.armed {script : List (Cmd V)} (h : Steps ({ script } : World V) w) : w.Armed := by
  have hboth : Sound w ∧ w.Armed := by
    refine h.preserves (P := fun w => Sound w ∧ w.Armed)
      ⟨.initial script, fun _ _ h => by cases h⟩ ?_
    rintro v v' hstep ⟨hv, ha⟩
    exact ⟨hstep.sound hv, ha.step hstep.retains
      (hstep.advances hv.toWellAddressed).extension hv.toWellAddressed⟩
  exact hboth.2

theorem Steps.depends {script : List (Cmd V)} (h : Steps ({ script } : World V) w)
    (h' : Steps w w') {rep : SlotRep} (hrep : w.reps r = some rep) (functor : rep.functor = some f)
    (refers : .trackable t ∈ f) : w'.Depends w.log t r := by
  have hw := h.sound (.initial script)
  refine h'.preserves (P := fun v => v.Depends w.log t r) ?_ fun _ _ hstep hd => hd.step hstep
  refine
    { sound := hw
      watched := h.watched (.initial script) (.initial script)
      registered := h.registered_initial
      armed := h.armed
      used := hw.reps r rep hrep
      refers := fun x g hx hg => ?_
      released := fun _ _ later deps earlier heq => ?_ }
  · obtain rfl := Option.some.inj (hrep.symm.trans hx)
    obtain rfl := Option.some.inj (functor.symm.trans hg)
    exact refers
  · -- there has been no notification yet
    have hlength := congrArg List.length heq
    simp only [List.length_append, List.length_cons] at hlength
    omega

/-! ## Automatic disconnection -/

variable {script : List (Cmd V)} {rep : SlotRep} {later earlier : List Event}
  {deps : List Dependent}

/-- A slot that refers to a trackable is connected to a signal; there is another slot that does. -/
def dependent : World Unit :=
  (((World.after { script := [.ret (), .ret ()] } .newTrackable).after .newSignal).after
    (.makeSlot [.trackable 0])).after (.connect 1 (.object 3) false false)

theorem dependent_steps :
    ∃ script, Steps ({ script } : World Unit) dependent ∧ dependent.UserPoint := by
  apply World.after_steps _ (by decide +kernel) (by decide +kernel)
  apply World.after_steps _ (by decide +kernel) (by decide +kernel)
  apply World.after_steps _ (by decide +kernel) (by decide +kernel)
  apply World.after_steps _ (by decide +kernel) (by decide +kernel)
  exact ⟨_, .refl, .inl rfl⟩

/-- Once `t` has been notified, the slots whose functor referred to it have lost their functor, and
are not called any more. -/
theorem Steps.notified_spent (h : Steps ({ script } : World V) w) (h' : Steps w w')
    (hrep : w.reps r = some rep) (functor : rep.functor = some f) (refers : .trackable t ∈ f)
    (log : w'.log = later ++ .notified t deps :: (earlier ++ w.log)) (heeded : (t, r) ∉ w'.ignored)
    (unmoved : .moved r true ∉ w'.log) : w'.Spent r ∧ .invoked r ∉ later :=
  (h.depends h' hrep functor refers).released heeded unmoved later deps earlier log

theorem dependent_notified : Goes dependent (dependent.after (.notifyCallbacks 0)) ∧
    (dependent.after (.notifyCallbacks 0)).log =
      [] ++ .notified 0 [⟨2, none⟩, ⟨5, some ⟨4, .object 6⟩⟩] :: ([.notified 5 [], .disconnected 5,
        .disconnected 5, .disconnected 2, .disconnected 2] ++ dependent.log) := by
  obtain ⟨script, h, user⟩ := dependent_steps
  exact ⟨World.after_goes (h.sound (.initial script)) user (by decide +kernel) (by decide +kernel),
    by decide +kernel⟩

theorem notified_spent_dependent : ∃ w' : World Unit, Steps dependent w' ∧ w'.Spent 2 ∧
    w'.trackables 0 = some {} := by
  obtain ⟨script, h, -⟩ := dependent_steps
  obtain ⟨hgoes, hlog⟩ := dependent_notified
  have hrep : dependent.reps 2 = some { call := true, functor := some [.trackable 0] } := by
    decide +kernel
  have hspent := h.notified_spent (t := 0) hgoes.1 hrep rfl (by simp) hlog (by decide +kernel)
    (by decide +kernel)
  exact ⟨_, hgoes.1, hspent.1, by decide +kernel⟩

/-- Where no function runs on the list of a signal, no slot is left in it that referred to `t`. -/
theorem Steps.notified_removed (h : Steps ({ script } : World V) w) (h' : Steps w w')
    (hrep : w.reps r = some rep) (functor : rep.functor = some f) (refers : .trackable t ∈ f)
    (log : w'.log = later ++ .notified t deps :: (earlier ++ w.log)) (heeded : (t, r) ∉ w'.ignored)
    (unmoved : .moved r true ∉ w'.log) (hs : w'.Shallow i) (owned : w'.owned i = true)
    (rest : w'.execs i = 0) (nonEmpty : ∀ first, .connected i (some r) first false ∉ w'.log)
    (n : SlotAddr) : w'.Entry i n r → w'.reps r = none := by
  intro entry
  have hspent := ((h.depends h' hrep functor refers).released heeded unmoved later deps earlier
    log).1
  have ht := (h.trans h').tracked_initial hs
  obtain ⟨self, impl, -⟩ := entry.listed
  by_contra hne
  obtain ⟨x, hx⟩ := Option.ne_none_iff_exists'.mp hne
  have hparent := ht.parent_of_rest impl owned rest entry hx
  rcases ht.origins _ r x entry hx (hspent x hx).2 with hnone | ⟨first, hm⟩
  · exact hparent hnone
  · exact nonEmpty first hm

theorem notified_removed_dependent : ∃ w' : World Unit, Steps dependent w' ∧
    w'.impls 4 = some {} ∧ ∀ n, w'.Entry 4 n 5 → w'.reps 5 = none := by
  obtain ⟨script, h, -⟩ := dependent_steps
  obtain ⟨hgoes, hlog⟩ := dependent_notified
  have hrep : dependent.reps 5 = some
      { call := true, cleanup := some .notifySelfAndIterOfInvalidatedSlot, parent := some 7
        functor := some [.trackable 0] } := by
    decide +kernel
  have nonEmpty : ∀ first, .connected 4 (some 5) first false ∉
      (dependent.after (.notifyCallbacks 0)).log := by
    decide +kernel
  exact ⟨_, hgoes.1, by decide +kernel, h.notified_removed (t := 0) hgoes.1 hrep rfl (by simp) hlog
    (by decide +kernel) (by decide +kernel) (by decide +kernel) (by decide +kernel)
    (by decide +kernel) nonEmpty⟩

end Sigc
