import Sigc.AdaptorSafety
import Mathlib.Data.List.Perm.Subperm

/-!
# Whom an invocation calls

However the innermost functions behave, an invocation of a stored functor calls each of them at most
once.  Where the adaptors only pass arguments on, it calls a single one, with the arguments that all
adaptors together leave; its result is the result of the invocation.
-/

namespace Sigc

open Reasoning Prog

variable {F W α β : Type} {x : Invoke F W α} {s : Invocation F W}

/-! ## The innermost functions -/

/-- An innermost function, without the arguments of a call. -/
inductive Callee (F W : Type) where
  | function (funcPtr : F)
  | method (obj : LimitReference F W) (funcPtr : F)
  | slot (s : SlotAddr)

def InnerCall.callee : InnerCall F W → Callee F W
  | .function f _ => .function f
  | .method obj f _ => .method obj f
  | .slot s _ => .slot s

namespace FunctorExpr

/-- The innermost functions of an expression, each as often as it occurs. -/
def callees : FunctorExpr F W → List (Callee F W)
  | .pointerFunctor f | .memFunctor f => [.function f]
  | .boundMemFunctor obj f => [.method obj f]
  | .slot s => [.slot s]
  | .bindFunctor _ functor _ | .bindReturnFunctor functor _ | .hideFunctor _ functor
  | .retypeFunctor functor | .retypeReturnFunctor functor
  | .trackObjFunctor functor _ => functor.callees
  | .compose1Functor setter get => setter.callees ++ get.callees
  | .compose2Functor setter get1 get2 => setter.callees ++ (get1.callees ++ get2.callees)
  | .exceptionCatchFunctor functor catcher => catcher.callees ++ functor.callees

/-- The one call that an expression comes down to whose adaptors only pass arguments on. -/
def innermost : FunctorExpr F W → List (Argument F W) → Option (InnerCall F W)
  | .pointerFunctor f, a | .memFunctor f, a => some (.function f a)
  | .boundMemFunctor obj f, a => some (.method obj f a)
  | .slot s, a => some (.slot s a)
  | .bindFunctor location functor bound, arg =>
    functor.innermost (bindArguments location bound arg)
  | .hideFunctor location functor, a => functor.innermost (hideArguments location a)
  | .retypeFunctor functor, a | .retypeReturnFunctor functor, a
  | .trackObjFunctor functor _, a => functor.innermost a
  | .bindReturnFunctor _ _, _ | .compose1Functor _ _, _ | .compose2Functor _ _ _, _
  | .exceptionCatchFunctor _ _, _ => none

end FunctorExpr

/-! ## One call -/

/-- Such an expression computes what its innermost function does, and has nothing to read after. -/
theorem FunctorExpr.evaluate_of_innermost (u : Surroundings F W) {c : InnerCall F W} :
    ∀ (e : FunctorExpr F W) (a : List (Argument F W)) (s : Invocation F W),
      e.innermost a = some c → e.evaluate u a s = u.evaluate c s ∧ e.Spares u a s
  | .pointerFunctor _, _, s, h | .memFunctor _, _, s, h | .boundMemFunctor _ _, _, s, h
  | .slot _, _, s, h => ⟨congrArg (u.evaluate · s) (Option.some.inj h), trivial⟩
  | .bindFunctor _ functor _, _, s, h | .hideFunctor _ functor, _, s, h
  | .retypeFunctor functor, _, s, h | .retypeReturnFunctor functor, _, s, h
  | .trackObjFunctor functor _, _, s, h => functor.evaluate_of_innermost u _ s h

/-- The adaptors that only pass arguments on call one function, and return what it returns or throw
what it throws, even if it destroys the very functor that is being invoked. -/
theorem FunctorExpr.callIt_of_innermost (u : Surroundings F W) (e : FunctorExpr F W)
    (a : List (Argument F W)) {c : InnerCall F W} (single : e.innermost a = some c) :
    ∃ stored, e.callIt u a {} =
      (ofExcept (u.behaviour [] c).result, { stored, calls := [c] }) := by
  have hone := e.evaluate_of_innermost { u with dependencies := e.visitEachTrackable } a {} single
  have hcall := (e.follows { u with dependencies := e.visitEachTrackable } a {} rfl).read_stored
    .functor rfl
  have hrun := hcall.1 hone.2
  rw [hone.1] at hrun
  exact ⟨_, hrun⟩

/-- `bind(mem_fun(obj, &T::method), 5)`, where the method deletes `obj`. -/
theorem callIt_of_innermost_deleteThis : ∃ stored,
    FunctorExpr.callIt deleteThis (.bindFunctor none (.boundMemFunctor (.trackable 0) 1) [.value 5])
      [.value 3] {} =
        (.ret (.value 0),
          { stored, calls := [.method (.trackable 0) 1 [.value 3, .value 5]] }) :=
  FunctorExpr.callIt_of_innermost (c := .method (.trackable 0) 1 [.value 3, .value 5]) deleteThis
    (.bindFunctor none (.boundMemFunctor (.trackable 0) 1) [.value 5]) [.value 3] rfl

/-! ## No call twice -/

/-- The program calls no other functions than those in `l`, and each at most as often. -/
def CallsAtMost (x : Invoke F W α) (l : List (Callee F W)) : Prop :=
  ∀ s, ∃ called, (x s).2.calls.map InnerCall.callee = called ++ s.calls.map InnerCall.callee ∧
    called.Subperm l

theorem callsAtMost_pure (v : α) : CallsAtMost (pure v : Invoke F W α) [] :=
  fun _ => ⟨[], rfl, .refl []⟩

theorem callsAtMost_readComponent (c : Component) :
    CallsAtMost (readComponent c : Invoke F W Unit) [] := by
  intro s
  rw [readComponent_run]
  split <;> exact ⟨[], rfl, .refl []⟩

theorem callsAtMost_innerCall (u : Surroundings F W) (c : InnerCall F W) :
    CallsAtMost (innerCall u c) [c.callee] := by
  intro s
  refine ⟨[c.callee], ?_, .refl _⟩
  unfold innerCall
  rw [read_bind_run, modify_bind_run]
  cases (u.behaviour s.calls c).result <;> simp

namespace CallsAtMost

/-- What runs after `x` in a state `s` adds its calls to those of `x`. -/
theorem append {l l' : List (Callee F W)} {y : Invoke F W β} (hx : CallsAtMost x l)
    (hy : CallsAtMost y l') (s : Invocation F W) : ∃ called,
      (y (x s).2).2.calls.map InnerCall.callee = called ++ s.calls.map InnerCall.callee ∧
        called.Subperm (l' ++ l) := by
  obtain ⟨called, hcalls, hsub⟩ := hx s
  obtain ⟨called', hcalls', hsub'⟩ := hy (x s).2
  refine ⟨called' ++ called, ?_, hsub'.append hsub⟩
  rw [hcalls', hcalls, List.append_assoc]

theorem mono {l l' : List (Callee F W)} (hx : CallsAtMost x l) (h : l.Subperm l') :
    CallsAtMost x l' := by
  intro s
  obtain ⟨called, hcalls, hsub⟩ := hx s
  exact ⟨called, hcalls, hsub.trans h⟩

theorem bind {l l' : List (Callee F W)} {f : α → Invoke F W β} (hx : CallsAtMost x l)
    (hf : ∀ v, CallsAtMost (f v) l') : CallsAtMost (x >>= f) (l' ++ l) := by
  intro s
  have hstop := hx.mono (List.sublist_append_right l' l).subperm s
  rcases hrun : x s with ⟨v | e | k, s'⟩ <;> rw [hrun] at hstop
  · have happ := hx.append (hf v) s
    rw [hrun] at happ
    rw [bind_of_ret hrun]
    exact happ
  · rw [bind_of_throw hrun]
    exact hstop
  · rw [bind_of_halt hrun]
    exact hstop

theorem recover {l l' : List (Callee F W)} {h : Nat → Invoke F W α} (hx : CallsAtMost x l)
    (hh : ∀ e, CallsAtMost (h e) l') : CallsAtMost (Prog.recover x h) (l' ++ l) := by
  intro s
  have hstop := hx.mono (List.sublist_append_right l' l).subperm s
  unfold Prog.recover
  rcases hrun : x s with ⟨v | e | k, s'⟩ <;> rw [hrun] at hstop
  · exact hstop
  · have happ := hx.append (hh e) s
    rw [hrun] at happ
    exact happ
  · exact hstop

/-- A component is read before `x` runs. -/
theorem read {l : List (Callee F W)} (c : Component) (hx : CallsAtMost x l) :
    CallsAtMost (do readComponent c; x) l := by
  have hbind := (callsAtMost_readComponent c).bind fun _ => hx
  rwa [List.append_nil] at hbind

end CallsAtMost

theorem FunctorExpr.invoke_callsAtMost (u : Surroundings F W) :
    ∀ (e : FunctorExpr F W) (a : List (Argument F W)), CallsAtMost (e.invoke u a) e.callees
  | .pointerFunctor _, _ | .memFunctor _, _ | .boundMemFunctor _ _, _
  | .slot _, _ => callsAtMost_innerCall u _
  | .bindFunctor _ functor _, _ => ((functor.invoke_callsAtMost u _).read _).read _
  | .hideFunctor _ functor, _ | .retypeFunctor functor, _ | .retypeReturnFunctor functor, _
  | .trackObjFunctor functor _, _ => (functor.invoke_callsAtMost u _).read _
  | .bindReturnFunctor functor retValue, a =>
    ((functor.invoke_callsAtMost u a).bind fun _ => (callsAtMost_pure retValue).read _).read _
  | .compose1Functor setter get, a =>
    ((get.invoke_callsAtMost u a).bind fun v => (setter.invoke_callsAtMost u [v]).read _).read _
  | .compose2Functor setter get1 get2, a => by
    -- the compiler chooses which of the getters is called first
    have hget : ∀ first : Bool,
        CallsAtMost (if first then get2.invoke u a else get1.invoke u a)
          (if first then get2.callees else get1.callees) := by
      intro first
      cases first
      · exact get1.invoke_callsAtMost u a
      · exact get2.invoke_callsAtMost u a
    have hget' : CallsAtMost (if u.get2First then get1.invoke u a else get2.invoke u a)
        (if u.get2First then get1.callees else get2.callees) := by
      have h := hget !u.get2First
      cases hfirst : u.get2First <;> simpa [hfirst] using h
    refine CallsAtMost.mono (CallsAtMost.read _ ((hget u.get2First).bind fun v =>
      CallsAtMost.read _ (hget'.bind fun v' =>
        (setter.invoke_callsAtMost u _).read _))) ?_
    rw [List.append_assoc]
    apply (List.subperm_append_left _).mpr
    split
    · exact List.Subperm.refl _
    · exact List.perm_append_comm.subperm
  | .exceptionCatchFunctor functor catcher, _ =>
    ((functor.invoke_callsAtMost u _).read _).recover fun _ =>
      (catcher.invoke_callsAtMost u []).read _

/-- In one invocation of a stored functor, each innermost function is called at most as often as it
occurs in the functor, and no other function is, whatever the functions destroy or throw. -/
theorem FunctorExpr.callIt_calls_once (u : Surroundings F W) (e : FunctorExpr F W)
    (a : List (Argument F W)) :
    ((e.callIt u a {}).2.calls.map InnerCall.callee).Subperm e.callees := by
  obtain ⟨called, hcalls, hsub⟩ := ((e.invoke_callsAtMost
    { u with dependencies := e.visitEachTrackable } a).read .functor) {}
  rw [List.map_nil, List.append_nil] at hcalls
  rwa [← hcalls] at hsub

end Sigc
