import Sigc.Memory

/-!
# Functor expressions

The functors and adaptors that a slot can be built from, from `functors/ptr_fun.h`,
`functors/mem_fun.h` and `adaptors/`: what each of them stores, what `visit_each` reaches in it, and
how its `operator()` uses it.  `F` is the type of the function and method pointers, `W` that of the
values that are stored or passed by value.
-/

namespace Sigc

open Reasoning Prog

mutual

/-- A reference to an object, as a `limit_reference` holds it: to a trackable, to an object of any
other class, or to a functor, `e` being what is stored in it. -/
inductive LimitReference (F W : Type) where
  | trackable (visited : Addr)
  | object (visited : Addr)
  | functor (visited : Addr) (e : FunctorExpr F W)

/-- A functor expression.  `location` is the template argument `I_location`, `none` standing for
`-1`. -/
inductive FunctorExpr (F W : Type) where
  | pointerFunctor (funcPtr : F)
  | memFunctor (funcPtr : F)
  | boundMemFunctor (obj : LimitReference F W) (funcPtr : F)
  | slot (s : SlotAddr)
  | bindFunctor (location : Option Nat) (functor : FunctorExpr F W) (bound : List (Argument F W))
  | bindReturnFunctor (functor : FunctorExpr F W) (retValue : Argument F W)
  | hideFunctor (location : Option Nat) (functor : FunctorExpr F W)
  | retypeFunctor (functor : FunctorExpr F W)
  | retypeReturnFunctor (functor : FunctorExpr F W)
  | compose1Functor (setter get : FunctorExpr F W)
  | compose2Functor (setter get1 get2 : FunctorExpr F W)
  | exceptionCatchFunctor (functor catcher : FunctorExpr F W)
  | trackObjFunctor (functor : FunctorExpr F W) (obj : List Addr)

/-- What is bound to a functor or passed to it: a value, an object by reference, or a functor by
value. -/
inductive Argument (F W : Type) where
  | value (v : W)
  | reference (r : LimitReference F W)
  | functor (e : FunctorExpr F W)

end

variable {F W : Type}

def LimitReference.visited : LimitReference F W → Addr
  | .trackable visited | .object visited | .functor visited _ => visited

/-! ## Visitors -/

/-- What `visit_each` applies its action to. -/
inductive Visited where
  | trackable (t : Addr)
  | slot (s : SlotAddr)
  /-- a functor, a value or an object that is neither a trackable nor a slot -/
  | other
  deriving DecidableEq, Repr

mutual

/-- `visitor<limit_reference>`: what is referred to is visited, a functor by its own visitor. -/
def LimitReference.visitEach : LimitReference F W → List Visited
  | .trackable visited => [.trackable visited]
  | .object _ => [.other]
  | .functor _ e => e.visitEach

/-- `visitor<T_functor>::do_visit_each`, as the sequence of what the action is applied to. -/
def FunctorExpr.visitEach : FunctorExpr F W → List Visited
  | .pointerFunctor _ | .memFunctor _ => [.other]
  | .boundMemFunctor obj _ => obj.visitEach
  | .slot s => [.slot s]
  | .bindFunctor (some _) functor bound => functor.visitEach ++ visitFirst bound
  | .bindFunctor none functor bound => functor.visitEach ++ visitTuple bound
  | .bindReturnFunctor functor retValue => retValue.visitEach ++ functor.visitEach
  | .hideFunctor _ functor | .retypeFunctor functor | .retypeReturnFunctor functor =>
    functor.visitEach
  | .compose1Functor setter get => setter.visitEach ++ get.visitEach
  | .compose2Functor setter get1 get2 => setter.visitEach ++ get1.visitEach ++ get2.visitEach
  | .exceptionCatchFunctor functor catcher => functor.visitEach ++ catcher.visitEach
  | .trackObjFunctor functor obj => functor.visitEach ++ obj.map .trackable

/-- `visitor<bound_argument<T_type>>`. -/
def Argument.visitEach : Argument F W → List Visited
  | .value _ => [.other]
  | .reference r => r.visitEach
  | .functor e => e.visitEach

/-- `std::get<0>(target.bound_)`. -/
def visitFirst : List (Argument F W) → List Visited
  | [] => []
  | a :: _ => a.visitEach

/-- `tuple_for_each<TupleVisitorVisitEach>(target.bound_, action)`. -/
def visitTuple : List (Argument F W) → List Visited
  | [] => []
  | a :: as => a.visitEach ++ visitTuple as

end

/-- `limit_trackable_target`, and the specialisation of `visitor<slot>` for the actions of
`slot_rep`. -/
def limitTrackableTarget : Visited → Option Target
  | .trackable t => some (.trackable t)
  | .slot s => some (.slot s)
  | .other => none

/-- `visit_each_trackable`: the functor as the library looks into it. -/
def FunctorExpr.visitEachTrackable (e : FunctorExpr F W) : Functor :=
  e.visitEach.filterMap limitTrackableTarget

/-! ## Invocation -/

/-- The components of a stored functor that an adaptor reads. -/
inductive Component where
  | functor
  | bound
  | retValue
  | get
  | catcher
  deriving DecidableEq, Repr

/-- A call of an innermost function: a function pointer, a method on an object, or a slot. -/
inductive InnerCall (F W : Type) where
  | function (funcPtr : F) (a : List (Argument F W))
  | method (obj : LimitReference F W) (funcPtr : F) (a : List (Argument F W))
  | slot (s : SlotAddr) (a : List (Argument F W))

/-- What an innermost function does: the trackables it destroys, and how it ends. -/
structure Reply (F W : Type) where
  destroyed : List Addr
  result : Except Nat (Argument F W)

/-- The invocation of the functor stored in a slot.  `stored` tells whether the functor is still
stored in the `slot_rep`; `calls` are the innermost calls so far, the last one first. -/
structure Invocation (F W : Type) where
  stored : Bool := true
  calls : List (InnerCall F W) := []

/-- The surroundings of an invocation: what the stored functor depends on, how the innermost
functions behave, which may depend on the calls before, and which argument of a call the compiler
evaluates first. -/
structure Surroundings (F W : Type) where
  dependencies : Functor
  behaviour : List (InnerCall F W) → InnerCall F W → Reply F W
  get2First : Bool

/-- A component was read after the functor had been destroyed. -/
structure ReadDestroyed where
  component : Component
  deriving DecidableEq, Repr

abbrev Invoke (F W α : Type) := Prog (Invocation F W) Nat ReadDestroyed α

/-- An adaptor reads one of its components. -/
def readComponent (c : Component) : Invoke F W Unit := do
  if ← read (·.stored) then pure () else halt ⟨c⟩

/-- An innermost function runs.  When it destroys a trackable the slot depends on,
`notify_slot_rep_invalidated()` destroys the stored functor at once. -/
def innerCall (u : Surroundings F W) (c : InnerCall F W) : Invoke F W (Argument F W) := do
  let calls ← read (·.calls)
  let reply := u.behaviour calls c
  modify fun s => { stored := s.stored && reply.destroyed.all (.trackable · ∉ u.dependencies),
                    calls := c :: calls }
  match reply.result with
  | .ok v => pure v
  | .error e => throw e

/-- The arguments of the wrapped functor of a `bind_functor`; `I_location` is at most the number of
arguments, by a static assertion. -/
def bindArguments (location : Option Nat) (bound arg : List (Argument F W)) :
    List (Argument F W) :=
  match location with
  | some i => arg.take i ++ bound ++ arg.drop i
  | none => arg ++ bound

/-- The arguments of the wrapped functor of a `hide_functor`. -/
def hideArguments (location : Option Nat) (a : List (Argument F W)) : List (Argument F W) :=
  let indexIgnore := location.getD (a.length - 1)
  a.take indexIgnore ++ a.drop (indexIgnore + 1)

/-- `operator()` of a functor that is stored in a slot.  A functor is read when it is invoked. -/
def FunctorExpr.invoke (u : Surroundings F W) :
    FunctorExpr F W → List (Argument F W) → Invoke F W (Argument F W)
  | .pointerFunctor f, a | .memFunctor f, a => innerCall u (.function f a)
  | .boundMemFunctor obj f, a => innerCall u (.method obj f a)
  | .slot s, a => innerCall u (.slot s a)
  | .bindFunctor location functor bound, arg => do
    readComponent .bound
    readComponent .functor
    functor.invoke u (bindArguments location bound arg)
  | .bindReturnFunctor functor retValue, a => do
    readComponent .functor
    let _ ← functor.invoke u a
    readComponent .retValue
    pure retValue
  | .hideFunctor location functor, a => do
    readComponent .functor
    functor.invoke u (hideArguments location a)
  -- the casts of arguments and results concern their types only
  | .retypeFunctor functor, a | .retypeReturnFunctor functor, a
  | .trackObjFunctor functor _, a => do
    readComponent .functor
    functor.invoke u a
  | .compose1Functor setter get, a => do
    readComponent .get
    let v ← get.invoke u a
    readComponent .functor
    setter.invoke u [v]
  | .compose2Functor setter get1 get2, a => do
    readComponent .get
    let v ← (if u.get2First then get2.invoke u a else get1.invoke u a)
    readComponent .get
    let v' ← (if u.get2First then get1.invoke u a else get2.invoke u a)
    readComponent .functor
    setter.invoke u (if u.get2First then [v', v] else [v, v'])
  | .exceptionCatchFunctor functor catcher, a =>
    recover (do
      readComponent .functor
      functor.invoke u a) fun _ => do
      readComponent .catcher
      catcher.invoke u []

/-- `slot_call::call_it()`, on the slot that was built from `e`. -/
def FunctorExpr.callIt (u : Surroundings F W) (e : FunctorExpr F W) (a : List (Argument F W)) :
    Invoke F W (Argument F W) := do
  readComponent .functor
  e.invoke { u with dependencies := e.visitEachTrackable } a

end Sigc
