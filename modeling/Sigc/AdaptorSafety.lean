import Sigc.Adaptors

/-!
# What adaptors read after a call

`evaluate` says what a functor expression computes, without a notion of where it is stored.  An
invocation of the stored expression follows it until an adaptor reads a component that is gone;
`Spares` tells, from what the innermost functions do, when that never happens.
-/

namespace Sigc

open Reasoning Prog

variable {F W α β : Type}

/-! ## Evaluation -/

abbrev Evaluation (F W α : Type) := Except Nat α × Invocation F W

namespace Evaluation

def andThen (r : Evaluation F W α) (k : α → Invocation F W → Evaluation F W β) :
    Evaluation F W β :=
  match r with
  | (.ok v, s) => k v s
  | (.error e, s) => (.error e, s)

def orElse (r : Evaluation F W α) (k : Invocation F W → Evaluation F W α) : Evaluation F W α :=
  match r with
  | (.ok v, s) => (.ok v, s)
  | (.error _, s) => k s

/-- `P` holds of the result, if there is one. -/
def OnReturn (r : Evaluation F W α) (P : α → Invocation F W → Prop) : Prop :=
  match r with
  | (.ok v, s) => P v s
  | (.error _, _) => True

/-- `P` holds of the state in which an exception leaves the evaluation, if one does. -/
def OnThrow (r : Evaluation F W α) (P : Invocation F W → Prop) : Prop :=
  match r with
  | (.ok _, _) => True
  | (.error _, s) => P s

end Evaluation

def Surroundings.evaluate (u : Surroundings F W) (c : InnerCall F W) (s : Invocation F W) :
    Evaluation F W (Argument F W) :=
  ((u.behaviour s.calls c).result,
    { stored := s.stored && (u.behaviour s.calls c).destroyed.all (.trackable · ∉ u.dependencies),
      calls := c :: s.calls })

namespace FunctorExpr

open Evaluation

/-- What the expression computes; `stored` tells at the end whether no innermost function has
destroyed a trackable that the slot depends on. -/
def evaluate (u : Surroundings F W) :
    FunctorExpr F W → List (Argument F W) → Invocation F W → Evaluation F W (Argument F W)
  | .pointerFunctor f, a, s | .memFunctor f, a, s => u.evaluate (.function f a) s
  | .boundMemFunctor obj f, a, s => u.evaluate (.method obj f a) s
  | .slot x, a, s => u.evaluate (.slot x a) s
  | .bindFunctor location functor bound, arg, s =>
    functor.evaluate u (bindArguments location bound arg) s
  | .bindReturnFunctor functor retValue, a, s =>
    (functor.evaluate u a s).andThen fun _ s' => (.ok retValue, s')
  | .hideFunctor location functor, a, s => functor.evaluate u (hideArguments location a) s
  | .retypeFunctor functor, a, s | .retypeReturnFunctor functor, a, s
  | .trackObjFunctor functor _, a, s => functor.evaluate u a s
  | .compose1Functor setter get, a, s =>
    (get.evaluate u a s).andThen fun v s' => setter.evaluate u [v] s'
  | .compose2Functor setter get1 get2, a, s =>
    (if u.get2First then get2.evaluate u a s else get1.evaluate u a s).andThen fun v s' =>
      (if u.get2First then get1.evaluate u a s' else get2.evaluate u a s').andThen fun v' s'' =>
        setter.evaluate u (if u.get2First then [v', v] else [v, v']) s''
  | .exceptionCatchFunctor functor catcher, a, s =>
    (functor.evaluate u a s).orElse fun s' => catcher.evaluate u [] s'

/-- The innermost functions spare the stored functor as long as an adaptor is going to read it:
what a `bind_return` wraps when it returns, a getter of a `compose` when it returns, and what an
`exception_catch` wraps when it throws. -/
def Spares (u : Surroundings F W) :
    FunctorExpr F W → List (Argument F W) → Invocation F W → Prop
  | .pointerFunctor _, _, _ | .memFunctor _, _, _ | .boundMemFunctor _ _, _, _
  | .slot _, _, _ => True
  | .bindFunctor location functor bound, arg, s =>
    functor.Spares u (bindArguments location bound arg) s
  | .bindReturnFunctor functor _, a, s =>
    functor.Spares u a s ∧ (functor.evaluate u a s).OnReturn fun _ s' => s'.stored
  | .hideFunctor location functor, a, s => functor.Spares u (hideArguments location a) s
  | .retypeFunctor functor, a, s | .retypeReturnFunctor functor, a, s
  | .trackObjFunctor functor _, a, s => functor.Spares u a s
  | .compose1Functor setter get, a, s =>
    get.Spares u a s ∧
      (get.evaluate u a s).OnReturn fun v s' => s'.stored ∧ setter.Spares u [v] s'
  | .compose2Functor setter get1 get2, a, s =>
    (if u.get2First then get2.Spares u a s else get1.Spares u a s) ∧
      (if u.get2First then get2.evaluate u a s else get1.evaluate u a s).OnReturn fun v s' =>
        s'.stored ∧ (if u.get2First then get1.Spares u a s' else get2.Spares u a s') ∧
          (if u.get2First then get1.evaluate u a s' else get2.evaluate u a s').OnReturn
            fun v' s'' => s''.stored ∧
              setter.Spares u (if u.get2First then [v', v] else [v, v']) s''
  | .exceptionCatchFunctor functor catcher, a, s =>
    functor.Spares u a s ∧
      (functor.evaluate u a s).OnThrow fun s' => s'.stored ∧ catcher.Spares u [] s'

end FunctorExpr

/-! ## An invocation follows the evaluation -/

def ofExcept : Except Nat α → Outcome Nat ReadDestroyed α
  | .ok v => .ret v
  | .error e => .throw e

/-- Run in `s`, the program ends with `r` if `p` holds; otherwise it reads a destroyed component. -/
def Follows (x : Invoke F W α) (p : Prop) (r : Evaluation F W α) (s : Invocation F W) : Prop :=
  (p → x s = (ofExcept r.1, r.2)) ∧ (¬p → ∃ c s', x s = (.halt c, s'))

variable {x : Invoke F W α} {p : Prop} {r : Evaluation F W α} {s : Invocation F W}

theorem Follows.bind {f : α → Invoke F W β} {q : α → Invocation F W → Prop}
    {k : α → Invocation F W → Evaluation F W β} (hx : Follows x p r s)
    (hf : ∀ v s', r = (.ok v, s') → Follows (f v) (q v s') (k v s') s') :
    Follows (x >>= f) (p ∧ r.OnReturn q) (r.andThen k) s := by
  by_cases hp : p
  · have hrun := hx.1 hp
    -- An exception leaves the whole; a result is handed on to the rest.
    rcases r with ⟨e | v, s'⟩
    · exact ⟨fun _ => bind_of_throw hrun, fun h => absurd ⟨hp, trivial⟩ h⟩
    · have hrest := hf v s' rfl
      rw [Follows, bind_of_ret hrun]
      exact ⟨fun h => hrest.1 h.2, fun h => hrest.2 fun hq => h ⟨hp, hq⟩⟩
  · obtain ⟨c, s', hrun⟩ := hx.2 hp
    exact ⟨fun h => absurd h.1 hp, fun _ => ⟨c, s', bind_of_halt hrun⟩⟩

theorem Follows.recover {h : Nat → Invoke F W α} {q : Invocation F W → Prop}
    {k : Invocation F W → Evaluation F W α} (hx : Follows x p r s)
    (hh : ∀ e s', r = (.error e, s') → Follows (h e) (q s') (k s') s') :
    Follows (Prog.recover x h) (p ∧ r.OnThrow q) (r.orElse k) s := by
  by_cases hp : p
  · have hrun := hx.1 hp
    -- Only an exception is caught.
    rcases r with ⟨e | v, s'⟩
    · have hrest := hh e s' rfl
      have hrec : Prog.recover x h s = h e s' := by simp only [Prog.recover, hrun, ofExcept]
      refine ⟨fun hq => ?_, fun hq => ?_⟩
      · rw [hrec]
        exact hrest.1 hq.2
      · rw [hrec]
        exact hrest.2 fun hq' => hq ⟨hp, hq'⟩
    · refine ⟨fun _ => ?_, fun hq => absurd ⟨hp, trivial⟩ hq⟩
      simp only [Prog.recover, hrun, ofExcept, Evaluation.orElse]
  · obtain ⟨c, s', hrun⟩ := hx.2 hp
    refine ⟨fun hq => absurd hq.1 hp, fun _ => ⟨c, s', ?_⟩⟩
    simp only [Prog.recover, hrun]

theorem readComponent_run (c : Component) (s : Invocation F W) :
    readComponent c s = if s.stored then (.ret (), s) else (.halt ⟨c⟩, s) := by
  unfold readComponent
  rw [read_bind_run]
  split <;> rfl

/-- A component is read before `x` runs. -/
theorem Follows.read (c : Component) (hx : s.stored → Follows x p r s) :
    Follows (do readComponent c; x) (s.stored ∧ p) r s := by
  have hread := readComponent_run c s
  by_cases hs : s.stored = true
  · rw [if_pos hs] at hread
    rw [Follows, bind_of_ret hread]
    exact ⟨fun h => (hx hs).1 h.2, fun h => (hx hs).2 fun hp => h ⟨hs, hp⟩⟩
  · rw [if_neg hs] at hread
    exact ⟨fun h => absurd h.1 hs, fun _ => ⟨⟨c⟩, s, bind_of_halt hread⟩⟩

theorem Follows.read_stored (c : Component) (hs : s.stored) (hx : Follows x p r s) :
    Follows (do readComponent c; x) p r s := by
  simpa [hs] using Follows.read c fun _ => hx

theorem follows_pure (v : α) (s : Invocation F W) :
    Follows (pure v : Invoke F W α) True (.ok v, s) s :=
  ⟨fun _ => rfl, fun h => absurd trivial h⟩

theorem follows_innerCall (u : Surroundings F W) (c : InnerCall F W) (s : Invocation F W) :
    Follows (innerCall u c) True (u.evaluate c s) s := by
  refine ⟨fun _ => ?_, fun h => absurd trivial h⟩
  unfold innerCall
  rw [read_bind_run, modify_bind_run]
  cases h : (u.behaviour s.calls c).result <;> simp [h, Surroundings.evaluate, ofExcept]

/-- Invoked while it is stored, an expression computes what it evaluates to, unless the innermost
functions do not spare it. -/
theorem FunctorExpr.follows (u : Surroundings F W) :
    ∀ (e : FunctorExpr F W) (a : List (Argument F W)) (s : Invocation F W), s.stored →
      Follows (e.invoke u a) (e.Spares u a s) (e.evaluate u a s) s
  | .pointerFunctor _, _, s, _ | .memFunctor _, _, s, _ | .boundMemFunctor _ _, _, s, _
  | .slot _, _, s, _ => follows_innerCall u _ s
  | .bindFunctor _ functor _, _, s, hs =>
    (Follows.read_stored _ hs ((functor.follows u _ s hs).read_stored _ hs))
  | .hideFunctor _ functor, _, s, hs | .retypeFunctor functor, _, s, hs
  | .retypeReturnFunctor functor, _, s, hs | .trackObjFunctor functor _, _, s, hs =>
    (functor.follows u _ s hs).read_stored _ hs
  | .bindReturnFunctor functor retValue, a, s, hs => by
    refine Follows.read_stored _ hs ((functor.follows u a s hs).bind fun _ s' _ => ?_)
    simpa using Follows.read .retValue fun _ => follows_pure retValue s'
  | .compose1Functor setter get, a, s, hs => by
    refine Follows.read_stored _ hs ((get.follows u a s hs).bind fun v s' _ => ?_)
    exact Follows.read _ fun hs' => setter.follows u [v] s' hs'
  | .compose2Functor setter get1 get2, a, s, hs => by
    -- Whichever getter is evaluated first, the other one and the setter are read after it.
    refine Follows.read_stored _ hs (Follows.bind ?_ fun v s' _ => ?_)
    · split
      · exact get2.follows u a s hs
      · exact get1.follows u a s hs
    · refine Follows.read _ fun hs' => Follows.bind ?_ fun v' s'' _ => ?_
      · split
        · exact get1.follows u a s' hs'
        · exact get2.follows u a s' hs'
      · exact Follows.read _ fun hs'' => setter.follows u _ s'' hs''
  | .exceptionCatchFunctor functor catcher, a, s, hs => by
    refine Follows.recover ((functor.follows u a s hs).read_stored _ hs) fun _ s' _ => ?_
    exact Follows.read _ fun hs' => catcher.follows u [] s' hs'

/-- A method that deletes its own object. -/
def deleteThis : Surroundings Nat Nat where
  dependencies := []
  behaviour _ c :=
    match c with
    | .method obj _ _ => ⟨[obj.visited], .ok (.value 0)⟩
    | _ => ⟨[], .ok (.value 0)⟩
  get2First := false

/-- The adaptors that use none of their components after the wrapped functor has been called. -/
def FunctorExpr.readsLast : FunctorExpr F W → Bool
  | .pointerFunctor _ | .memFunctor _ | .boundMemFunctor _ _ | .slot _ => true
  | .bindFunctor _ functor _ | .hideFunctor _ functor | .retypeFunctor functor
  | .retypeReturnFunctor functor | .trackObjFunctor functor _ => functor.readsLast
  | .bindReturnFunctor _ _ | .compose1Functor _ _ | .compose2Functor _ _ _
  | .exceptionCatchFunctor _ _ => false

/-- Built from these adaptors only, an expression is safe whatever the innermost functions do. -/
theorem FunctorExpr.spares_of_readsLast (u : Surroundings F W) :
    ∀ (e : FunctorExpr F W) (a : List (Argument F W)) (s : Invocation F W), e.readsLast →
      e.Spares u a s
  | .pointerFunctor _, _, _, _ | .memFunctor _, _, _, _ | .boundMemFunctor _ _, _, _, _
  | .slot _, _, _, _ => trivial
  | .bindFunctor _ functor _, _, s, h | .hideFunctor _ functor, _, s, h
  | .retypeFunctor functor, _, s, h | .retypeReturnFunctor functor, _, s, h
  | .trackObjFunctor functor _, _, s, h => functor.spares_of_readsLast u _ s h

end Sigc
