import Sigc.Adaptors

/-!
# Which references the visitors reach

`references` lists the trackables that a functor expression stores by reference, wherever they are
in it.  The visitor of `bind_functor<I>` looks at the first bound argument only, so the references
in the later ones are told apart: they are the ones that no visitor reaches.
-/

namespace Sigc

variable {F W : Type}

structure Reference where
  obj : Addr
  /-- the reference is part of a bound argument after the first of some `bind<I>` -/
  inLaterBound : Bool
  deriving DecidableEq, Repr

mutual

def LimitReference.references (later : Bool) : LimitReference F W → List Reference
  | .trackable visited => [⟨visited, later⟩]
  | .object _ => []
  | .functor _ e => e.references later

/-- The references stored in an expression that is itself part of a later bound argument if
`later` holds. -/
def FunctorExpr.references (later : Bool) : FunctorExpr F W → List Reference
  | .pointerFunctor _ | .memFunctor _ | .slot _ => []
  | .boundMemFunctor obj _ => obj.references later
  | .bindFunctor (some _) functor bound =>
    functor.references later ++ referencesFirst later bound
  | .bindFunctor none functor bound => functor.references later ++ referencesTuple later bound
  | .bindReturnFunctor functor retValue =>
    functor.references later ++ retValue.references later
  | .hideFunctor _ functor | .retypeFunctor functor | .retypeReturnFunctor functor =>
    functor.references later
  | .compose1Functor setter get => setter.references later ++ get.references later
  | .compose2Functor setter get1 get2 =>
    setter.references later ++ get1.references later ++ get2.references later
  | .exceptionCatchFunctor functor catcher =>
    functor.references later ++ catcher.references later
  | .trackObjFunctor functor obj => functor.references later ++ obj.map (⟨·, later⟩)

def Argument.references (later : Bool) : Argument F W → List Reference
  | .value _ => []
  | .reference r => r.references later
  | .functor e => e.references later

/-- The bound arguments of a `bind<I>`. -/
def referencesFirst (later : Bool) : List (Argument F W) → List Reference
  | [] => []
  | a :: as => a.references later ++ referencesTuple true as

def referencesTuple (later : Bool) : List (Argument F W) → List Reference
  | [] => []
  | a :: as => a.references later ++ referencesTuple later as

end

/-! ## Visited references -/

section Later

variable (x : Reference)

mutual

theorem LimitReference.later_of_mem : ∀ r : LimitReference F W,
    x ∈ r.references true → x.inLaterBound
  | .trackable visited, hx => by
    rw [LimitReference.references, List.mem_singleton] at hx
    rw [hx]
  | .object _, hx => by simp [LimitReference.references] at hx
  | .functor _ e, hx => e.later_of_mem hx

theorem FunctorExpr.later_of_mem : ∀ e : FunctorExpr F W, x ∈ e.references true → x.inLaterBound
  | .pointerFunctor _, hx | .memFunctor _, hx | .slot _, hx => by
    simp [FunctorExpr.references] at hx
  | .boundMemFunctor obj _, hx => obj.later_of_mem hx
  | .bindFunctor (some _) functor bound, hx =>
    (List.mem_append.mp hx).elim functor.later_of_mem (later_of_mem_first bound)
  | .bindFunctor none functor bound, hx =>
    (List.mem_append.mp hx).elim functor.later_of_mem (later_of_mem_tuple bound)
  | .bindReturnFunctor functor retValue, hx =>
    (List.mem_append.mp hx).elim functor.later_of_mem retValue.later_of_mem
  | .hideFunctor _ functor, hx | .retypeFunctor functor, hx
  | .retypeReturnFunctor functor, hx => functor.later_of_mem hx
  | .compose1Functor setter get, hx =>
    (List.mem_append.mp hx).elim setter.later_of_mem get.later_of_mem
  | .compose2Functor setter get1 get2, hx =>
    (List.mem_append.mp hx).elim
      (fun h => (List.mem_append.mp h).elim setter.later_of_mem get1.later_of_mem)
      get2.later_of_mem
  | .exceptionCatchFunctor functor catcher, hx =>
    (List.mem_append.mp hx).elim functor.later_of_mem catcher.later_of_mem
  | .trackObjFunctor functor obj, hx =>
    (List.mem_append.mp hx).elim functor.later_of_mem fun h => by
      obtain ⟨_, _, rfl⟩ := List.mem_map.mp h
      rfl

theorem Argument.later_of_mem : ∀ a : Argument F W, x ∈ a.references true → x.inLaterBound
  | .value _, hx => by simp [Argument.references] at hx
  | .reference r, hx => r.later_of_mem hx
  | .functor e, hx => e.later_of_mem hx

theorem later_of_mem_first : ∀ bound : List (Argument F W),
    x ∈ referencesFirst true bound → x.inLaterBound
  | [], hx => by simp [referencesFirst] at hx
  | a :: as, hx => (List.mem_append.mp hx).elim a.later_of_mem (later_of_mem_tuple as)

theorem later_of_mem_tuple : ∀ bound : List (Argument F W),
    x ∈ referencesTuple true bound → x.inLaterBound
  | [], hx => by simp [referencesTuple] at hx
  | a :: as, hx => (List.mem_append.mp hx).elim a.later_of_mem (later_of_mem_tuple as)

end

end Later

section Visit

variable (t : Addr)

mutual

theorem LimitReference.mem_visitEach_iff : ∀ r : LimitReference F W,
    .trackable t ∈ r.visitEach ↔ ⟨t, false⟩ ∈ r.references false
  | .trackable _ | .object _ => by simp [LimitReference.visitEach, LimitReference.references]
  | .functor _ e => e.mem_visitEach_iff

theorem FunctorExpr.mem_visitEach_iff : ∀ e : FunctorExpr F W,
    .trackable t ∈ e.visitEach ↔ ⟨t, false⟩ ∈ e.references false
  | .pointerFunctor _ | .memFunctor _ | .slot _ => by
    simp [FunctorExpr.visitEach, FunctorExpr.references]
  | .boundMemFunctor obj _ => obj.mem_visitEach_iff
  | .bindFunctor (some _) functor bound => by
    simp only [FunctorExpr.visitEach, FunctorExpr.references, List.mem_append,
      functor.mem_visitEach_iff, mem_visitFirst_iff bound]
  | .bindFunctor none functor bound => by
    simp only [FunctorExpr.visitEach, FunctorExpr.references, List.mem_append,
      functor.mem_visitEach_iff, mem_visitTuple_iff bound]
  | .bindReturnFunctor functor retValue => by
    simp only [FunctorExpr.visitEach, FunctorExpr.references, List.mem_append,
      functor.mem_visitEach_iff, retValue.mem_visitEach_iff, or_comm]
  | .hideFunctor _ functor | .retypeFunctor functor | .retypeReturnFunctor functor =>
    functor.mem_visitEach_iff
  | .compose1Functor setter get => by
    simp only [FunctorExpr.visitEach, FunctorExpr.references, List.mem_append,
      setter.mem_visitEach_iff, get.mem_visitEach_iff]
  | .compose2Functor setter get1 get2 => by
    simp only [FunctorExpr.visitEach, FunctorExpr.references, List.mem_append,
      setter.mem_visitEach_iff, get1.mem_visitEach_iff, get2.mem_visitEach_iff]
  | .exceptionCatchFunctor functor catcher => by
    simp only [FunctorExpr.visitEach, FunctorExpr.references, List.mem_append,
      functor.mem_visitEach_iff, catcher.mem_visitEach_iff]
  | .trackObjFunctor functor obj => by
    simp [FunctorExpr.visitEach, FunctorExpr.references, functor.mem_visitEach_iff]

theorem Argument.mem_visitEach_iff : ∀ a : Argument F W,
    .trackable t ∈ a.visitEach ↔ ⟨t, false⟩ ∈ a.references false
  | .value _ => by simp [Argument.visitEach, Argument.references]
  | .reference r => r.mem_visitEach_iff
  | .functor e => e.mem_visitEach_iff

/-- Only the first bound argument of a `bind<I>` is visited. -/
theorem mem_visitFirst_iff : ∀ bound : List (Argument F W),
    .trackable t ∈ visitFirst bound ↔ ⟨t, false⟩ ∈ referencesFirst false bound
  | [] => by simp [visitFirst, referencesFirst]
  | a :: as => by
    -- A reference in a later argument is marked, wherever it is inside of that argument.
    have hlater : ⟨t, false⟩ ∉ referencesTuple true as := fun h =>
      Bool.false_ne_true (later_of_mem_tuple ⟨t, false⟩ as h)
    simp only [visitFirst, referencesFirst, List.mem_append, a.mem_visitEach_iff, hlater, or_false]

theorem mem_visitTuple_iff : ∀ bound : List (Argument F W),
    .trackable t ∈ visitTuple bound ↔ ⟨t, false⟩ ∈ referencesTuple false bound
  | [] => by simp [visitTuple, referencesTuple]
  | a :: as => by
    simp only [visitTuple, referencesTuple, List.mem_append, a.mem_visitEach_iff,
      mem_visitTuple_iff as]

end

theorem FunctorExpr.mem_visitEachTrackable_iff (e : FunctorExpr F W) :
    .trackable t ∈ e.visitEachTrackable ↔ ⟨t, false⟩ ∈ e.references false := by
  rw [← e.mem_visitEach_iff, FunctorExpr.visitEachTrackable, List.mem_filterMap]
  constructor
  · rintro ⟨v, hv, hlimit⟩
    cases v <;> simp_all [limitTrackableTarget]
  · exact fun h => ⟨_, h, rfl⟩

end Visit

/-- `visit_each_trackable` applies its action to every trackable that the expression stores by
reference. -/
def FunctorExpr.Covers (e : FunctorExpr F W) : Prop :=
  ∀ x ∈ e.references false, .trackable x.obj ∈ e.visitEachTrackable

/-- It does if and only if each trackable that is stored in a later bound argument of a `bind<I>` is
stored somewhere else in the expression, too. -/
theorem FunctorExpr.covers_iff_later (e : FunctorExpr F W) : e.Covers ↔
    ∀ x ∈ e.references false, x.inLaterBound → ⟨x.obj, false⟩ ∈ e.references false := by
  constructor
  · intro hcovers x hx _
    exact (e.mem_visitEachTrackable_iff x.obj).mp (hcovers x hx)
  · rintro hlater ⟨t, later⟩ hx
    rw [e.mem_visitEachTrackable_iff]
    -- What is not in a later bound argument is visited where it stands; the rest only elsewhere.
    cases later with
    | false => exact hx
    | true => exact hlater _ hx rfl

end Sigc
