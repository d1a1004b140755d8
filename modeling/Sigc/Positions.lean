import Sigc.Tuples

/-!
# Positions of arguments

`bind` and `hide`, whose functors cut the tuple of their arguments and put it together again.  The
arguments may be anything, and a call has its effects in any monad.
-/

namespace Sigc

variable {α β : Type}

/-! ## Adaptors -/

structure BoundArgument (α : Type) where
  visited : α

def BoundArgument.invoke (element : BoundArgument α) : α := element.visited

inductive Positional (α : Type) where
  | innermost
  | bindFunctor (location : Int32) (functor : Positional α) (bound : List (BoundArgument α))
  | hideFunctor (location : Int32) (functor : Positional α)

/-- The conversion of an `int` to `std::size_t`. -/
def toSize (location : Int32) : Nat := (location.toInt % 2 ^ 64).toNat

section Call

variable {m : Type → Type} [Monad m]

/-- `TransformEachInvoker`. -/
def invokeEach (element : BoundArgument α) : m (α × BoundArgument α) :=
  pure (element.invoke, element)

/-- `tuple_transform_each<TransformEachInvoker>(bound_)`.  A bound argument that is still one is
nothing that a functor takes. -/
def invokeBound (bound : List (BoundArgument α)) : OptionT m (List α) := do
  let (transformed, _) ← tupleTransformEach invokeEach bound
  require (transformed.mapM Sum.getRight?)

/-- `operator()`, where `f` is the innermost functor. -/
def Positional.call (f : List α → m β) : Positional α → List α → OptionT m β
  | innermost, arg => OptionT.lift (f arg)
  | bindFunctor location functor bound, tArgs =>
    if location = -1 then do
      -- the specialization for the last position
      let tBound ← invokeBound bound
      functor.call f (tArgs ++ tBound)
    else do
      let tArgsSize := tArgs.length
      staticAssert (toSize location ≤ tArgsSize)
      let tStart ← require (tupleStart (toSize location) tArgs)
      let tBound ← invokeBound bound
      let tEnd ← require (tupleEnd (sizeSub tArgsSize (toSize location)) tArgs)
      functor.call f (tStart ++ tBound ++ tEnd)
  | hideFunctor location functor, t => do
    let size := t.length
    let indexIgnore := if location = -1 then sizeSub size 1 else toSize location
    let tStart ← require (tupleStart indexIgnore t)
    let tEnd ← require (tupleEnd (sizeSub (sizeSub size indexIgnore) 1) t)
    functor.call f (tStart ++ tEnd)

end Call

/-! ## Positions that compile -/

/-- The positions that the assertions admit, for this number of arguments. -/
def Positional.Admits : Positional α → Nat → Prop
  | innermost, _ => True
  | bindFunctor location functor bound, size =>
    (location = -1 ∨ 0 ≤ location.toInt ∧ location.toInt ≤ size) ∧
      functor.Admits (size + bound.length)
  | hideFunctor location functor, size =>
    (location = -1 ∧ 0 < size ∨ 0 ≤ location.toInt ∧ location.toInt < size) ∧
      functor.Admits (size - 1)

/-- The bound values before the argument at a position, or behind the last one. -/
def insertBound (location : Int32) (bound args : List α) : List α :=
  if location = -1 then args ++ bound
  else args.take location.toInt.toNat ++ bound ++ args.drop location.toInt.toNat

/-- The arguments without the one at a position, or without the last one. -/
def dropIgnored (location : Int32) (args : List α) : List α :=
  if location = -1 then args.dropLast else args.eraseIdx location.toInt.toNat

/-- The arguments that reach the innermost functor. -/
def Positional.arguments : Positional α → List α → List α
  | innermost, args => args
  | bindFunctor location functor bound, args =>
    functor.arguments (insertBound location (bound.map (·.invoke)) args)
  | hideFunctor location functor, args => functor.arguments (dropIgnored location args)

@[simp] theorem length_insertBound (location : Int32) (bound args : List α) :
    (insertBound location bound args).length = args.length + bound.length := by
  unfold insertBound
  split
  · rw [List.length_append]
  · rw [List.length_append, List.length_append, List.length_take, List.length_drop]
    omega

theorem length_dropIgnored {location : Int32} {args : List α}
    (h : location = -1 ∧ 0 < args.length ∨
      0 ≤ location.toInt ∧ location.toInt < args.length) :
    (dropIgnored location args).length = args.length - 1 := by
  unfold dropIgnored
  split
  · rw [List.length_dropLast]
  · rename_i hne
    cases h with
    | inl hlast => exact absurd hlast.1 hne
    | inr hrange => rw [List.length_eraseIdx_of_lt (by omega)]

theorem toSize_of_nonneg {location : Int32} (h : 0 ≤ location.toInt) :
    toSize location = location.toInt.toNat := by
  have hlt := location.toInt_lt
  rw [toSize, Int.emod_eq_of_lt h (by omega)]

theorem toSize_of_neg {location : Int32} (h : location.toInt < 0) :
    2 ^ 64 - 2 ^ 31 ≤ toSize location := by
  have hle := location.le_toInt
  rw [toSize, ← Int.add_emod_right, Int.emod_eq_of_lt (by omega) (by omega)]
  omega

/-! ## Calls -/

section Calls

variable {m : Type → Type} [Monad m] [LawfulMonad m]

theorem mapM_invokeEach (bound : List (BoundArgument α)) :
    bound.mapM (invokeEach (m := m)) = pure (bound.map fun b => (b.invoke, b)) := by
  induction bound with
  | nil => rw [List.mapM_nil, List.map_nil]
  | cons b bound ih =>
    rw [List.mapM_cons, ih, invokeEach, pure_bind, pure_bind, List.map_cons]

theorem mapM_getRight? (xs : List α) :
    (xs.map (.inr : α → BoundArgument α ⊕ α)).mapM Sum.getRight? = some xs := by
  induction xs with
  | nil => rfl
  | cons x xs ih =>
    rw [List.map_cons, List.mapM_cons, ih]
    rfl

theorem invokeBound_eq (bound : List (BoundArgument α)) :
    invokeBound (m := m) bound = pure (bound.map (·.invoke)) := by
  rw [invokeBound, tupleTransformEach_mapM, mapM_invokeEach, pure_bind, OptionT.lift_pure]
  have hmap : (bound.map fun b => (b.invoke, b)).map (.inr ·.1) =
      (bound.map (·.invoke)).map (.inr : α → BoundArgument α ⊕ α) := by
    rw [List.map_map, List.map_map]
    rfl
  rw [pure_bind]
  show require (List.mapM _ _) = _
  rw [hmap, mapM_getRight?]
  rfl

/-- The cut of `hide`, at any index that there is. -/
theorem hide_cut {i : Nat} {t : List α} (h : i < t.length) (k : List α → OptionT m β) :
    (do
      let tStart ← require (tupleStart i t)
      let tEnd ← require (tupleEnd (sizeSub (sizeSub t.length i) 1) t)
      k (tStart ++ tEnd)) = k (t.eraseIdx i) := by
  have hend : sizeSub (sizeSub t.length i) 1 = t.length - i - 1 := by
    rw [sizeSub_of_le (b := i) (by omega), sizeSub_of_le (by omega)]
  have hdrop : t.length - (t.length - i - 1) = i + 1 := by omega
  rw [tupleStart_eq (by omega), hend, tupleEnd_eq (by omega), require_some, require_some,
    pure_bind, pure_bind, hdrop, List.eraseIdx_eq_take_drop_succ]

theorem Positional.call_bindFunctor (f : List α → m β) (e : Positional α)
    (bound : List (BoundArgument α)) {location : Int32} {args : List α}
    (h : location = -1 ∨ 0 ≤ location.toInt ∧ location.toInt ≤ args.length) :
    (bindFunctor location e bound).call f args =
      e.call f (insertBound location (bound.map (·.invoke)) args) := by
  rw [call, insertBound]
  split
  · rw [invokeBound_eq, pure_bind]
  · rename_i hne
    cases h with
    | inl hlast => exact absurd hlast hne
    | inr hrange =>
      have hle : location.toInt.toNat ≤ args.length := by omega
      have hend : args.length - (args.length - location.toInt.toNat) = location.toInt.toNat := by
        omega
      simp only [toSize_of_nonneg hrange.1, sizeSub_of_le hle, staticAssert, if_pos hle,
        tupleStart_eq hle, tupleEnd_eq (Nat.sub_le ..), require_some, pure_bind, invokeBound_eq,
        hend]

theorem Positional.call_hideFunctor (f : List α → m β) (e : Positional α) {location : Int32}
    {args : List α}
    (h : location = -1 ∧ 0 < args.length ∨
      0 ≤ location.toInt ∧ location.toInt < args.length) :
    (hideFunctor location e).call f args = e.call f (dropIgnored location args) := by
  rw [call, dropIgnored]
  split
  · have hpos : 0 < args.length := by omega
    have hindex : sizeSub args.length 1 = args.length - 1 := sizeSub_of_le hpos
    simp only [hindex]
    rw [hide_cut (by omega), List.eraseIdx_length_sub_one]
  · rename_i hne
    cases h with
    | inl hlast => exact absurd hlast.1 hne
    | inr hrange =>
      simp only [toSize_of_nonneg hrange.1]
      rw [hide_cut (by omega)]

theorem Positional.call_eq (f : List α → m β) (e : Positional α) :
    ∀ {args : List α}, e.Admits args.length →
      e.call f args = OptionT.lift (f (e.arguments args)) := by
  -- from the innermost functor outwards: each adaptor only rearranges the arguments
  induction e with
  | innermost =>
    intro args _
    rfl
  | bindFunctor location functor bound ih =>
    intro args h
    rw [call_bindFunctor f functor bound h.1, arguments]
    apply ih
    rw [length_insertBound, List.length_map]
    exact h.2
  | hideFunctor location functor ih =>
    intro args h
    rw [call_hideFunctor f functor h.1, arguments]
    apply ih
    rw [length_dropIgnored h.1]
    exact h.2

/-! ### Positions that do not compile -/

def Positional.boundCount : Positional α → Nat
  | innermost => 0
  | bindFunctor _ functor bound => functor.boundCount + bound.length
  | hideFunctor _ functor => functor.boundCount

theorem failure_bind {γ δ : Type} (k : γ → OptionT m δ) :
    (failure : OptionT m γ) >>= k = failure := by
  apply OptionT.ext
  simp

theorem hide_cut_none {i : Nat} {t : List α} (h : t.length ≤ i) (hsize : t.length < 2 ^ 63)
    (k : List α → OptionT m β) :
    (do
      let tStart ← require (tupleStart i t)
      let tEnd ← require (tupleEnd (sizeSub (sizeSub t.length i) 1) t)
      k (tStart ++ tEnd)) = failure := by
  by_cases hi : t.length < i
  · rw [tupleStart_none hi]
    exact failure_bind _
  · -- all of the arguments are in the start, and the number of those behind it wraps around
    obtain rfl : i = t.length := by omega
    have hwrap : sizeSub (sizeSub t.length t.length) 1 = 2 ^ 64 - 1 := by
      rw [sizeSub_of_le (Nat.le_refl _), Nat.sub_self]
      rfl
    rw [hwrap, tupleStart_eq (Nat.le_refl _), tupleEnd_none (by omega), require_some, pure_bind]
    exact failure_bind _

/-- Where the index is out of range, also as a number of type `std::size_t`. -/
theorem le_toSize {location : Int32} {n : Nat} (hn : n ≤ 2 ^ 63)
    (h : ¬(0 ≤ location.toInt ∧ location.toInt < n)) : n ≤ toSize location := by
  by_cases hneg : location.toInt < 0
  · have hle := toSize_of_neg hneg
    omega
  · rw [toSize_of_nonneg (by omega)]
    omega

theorem Positional.call_of_not_admits (f : List α → m β) (e : Positional α) :
    ∀ {args : List α}, args.length + e.boundCount < 2 ^ 63 → ¬e.Admits args.length →
      e.call f args = failure := by
  induction e with
  | innermost =>
    intro args _ h
    exact absurd trivial h
  | bindFunctor location functor bound ih =>
    intro args hsize h
    -- This position may be admitted, and an inner one refused.
    by_cases hposition : location = -1 ∨ 0 ≤ location.toInt ∧ location.toInt ≤ args.length
    · rw [call_bindFunctor f functor bound hposition]
      apply ih
      · rw [boundCount] at hsize
        rw [length_insertBound, List.length_map]
        omega
      · intro hinner
        rw [length_insertBound, List.length_map] at hinner
        exact h ⟨hposition, hinner⟩
    · have hne : location ≠ -1 := fun hlast => hposition (.inl hlast)
      have hrange : ¬(0 ≤ location.toInt ∧ location.toInt < (args.length + 1 : Nat)) := by
        intro hrange
        exact hposition (.inr ⟨hrange.1, by omega⟩)
      -- As a size the position is too large, so that the static_assert fails.
      have hlt : ¬toSize location ≤ args.length := by
        have hle := le_toSize (by omega) hrange
        omega
      rw [call, if_neg hne]
      simp only [staticAssert, if_neg hlt]
      exact failure_bind _
  | hideFunctor location functor ih =>
    intro args hsize h
    rw [boundCount] at hsize
    by_cases hposition : location = -1 ∧ 0 < args.length ∨
        0 ≤ location.toInt ∧ location.toInt < args.length
    · rw [call_hideFunctor f functor hposition]
      apply ih
      · rw [length_dropIgnored hposition]
        omega
      · intro hinner
        rw [length_dropIgnored hposition] at hinner
        exact h ⟨hposition, hinner⟩
    · rw [call]
      apply hide_cut_none
      · split
        · rename_i hlast
          have hzero : args.length = 0 := by
            by_contra hpos
            exact hposition (.inl ⟨hlast, by omega⟩)
          rw [hzero]
          exact Nat.zero_le _
        · apply le_toSize (by omega)
          intro hrange
          exact hposition (.inr hrange)
      · omega

end Calls

/-! ## Nestings -/

/-- A value that is bound where an argument is hidden is the one that is hidden. -/
theorem dropIgnored_insertBound {location : Int32} {args : List α} (b : α)
    (h : location = -1 ∨ 0 ≤ location.toInt ∧ location.toInt ≤ args.length) :
    dropIgnored location (insertBound location [b] args) = args := by
  unfold dropIgnored insertBound
  split
  · rw [List.dropLast_concat]
  · rename_i hne
    cases h with
    | inl hlast => exact absurd hlast hne
    | inr hrange =>
      have hlength : (args.take location.toInt.toNat).length = location.toInt.toNat := by
        rw [List.length_take]
        omega
      rw [List.append_assoc, List.eraseIdx_append_of_length_le (by omega), hlength, Nat.sub_self]
      show args.take _ ++ args.drop _ = args
      rw [List.take_append_drop]

theorem Positional.compose {m : Type → Type} [Monad m] [LawfulMonad m] (f : List α → m β)
    (e : Positional α) (args : List α) (h : e.Admits args.length) :
    e.call f args = OptionT.lift (f (e.arguments args)) ∧
      ∀ (location : Int32) (b : BoundArgument α),
        (bindFunctor location (hideFunctor location e) [b]).Admits args.length →
          (bindFunctor location (hideFunctor location e) [b]).call f args =
            OptionT.lift (f (e.arguments args)) := by
  apply And.intro (e.call_eq f h)
  intro location b hposition
  rw [call_eq f _ hposition, arguments, arguments, List.map_singleton,
    dropIgnored_insertBound _ hposition.1]

/-- `bind<1>(hide<0>(f), 7, 8)` of three arguments. -/
theorem Positional.compose_bind_hide :
    (bindFunctor 1 (hideFunctor 0 .innermost) [⟨7⟩, ⟨8⟩]).call (m := Id) (pure : List Nat → Id _)
      [1, 2, 3] = pure [7, 8, 2, 3] := by
  refine (compose (m := Id) pure _ [1, 2, 3] ?_).1
  exact ⟨.inr (by decide), .inr (by decide), trivial⟩

end Sigc
