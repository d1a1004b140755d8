import Mathlib.Control.Lawful
import Mathlib.Data.List.TakeDrop
import Mathlib.Algebra.Group.Nat.Defs
import Mathlib.Algebra.Group.Int.Defs

/-!
# Tuples

`tuple_start`, `tuple_cdr`, `tuple_end` and `tuple_transform_each`.  A `std::tuple` is a list here,
of elements of any type, and a `static_assert` that does not hold is a failure.
-/

namespace Sigc

variable {α β : Type}

/-! ## Sizes -/

/-- The difference of two numbers of type `std::size_t`. -/
def sizeSub (a b : Nat) : Nat := if b ≤ a then a - b else 2 ^ 64 - (b - a)

@[simp] theorem sizeSub_of_le {a b : Nat} (h : b ≤ a) : sizeSub a b = a - b := if_pos h

/-! ## Parts of a tuple -/

/-- `start(std::get<I>(t)...)`, for the indices below `len`. -/
def tupleStart (len : Nat) (t : List α) : Option (List α) :=
  if len ≤ t.length then (List.range len).mapM (t[·]?) else none

def tupleCdr : List α → Option (List α)
  | [] => none
  | _ :: t => some t

def tupleEnd (len : Nat) (t : List α) : Option (List α) :=
  if len ≤ t.length then
    if len = 0 then some []
    else if sizeSub t.length len = 0 then some t
    else if sizeSub t.length len = 1 then tupleCdr t
    else match t with
      -- a tuple with nothing in it has been returned above
      | [] => none
      | _ :: cdr => tupleEnd len cdr
  else none

theorem tupleStart_eq {len : Nat} {t : List α} (h : len ≤ t.length) :
    tupleStart len t = some (t.take len) := by
  rw [tupleStart, if_pos h]
  induction len with
  | zero => rfl
  | succ n ih =>
    have hn : n < t.length := h
    have hget : t[n]? = some t[n] := List.getElem?_eq_getElem hn
    rw [List.range_succ, List.mapM_append, ih (by omega), List.take_add_one, hget]
    show (List.mapM (t[·]?) [n]).bind _ = _
    rw [List.mapM_cons, List.mapM_nil, hget]
    rfl

theorem tupleEnd_eq {len : Nat} {t : List α} (h : len ≤ t.length) :
    tupleEnd len t = some (t.drop (t.length - len)) := by
  induction t with
  | nil =>
    obtain rfl : len = 0 := by simpa using h
    rfl
  | cons x t ih =>
    unfold tupleEnd
    rw [if_pos h, sizeSub_of_le h]
    split
    · rename_i h0
      simp [h0]
    · split
      · rename_i hall
        rw [hall, List.drop_zero]
      · split
        · rename_i hone
          rw [hone]
          rfl
        · -- more than one element is left out, the first of them here
          rw [List.length_cons] at *
          have hlen : len ≤ t.length := by omega
          have hdrop : t.length + 1 - len = t.length - len + 1 := by omega
          show tupleEnd len t = _
          rw [ih hlen, hdrop, List.drop_succ_cons]

theorem tupleStart_none {len : Nat} {t : List α} (h : t.length < len) : tupleStart len t = none :=
  if_neg (by omega)

theorem tupleEnd_none {len : Nat} {t : List α} (h : t.length < len) : tupleEnd len t = none := by
  unfold tupleEnd
  rw [if_neg (by omega)]

/-! ## Transformations -/

section Transform

variable {m : Type → Type} [Monad m]

/-- A part of a tuple, where there may be none. -/
def require {γ : Type} (x : Option γ) : OptionT m γ := OptionT.mk (pure x)

def staticAssert (p : Prop) [Decidable p] : OptionT m Unit := require (if p then some () else none)

/-- `tuple_transform_each_impl<T_transformer, size_from_index>`.  A transformer gives a new element
and leaves something in the place of the one it was given.  `t` holds both transformed elements
and copies of others, `tOriginal` is the tuple itself, and the result comes with what is left in
it. -/
def tupleTransformEachImpl (transform : α → m (β × α)) :
    Nat → List (α ⊕ β) → List α → OptionT m (List (α ⊕ β) × List α)
  | 0, t, tOriginal => pure (t, tOriginal)
  | n + 1, t, tOriginal => do
    let sizeFromIndex := n + 1
    let size := t.length
    let index := sizeSub size sizeFromIndex
    let element ← require tOriginal[index]?
    let (transformed, left) ← OptionT.lift (transform element)
    let tOriginal := tOriginal.set index left
    if sizeFromIndex = 1 then do
      let tupleRest ← require (tupleStart (sizeSub size 1) t)
      pure (tupleRest ++ [.inr transformed], tOriginal)
    else do
      let tStart ← require (tupleStart index t)
      let tEnd ← require (tupleEnd (sizeSub (sizeSub size index) 1) t)
      tupleTransformEachImpl transform n (tStart ++ [.inr transformed] ++ tEnd) tOriginal

def tupleTransformEach (transform : α → m (β × α)) (t : List α) :
    OptionT m (List (α ⊕ β) × List α) :=
  tupleTransformEachImpl transform t.length (t.map .inl) t

/-! ### The mixed tuple -/

/-- The results of the calls so far, in front of copies of the elements still to come. -/
def mixed (done : List (β × α)) (rest : List α) : List (α ⊕ β) :=
  done.map (.inr ·.1) ++ rest.map .inl

/-- The original tuple at the same time. -/
def touched (done : List (β × α)) (rest : List α) : List α :=
  done.map (·.2) ++ rest

@[simp] theorem length_mixed (done : List (β × α)) (rest : List α) :
    (mixed done rest).length = done.length + rest.length := by
  simp [mixed]

theorem require_some {γ : Type} [LawfulMonad m] (x : γ) : require (m := m) (some x) = pure x := rfl

theorem touched_next (done : List (β × α)) (x : α) (rest : List α) :
    (touched done (x :: rest))[done.length]? = some x := by
  simp [touched]

theorem touched_set (done : List (β × α)) (x : α) (rest : List α) (r : β × α) :
    (touched done (x :: rest)).set done.length r.2 = touched (done ++ [r]) rest := by
  simp [touched]

theorem tupleStart_mixed (done : List (β × α)) (rest : List α) :
    tupleStart done.length (mixed done rest) = some (done.map (.inr ·.1)) := by
  rw [tupleStart_eq (by rw [length_mixed]; omega), mixed]
  simp

theorem tupleEnd_mixed (done : List (β × α)) (x : α) (rest : List α) :
    tupleEnd rest.length (mixed done (x :: rest)) = some (rest.map .inl) := by
  rw [tupleEnd_eq (by rw [length_mixed, List.length_cons]; omega), length_mixed]
  have hdrop : done.length + (x :: rest).length - rest.length = done.length + 1 := by
    rw [List.length_cons]
    omega
  rw [hdrop, mixed, List.map_cons, List.append_cons, List.drop_left' (by simp)]

variable [LawfulMonad m]

/-- One step of the recursion, also where it is the last one. -/
theorem tupleTransformEachImpl_cons (transform : α → m (β × α)) (done : List (β × α)) (x : α)
    (rest : List α) :
    tupleTransformEachImpl transform (x :: rest).length (mixed done (x :: rest))
        (touched done (x :: rest)) = (do
      let r ← OptionT.lift (transform x)
      tupleTransformEachImpl transform rest.length (mixed (done ++ [r]) rest)
        (touched (done ++ [r]) rest)) := by
  have hsize : (mixed done (x :: rest)).length = done.length + rest.length + 1 := by
    rw [length_mixed, List.length_cons]
    omega
  have hindex : sizeSub (mixed done (x :: rest)).length (rest.length + 1) = done.length := by
    rw [hsize, sizeSub_of_le (by omega)]
    omega
  rw [List.length_cons, tupleTransformEachImpl]
  simp only [hindex, touched_next, require_some, pure_bind, touched_set]
  congr 1
  ext1 r
  split
  · -- the last element: nothing but it is left out of the start
    rename_i hlast
    obtain rfl : rest = [] := List.length_eq_zero_iff.mp (by omega)
    rw [hsize, sizeSub_of_le (by simp), List.length_nil, Nat.add_zero, Nat.add_sub_cancel,
      tupleStart_mixed, require_some, pure_bind]
    show _ = pure (mixed (done ++ [r]) [], _)
    simp [mixed]
  · have hend : sizeSub (sizeSub (mixed done (x :: rest)).length done.length) 1 = rest.length := by
      rw [hsize, sizeSub_of_le (b := done.length) (by omega), sizeSub_of_le (by omega)]
      omega
    rw [hend, tupleStart_mixed, tupleEnd_mixed, require_some, require_some, pure_bind, pure_bind]
    congr 1
    simp [mixed]

/-- The invariant of the recursion: what is left to do is to transform the rest of the original
tuple, in its order. -/
theorem tupleTransformEachImpl_mixed (transform : α → m (β × α)) (rest : List α) :
    ∀ done : List (β × α),
      tupleTransformEachImpl transform rest.length (mixed done rest) (touched done rest) =
        OptionT.lift (do
          let rs ← rest.mapM transform
          pure (mixed (done ++ rs) [], touched (done ++ rs) [])) := by
  induction rest with
  | nil =>
    intro done
    show pure _ = _
    simp [List.mapM_nil]
  | cons x rest ih =>
    intro done
    rw [tupleTransformEachImpl_cons]
    simp only [ih, ← OptionT.lift_bind, List.mapM_cons, bind_assoc, pure_bind, List.append_assoc,
      List.singleton_append]

/-- The transformation of a tuple is the map over the original tuple, in its order. -/
theorem tupleTransformEach_mapM (transform : α → m (β × α)) (t : List α) :
    tupleTransformEach transform t =
      OptionT.lift (do
        let rs ← t.mapM transform
        pure (rs.map (.inr ·.1), rs.map (·.2))) := by
  have h := tupleTransformEachImpl_mixed transform t []
  simp only [mixed, touched, List.map_nil, List.nil_append, List.append_nil] at h
  exact h

end Transform

/-! ### The order of the calls -/

/-- A transformer that keeps a list of the elements that it has been called with. -/
def recorded (f : α → β × α) (x : α) : StateM (List α) (β × α) := fun calls =>
  (f x, calls ++ [x])

theorem mapM_recorded (f : α → β × α) (t : List α) :
    ∀ calls : List α, (t.mapM (recorded f)).run calls = (t.map f, calls ++ t) := by
  induction t with
  | nil =>
    intro calls
    rw [List.mapM_nil, List.map_nil, List.append_nil]
    rfl
  | cons x t ih =>
    intro calls
    rw [List.mapM_cons]
    show (List.mapM (recorded f) t >>= fun rs => pure (f x :: rs)).run (calls ++ [x]) = _
    rw [StateT.run_bind, ih]
    show (f x :: t.map f, calls ++ [x] ++ t) = _
    rw [List.append_assoc]
    rfl

theorem tupleTransformEach_in_order {m : Type → Type} [Monad m] [LawfulMonad m]
    (transform : α → m (β × α)) (t : List α) :
    tupleTransformEach transform t =
        OptionT.lift (do
          let rs ← t.mapM transform
          pure (rs.map (.inr ·.1), rs.map (·.2))) ∧
      ∀ (f : α → β × α) (calls : List α),
        (tupleTransformEach (recorded f) t).run.run calls =
          (some (t.map fun x => .inr (f x).1, t.map fun x => (f x).2), calls ++ t) := by
  apply And.intro (tupleTransformEach_mapM transform t)
  intro f calls
  rw [tupleTransformEach_mapM, OptionT.run_lift, StateT.run_bind, StateT.run_bind, mapM_recorded]
  show (some ((t.map f).map _, (t.map f).map _), calls ++ t) = _
  rw [List.map_map, List.map_map]
  rfl

theorem tupleTransformEach_in_order_twice :
    tupleTransformEach (m := Id) (fun x : Nat => pure (x + 1, 2 * x)) [3, 5] =
      pure ([.inr 4, .inr 6], [6, 10]) :=
  (tupleTransformEach_in_order (m := Id) (fun x : Nat => pure (x + 1, 2 * x)) [3, 5]).1

end Sigc
