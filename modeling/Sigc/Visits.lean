import Sigc.Adaptors
import Sigc.Tuples

/-!
# Visits

`tuple_for_each`, with which the visitors of `bind_functor` and `track_obj_functor` go through the
tuples that these store.  It is a loop over the indices of one tuple, which is passed on by
reference.
-/

namespace Sigc

variable {α : Type}

section ForEach

variable {m : Type → Type} [Monad m]

/-- `tuple_for_each_impl<T_visitor, size_from_index>`.  A visitor gets a reference to an element, and
leaves something in its place. -/
def tupleForEachImpl (visit : α → m α) : Nat → List α → OptionT m (List α)
  | 0, t => pure t
  | 1, t => do
    let size := t.length
    staticAssert (size > 0)
    let index := sizeSub size 1
    let element ← require t[index]?
    let left ← OptionT.lift (visit element)
    pure (t.set index left)
  | n + 2, t => do
    let sizeFromIndex := n + 2
    let size := t.length
    staticAssert (size > 1)
    let index := sizeSub size sizeFromIndex
    let element ← require t[index]?
    let left ← OptionT.lift (visit element)
    tupleForEachImpl visit (n + 1) (t.set index left)

def tupleForEach (visit : α → m α) (t : List α) : OptionT m (List α) :=
  let size := t.length
  if size ≠ 0 then tupleForEachImpl visit size t else pure t

variable [LawfulMonad m]

theorem staticAssert_of {p : Prop} [Decidable p] (h : p) : staticAssert (m := m) p = pure () := by
  rw [staticAssert, if_pos h, require_some]

/-- One step of the recursion, also where it is the last one. -/
theorem tupleForEachImpl_cons (visit : α → m α) (done : List α) (x : α) (rest : List α) :
    tupleForEachImpl visit (x :: rest).length (done ++ x :: rest) = (do
      let left ← OptionT.lift (visit x)
      tupleForEachImpl visit rest.length ((done ++ [left]) ++ rest)) := by
  have hsize : (done ++ x :: rest).length = done.length + rest.length + 1 := by
    rw [List.length_append, List.length_cons]
    omega
  have hget : (done ++ x :: rest)[done.length]? = some x := by simp
  have hset (y : α) : (done ++ x :: rest).set done.length y = (done ++ [y]) ++ rest := by simp
  cases rest with
  -- The recursion ends at the last element: size_from_index is 1.
  | nil =>
    have hindex : sizeSub (done ++ [x]).length 1 = done.length := by
      rw [hsize, sizeSub_of_le (by omega)]
      simp
    show tupleForEachImpl visit 1 _ = _
    rw [tupleForEachImpl, staticAssert_of (by rw [hsize]; omega)]
    simp only [pure_bind, hindex, hget, require_some, hset]
    rfl
  -- size_from_index is at least 2.
  | cons y ys =>
    have hindex : sizeSub (done ++ x :: y :: ys).length (ys.length + 2) = done.length := by
      rw [hsize, List.length_cons, sizeSub_of_le (by omega)]
      omega
    show tupleForEachImpl visit (ys.length + 2) _ = _
    rw [tupleForEachImpl, staticAssert_of (by rw [hsize, List.length_cons]; omega)]
    simp only [pure_bind, hindex, hget, require_some, hset]
    rfl

/-- The invariant of the recursion: the elements behind `done` are still to be visited. -/
theorem tupleForEachImpl_append (visit : α → m α) (rest : List α) :
    ∀ done : List α, tupleForEachImpl visit rest.length (done ++ rest) =
      OptionT.lift (do
        let left ← rest.mapM visit
        pure (done ++ left)) := by
  induction rest with
  | nil =>
    intro done
    show pure _ = _
    simp [List.mapM_nil]
  | cons x rest ih =>
    intro done
    rw [tupleForEachImpl_cons]
    simp only [ih]
    simp only [← OptionT.lift_bind, List.mapM_cons, bind_assoc, pure_bind, List.append_assoc,
      List.singleton_append]

theorem tupleForEach_eq (visit : α → m α) (t : List α) :
    tupleForEach visit t = OptionT.lift (t.mapM visit) := by
  show (if t.length ≠ 0 then tupleForEachImpl visit t.length t else pure t) = _
  split
  · have h := tupleForEachImpl_append visit t []
    simp only [List.nil_append, bind_pure] at h
    exact h
  -- For an empty tuple tuple_for_each() does nothing.
  · rename_i hsize
    obtain rfl : t = [] := List.eq_nil_of_length_eq_zero (not_not.mp hsize)
    simp [List.mapM_nil]

end ForEach

/-! ## The visitors of adaptors -/

variable {F W : Type}

/-- The action that lists what it is applied to, passed to the visitor of an element. -/
def listing (visitEach : α → List Visited) (x : α) : StateM (List Visited) α := fun seen =>
  (x, seen ++ visitEach x)

theorem mapM_listing (visitEach : α → List Visited) (t : List α) :
    ∀ seen : List Visited,
      (t.mapM (listing visitEach)).run seen = (t, seen ++ t.flatMap visitEach) := by
  induction t with
  | nil =>
    intro seen
    rw [List.mapM_nil, List.flatMap_nil, List.append_nil]
    rfl
  | cons x t ih =>
    intro seen
    rw [List.mapM_cons]
    show (List.mapM (listing visitEach) t >>= fun rest => pure (x :: rest)).run
      (seen ++ visitEach x) = _
    rw [StateT.run_bind, ih]
    show (x :: t, seen ++ visitEach x ++ t.flatMap visitEach) = _
    rw [List.flatMap_cons, List.append_assoc]

theorem visitTuple_eq_flatMap (bound : List (Argument F W)) :
    visitTuple bound = bound.flatMap Argument.visitEach := by
  induction bound with
  | nil => rfl
  | cons a as ih => rw [visitTuple, List.flatMap_cons, ih]

/-- `tuple_for_each` visits each element of the tuple itself once, from the first to the last, and
no assertion fails.  So the visitors that call it, of `bind_functor<-1>` and of
`track_obj_functor`, show their action each element of the tuple. -/
theorem tupleForEach_in_order {m : Type → Type} [Monad m] [LawfulMonad m] (visit : α → m α)
    (t : List α) :
    tupleForEach visit t = OptionT.lift (t.mapM visit) ∧
      ∀ (bound : List (Argument F W)) (seen : List Visited),
        (tupleForEach (listing Argument.visitEach) bound).run.run seen =
          (some bound, seen ++ visitTuple bound) := by
  apply And.intro (tupleForEach_eq visit t)
  intro bound seen
  rw [tupleForEach_eq, OptionT.run_lift, StateT.run_bind, mapM_listing, visitTuple_eq_flatMap]
  rfl

theorem tupleForEach_in_order_twice :
    tupleForEach (m := Id) (fun x : Nat => pure (2 * x)) [3, 5] = pure [6, 10] :=
  (tupleForEach_in_order (F := Unit) (W := Unit) (m := Id)
    (fun x : Nat => pure (2 * x)) [3, 5]).1

end Sigc
