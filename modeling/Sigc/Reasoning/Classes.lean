import Mathlib.Data.Setoid.Basic
import Mathlib.Logic.Function.Basic
import Mathlib.Order.CompletePartialOrder

/-!
# Sharing classes

Handles that point to lazily allocated objects.  `pointing p` relates the handles that see the same
object through the pointers `p`; a handle whose pointer is still null sees nothing but itself.  The
operations on classes of handles are `put`, which moves a handle into the class of another, and
`isolate`, which gives it a class of its own.
-/

namespace Reasoning

variable {α β : Type}

namespace Classes

/-- `h` and `h'` are the same handle, or point to the same object. -/
def pointing (p : α → Option β) : Setoid α where
  r h h' := h = h' ∨ ∃ i, p h = some i ∧ p h' = some i
  iseqv := by
    refine ⟨fun h => .inl rfl, ?_, ?_⟩
    · rintro h h' (rfl | ⟨i, hi, hi'⟩)
      · exact .inl rfl
      · exact .inr ⟨i, hi', hi⟩
    · rintro h h' h'' (rfl | ⟨i, hi, hi'⟩) (rfl | ⟨j, hj, hj'⟩)
      · exact .inl rfl
      · exact .inr ⟨j, hj, hj'⟩
      · exact .inr ⟨i, hi, hi'⟩
      · rw [hi'] at hj
        cases hj
        exact .inr ⟨i, hi, hj'⟩

/-- `h` gets a class of its own. -/
def isolate (s : Setoid α) (h : α) : Setoid α where
  r x y := x = y ∨ x ≠ h ∧ y ≠ h ∧ s x y
  iseqv := by
    refine ⟨fun x => .inl rfl, ?_, ?_⟩
    · rintro x y (rfl | ⟨hx, hy, hxy⟩)
      · exact .inl rfl
      · exact .inr ⟨hy, hx, s.symm hxy⟩
    · rintro x y z (rfl | ⟨hx, hy, hxy⟩) (rfl | ⟨hy', hz, hyz⟩)
      · exact .inl rfl
      · exact .inr ⟨hy', hz, hyz⟩
      · exact .inr ⟨hx, hy, hxy⟩
      · exact .inr ⟨hx, hz, s.trans hxy hyz⟩

variable {p : α → Option β} {s : Setoid α} {dst src h : α}

theorem pointing_apply {x y : α} :
    pointing p x y ↔ x = y ∨ ∃ i, p x = some i ∧ p y = some i := Iff.rfl

theorem isolate_apply {x y : α} : isolate s h x y ↔ x = y ∨ x ≠ h ∧ y ≠ h ∧ s x y := Iff.rfl

/-- A handle whose pointer is null is alone. -/
theorem pointing_of_null {x : α} (hx : p x = none) {y : α} : pointing p x y ↔ x = y := by
  rw [pointing_apply]
  simp [hx]

variable [DecidableEq α]

/-- `dst` joins the class of `src`. -/
def put (s : Setoid α) (dst src : α) : Setoid α := s.comap (Function.update id dst src)

theorem put_apply {x y : α} :
    put s dst src x y ↔ s (Function.update id dst src x) (Function.update id dst src y) := Iff.rfl

theorem put_joins (s : Setoid α) (dst src : α) : put s dst src dst src := by
  rw [put_apply, Function.update_self, Function.update_apply]
  split_ifs <;> exact Setoid.refl _

theorem put_self (s : Setoid α) (h : α) : put s h h = s := by
  ext x y
  rw [put_apply, Function.update_eq_self_iff.mpr (id_eq h).symm]
  rfl

/-- A null pointer that is set to a new object still shares it with nobody. -/
theorem pointing_alloc {i : β} (hh : p h = none) (hi : ∀ x, p x ≠ some i) :
    pointing (Function.update p h (some i)) = pointing p := by
  ext x y
  simp only [pointing_apply, Function.update_apply]
  split_ifs with hx hy hy
  · simp [hx, hy]
  · subst hx
    simp [hh, hi y]
  · subst hy
    simp [hh, hi x]
  · exact Iff.rfl

theorem pointing_null (p : α → Option β) (h : α) :
    pointing (Function.update p h none) = isolate (pointing p) h := by
  ext x y
  simp only [pointing_apply, isolate_apply, Function.update_apply]
  split_ifs with hx hy hy
  · simp [hx, hy]
  · simp [hx]
  · simp [hy]
  · simp [hx, hy]

/-- The pointer of `dst` becomes that of `src`, which is not null. -/
theorem pointing_put {i : β} (hs : p src = some i) :
    pointing (Function.update p dst (some i)) = put (pointing p) dst src := by
  ext x y
  simp only [pointing_apply, put_apply, Function.update_apply, id_eq]
  split_ifs with hx hy hy
  · simp [hx, hy, hs]
  · subst hx
    simp only [hs, Option.some.injEq, exists_eq_left']
    constructor
    · rintro (rfl | h)
      · exact absurd rfl hy
      · exact .inr h
    · rintro (rfl | h)
      · exact .inr hs
      · exact .inr h
  · subst hy
    simp only [hs, Option.some.injEq]
    constructor
    · rintro (rfl | h)
      · exact absurd rfl hx
      · exact .inr h
    · rintro (rfl | h)
      · exact .inr ⟨i, hs, rfl⟩
      · exact .inr h
  · exact Iff.rfl

/-- The pointer of `src`, null or not, goes to another handle. -/
theorem pointing_move (hne : dst ≠ src) :
    pointing (Function.update (Function.update p dst (p src)) src none) =
      isolate (put (pointing p) dst src) src := by
  rw [pointing_null]
  cases hs : p src with
  | some i => rw [pointing_put hs]
  | none =>
    rw [pointing_null]
    ext x y
    simp only [isolate_apply, put_apply, Function.update_apply, id_eq]
    split_ifs with hx hy hy
    · simp [hx, hy]
    · subst hx
      rw [pointing_of_null hs]
      constructor
      · rintro (h | ⟨-, hy', h | ⟨h, -⟩⟩)
        · exact .inl h
        · exact .inl h
        · exact absurd rfl h
      · rintro (h | ⟨-, hy', h⟩)
        · exact .inl h
        · exact absurd h.symm hy'
    · subst hy
      constructor
      · rintro (h | ⟨hx', -, h | ⟨-, h, -⟩⟩)
        · exact .inl h
        · exact .inl h
        · exact absurd rfl h
      · rintro (h | ⟨hx', -, h⟩)
        · exact .inl h
        · exact absurd ((pointing_of_null hs).mp ((pointing p).symm h)).symm hx'
    · simp [hx, hy]
      tauto

end Classes

end Reasoning
