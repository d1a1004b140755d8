import Mathlib.Logic.Function.Basic
import Mathlib.Order.Basic

/-!
# Heaps whose addresses are used once

A heap is a partial map from addresses, which are handed out in increasing order, to objects.
`Evolves R n n' m m'` says that between two states of a heap objects were created only at the
addresses from `n` to `n'`, and that every other object is an older one, related to it by `R`.
-/

namespace Reasoning

variable {X : Type} {R : X → X → Prop} {n n' n'' : Nat} {m m' m'' : Nat → Option X}

/-- What is found in a heap after one object was written. -/
theorem update_eq_some {A : Type} [DecidableEq A] {m : A → Option X} {a b : A} {x? : Option X}
    {y : X} :
    Function.update m a x? b = some y ↔ (b = a ∧ x? = some y) ∨ (b ≠ a ∧ m b = some y) := by
  rw [Function.update_apply]
  by_cases hb : b = a <;> simp [hb]

/-- Every object of the heap has an address below `n`. -/
def Below (n : Nat) (m : Nat → Option X) : Prop := ∀ a x, m a = some x → a < n

def Evolves (R : X → X → Prop) (n n' : Nat) (m m' : Nat → Option X) : Prop :=
  ∀ a x', m' a = some x' → (n ≤ a ∧ a < n') ∨ ∃ x, m a = some x ∧ R x x'

theorem Below.eq_none (h : Below n m) {a : Nat} (ha : n ≤ a) : m a = none := by
  cases hx : m a with
  | none => rfl
  | some x => exact absurd (h a x hx) (Nat.not_lt.mpr ha)

theorem Below.evolves (h : Below n m) (hn : n ≤ n') (hm : Evolves R n n' m m') :
    Below n' m' := by
  intro a x' hx'
  obtain ⟨-, ha⟩ | ⟨x, hx, -⟩ := hm a x' hx'
  · exact ha
  · exact Nat.lt_of_lt_of_le (h a x hx) hn

namespace Evolves

theorem refl [Std.Refl R] (n n' : Nat) (m : Nat → Option X) : Evolves R n n' m m :=
  fun _ x hx => .inr ⟨x, hx, Std.Refl.refl x⟩

theorem trans [IsTrans X R] (hn : n ≤ n') (hn' : n' ≤ n'') (h : Evolves R n n' m m')
    (h' : Evolves R n' n'' m' m'') : Evolves R n n'' m m'' := by
  intro a x'' hx''
  obtain ⟨ha, ha'⟩ | ⟨x', hx', hR'⟩ := h' a x'' hx''
  · exact .inl ⟨Nat.le_trans hn ha, ha'⟩
  · obtain ⟨ha, ha'⟩ | ⟨x, hx, hR⟩ := h a x' hx'
    · exact .inl ⟨ha, Nat.lt_of_lt_of_le ha' hn'⟩
    · exact .inr ⟨x, hx, IsTrans.trans _ _ _ hR hR'⟩

/-- An object is replaced by one that it may become. -/
theorem update [Std.Refl R] {a : Nat} {x x' : X} (ha : m a = some x) (hR : R x x') :
    Evolves R n n' m (Function.update m a (some x')) := by
  intro b y' hy'
  by_cases hb : b = a
  · subst hb
    rw [Function.update_self] at hy'
    exact .inr ⟨x, ha, Option.some.inj hy' ▸ hR⟩
  · rw [Function.update_of_ne hb] at hy'
    exact .inr ⟨y', hy', Std.Refl.refl y'⟩

theorem erase [Std.Refl R] (a : Nat) : Evolves R n n' m (Function.update m a none) := by
  intro b y' hy'
  by_cases hb : b = a
  · subst hb
    simp at hy'
  · rw [Function.update_of_ne hb] at hy'
    exact .inr ⟨y', hy', Std.Refl.refl y'⟩

theorem create [Std.Refl R] {a : Nat} {x' : X} (ha : n ≤ a) (ha' : a < n') :
    Evolves R n n' m (Function.update m a (some x')) := by
  intro b y' hy'
  by_cases hb : b = a
  · subst hb
    exact .inl ⟨ha, ha'⟩
  · rw [Function.update_of_ne hb] at hy'
    exact .inr ⟨y', hy', Std.Refl.refl y'⟩

/-- An address that has been used and is free now stays free. -/
theorem eq_none (h : Evolves R n n' m m') {a : Nat} (ha : a < n) (hm : m a = none) :
    m' a = none := by
  cases hx' : m' a with
  | none => rfl
  | some x' =>
    obtain ⟨hn, -⟩ | ⟨x, hx, -⟩ := h a x' hx'
    · exact absurd ha (Nat.not_lt.mpr hn)
    · rw [hm] at hx
      cases hx

/-- What is at an address that had been used before is what the object there has become. -/
theorem old (h : Evolves R n n' m m') {a : Nat} {x' : X} (ha : a < n) (hx' : m' a = some x') :
    ∃ x, m a = some x ∧ R x x' := by
  obtain ⟨hn, -⟩ | hold := h a x' hx'
  · exact absurd ha (Nat.not_lt.mpr hn)
  · exact hold

end Evolves

end Reasoning
