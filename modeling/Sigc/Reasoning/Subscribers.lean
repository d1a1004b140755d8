import Mathlib.Data.List.Basic
import Mathlib.Data.List.Infix

/-!
# Subscribers

A register of subscribers is a sequence that they enter at either end, and leave from anywhere.  An
implementation keeps a list of cells, some of which may have lost their subscriber: what it stands
for are the subscribers of the cells that have one.
-/

namespace Reasoning

variable {A C : Type} {a : A} {x : C} {l : List C} {alive alive' : C → Option A}

/-- A subscriber enters, before or after all others, or leaves. -/
inductive Subscription (A : Type) where
  | enter (first : Bool) (a : A)
  | leave (a : A)
  deriving DecidableEq

def Subscription.apply [DecidableEq A] : Subscription A → List A → List A
  | enter first a, as => if first then a :: as else as ++ [a]
  | leave a, as => as.filter (· ≠ a)

/-- The subscribers after a history, whose latest event comes first. -/
def subscribers [DecidableEq A] (history : List (Subscription A)) : List A :=
  history.foldr Subscription.apply []

/-- Who does not leave stays, and in the same order. -/
theorem sublist_subscribers [DecidableEq A] (later earlier : List (Subscription A)) :
    List.Sublist ((subscribers earlier).filter fun a => .leave a ∉ later)
      (subscribers (later ++ earlier)) := by
  induction later with
  | nil => exact List.filter_sublist
  | cons event later ih =>
    show List.Sublist _ (event.apply (subscribers (later ++ earlier)))
    cases event with
    | enter first b =>
      have hstay : List.Sublist ((subscribers earlier).filter fun a =>
          .leave a ∉ .enter first b :: later) (subscribers (later ++ earlier)) := by simpa using ih
      cases first with
      | true => exact hstay.cons b
      | false => exact hstay.trans (List.sublist_append_left _ _)
    | leave b =>
      have hfilter := ih.filter (· ≠ b)
      rw [List.filter_filter] at hfilter
      have hstay : (subscribers earlier).filter (fun a => .leave a ∉ .leave b :: later) =
          (subscribers earlier).filter fun a => decide (a ≠ b) && decide (.leave a ∉ later) := by
        apply List.filter_congr
        intro a _
        by_cases hab : a = b <;> simp [hab]
      rw [hstay]
      exact hfilter

/-! ## The order of events -/

def Subscription.enters : Subscription A → Bool
  | enter .. => true
  | leave _ => false

/-- Nobody enters who has left. -/
def Proper : List (Subscription A) → Prop
  | [] => True
  | .enter _ a :: history => .leave a ∉ history ∧ Proper history
  | .leave _ :: history => Proper history

theorem subscribers_eq_filter [DecidableEq A] {history : List (Subscription A)}
    (h : Proper history) : subscribers history =
      (subscribers (history.filter Subscription.enters)).filter fun a => .leave a ∉ history := by
  induction history with
  | nil => rfl
  | cons event history ih =>
    cases event with
    | enter first a =>
      obtain ⟨hstays, h⟩ := h
      rw [List.filter_cons_of_pos rfl]
      show (Subscription.enter first a).apply (subscribers history) =
        ((Subscription.enter first a).apply (subscribers (history.filter _))).filter _
      rw [ih h]
      cases first with
      | true => simp [Subscription.apply, hstays]
      | false => simp [Subscription.apply, hstays]
    | leave b =>
      rw [List.filter_cons_of_neg Bool.false_ne_true]
      show (subscribers history).filter (· ≠ b) = _
      rw [ih h, List.filter_filter]
      apply List.filter_congr
      intro a _
      by_cases hab : a = b <;> simp [hab]

/-- When the subscribers leave does not matter. -/
theorem subscribers_confluent [DecidableEq A] {l l' : List (Subscription A)} (h : Proper l)
    (h' : Proper l') (enters : l.filter Subscription.enters = l'.filter Subscription.enters)
    (leaves : ∀ a, .leave a ∈ l ↔ .leave a ∈ l') : subscribers l = subscribers l' := by
  rw [subscribers_eq_filter h, subscribers_eq_filter h', enters]
  apply List.filter_congr
  intro a _
  rw [decide_eq_decide, leaves]

/-! ## Cells -/

/-- A cell without a subscriber can be erased. -/
theorem filterMap_erase_of_none [DecidableEq C] (h : alive x = none) :
    (l.erase x).filterMap alive = l.filterMap alive := by
  induction l with
  | nil => rfl
  | cons y ys ih =>
    by_cases hy : y = x
    · subst hy
      rw [List.erase_cons_head, List.filterMap_cons_none h]
    · rw [List.erase_cons_tail (by simpa using hy), List.filterMap_cons, List.filterMap_cons, ih]

/-- Some cells lose their subscribers. -/
theorem filterMap_eq_filter (p : A → Bool) (h : ∀ y ∈ l, alive' y = (alive y).filter p) :
    l.filterMap alive' = (l.filterMap alive).filter p := by
  rw [List.filter_filterMap]
  exact List.filterMap_congr h

/-- Some cells lose their subscribers, and one of them is erased. -/
theorem filterMap_erase_eq_filter [DecidableEq C] (p : A → Bool)
    (h : ∀ y ∈ l.erase x, alive' y = (alive y).filter p) (hx : (alive x).filter p = none) :
    (l.erase x).filterMap alive' = (l.filterMap alive).filter p := by
  rw [List.filter_filterMap]
  calc
    _ = (l.erase x).filterMap fun y => (alive y).filter p := List.filterMap_congr h
    _ = l.filterMap fun y => (alive y).filter p := filterMap_erase_of_none hx

/-- A cell is added. -/
theorem filterMap_insert [DecidableEq A] (first : Bool) :
    (if first then x :: l else l ++ [x]).filterMap alive = (alive x).elim (l.filterMap alive)
      fun a => (Subscription.enter first a).apply (l.filterMap alive) := by
  cases hx : alive x with
  | none => cases first <;> simp [hx]
  | some a => cases first <;> simp [hx, Subscription.apply]

/-- A stretch of a list is still there after the removal of an element that is not in it. -/
theorem infix_erase [DecidableEq C] {s : List C} (h : s <:+: l) (hx : x ∉ s) : s <:+: l.erase x := by
  obtain ⟨before, after, rfl⟩ := h
  rw [List.append_assoc]
  by_cases hb : x ∈ before
  · rw [List.erase_append_left _ hb]
    exact ⟨before.erase x, after, by rw [List.append_assoc]⟩
  · rw [List.erase_append_right _ hb, List.erase_append_right _ hx]
    exact ⟨before, after.erase x, by rw [List.append_assoc]⟩

end Reasoning
