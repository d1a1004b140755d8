import Mathlib.Logic.Relation
import Mathlib.Tactic.Basic

/-!
# Programs with exceptions, destructors and halts

A `Prog σ ε η α` runs on a state `σ` and either returns a value, throws an exception, or halts.
A halt ends the whole run: unlike an exception it runs no destructor.  `wp` is the weakest
precondition of such a program for one postcondition per kind of outcome; the rules below compute
it through every program constructor, so a proof about a program follows the program's own shape.
-/

namespace Reasoning

inductive Outcome (ε η α : Type) where
  | ret (a : α)
  | throw (e : ε)
  | halt (h : η)

/-- The value that has been returned. -/
def Outcome.value {ε η α : Type} : Outcome ε η α → Option α
  | ret a => some a
  | _ => none

def Prog (σ ε η α : Type) : Type := σ → Outcome ε η α × σ

namespace Prog

variable {σ ε η α β : Type}

protected def bind (x : Prog σ ε η α) (f : α → Prog σ ε η β) : Prog σ ε η β := fun s =>
  match x s with
  | (.ret a, s') => f a s'
  | (.throw e, s') => (.throw e, s')
  | (.halt h, s') => (.halt h, s')

instance : Monad (Prog σ ε η) where
  pure a := fun s => (.ret a, s)
  bind := Prog.bind

def throw (e : ε) : Prog σ ε η α := fun s => (.throw e, s)

def halt (h : η) : Prog σ ε η α := fun s => (.halt h, s)

def read (f : σ → α) : Prog σ ε η α := fun s => (.ret (f s), s)

def modify (f : σ → σ) : Prog σ ε η Unit := fun s => (.ret (), f s)

/-- Read a part of the state that may be absent; the program halts with `h` where it is. -/
def deref (h : η) (f : σ → Option α) : Prog σ ε η α := fun s =>
  match f s with
  | some a => (.ret a, s)
  | none => (.halt h, s)

/-- Run `x` and then the destructor `fin`, on a normal exit (`fin true`) as on an exceptional one
(`fin false`). -/
def onExit (x : Prog σ ε η α) (fin : Bool → Prog σ ε η Unit) : Prog σ ε η α := fun s =>
  match x s with
  | (.ret a, s') =>
    match fin true s' with
    | (.ret _, s'') => (.ret a, s'')
    | (.throw e, s'') => (.throw e, s'')
    | (.halt h, s'') => (.halt h, s'')
  | (.throw e, s') =>
    match fin false s' with
    | (.ret _, s'') => (.throw e, s'')
    | (.throw e', s'') => (.throw e', s'')
    | (.halt h, s'') => (.halt h, s'')
  | (.halt h, s') => (.halt h, s')

/-- Run `x`, and `k` on the exception it throws. -/
def recover (x : Prog σ ε η α) (k : ε → Prog σ ε η α) : Prog σ ε η α := fun s =>
  match x s with
  | (.throw e, s') => k e s'
  | o => o

/-! ## Runs -/

section Runs

variable {x : Prog σ ε η α} {f : α → Prog σ ε η β} {s s' : σ}

@[simp] theorem pure_run (a : α) (s : σ) : (pure a : Prog σ ε η α) s = (.ret a, s) := rfl

@[simp] theorem throw_run (e : ε) (s : σ) : (throw e : Prog σ ε η α) s = (.throw e, s) := rfl

@[simp] theorem halt_run (h : η) (s : σ) : (halt h : Prog σ ε η α) s = (.halt h, s) := rfl

@[simp] theorem read_run (g : σ → α) (s : σ) : (read g : Prog σ ε η α) s = (.ret (g s), s) := rfl

@[simp] theorem modify_run (g : σ → σ) (s : σ) :
    (modify g : Prog σ ε η Unit) s = (.ret (), g s) := rfl

theorem bind_of_ret {a : α} (h : x s = (.ret a, s')) : (x >>= f) s = f a s' := by
  change Prog.bind x f s = _
  simp only [Prog.bind, h]

theorem bind_of_throw {e : ε} (h : x s = (.throw e, s')) : (x >>= f) s = (.throw e, s') := by
  change Prog.bind x f s = _
  simp only [Prog.bind, h]

theorem bind_of_halt {k : η} (h : x s = (.halt k, s')) : (x >>= f) s = (.halt k, s') := by
  change Prog.bind x f s = _
  simp only [Prog.bind, h]

theorem onExit_of_ret {fin : Bool → Prog σ ε η Unit} {a : α} {b : Unit} {s'' : σ}
    (h : x s = (.ret a, s')) (hfin : fin true s' = (.ret b, s'')) :
    onExit x fin s = (.ret a, s'') := by
  unfold onExit
  simp only [h, hfin]

theorem onExit_of_halt {fin : Bool → Prog σ ε η Unit} {k : η} (h : x s = (.halt k, s')) :
    onExit x fin s = (.halt k, s') := by
  unfold onExit
  simp only [h]

theorem bind_congr_run {y : Prog σ ε η α} (h : x s = y s) : (x >>= f) s = (y >>= f) s := by
  change Prog.bind x f s = Prog.bind y f s
  simp only [Prog.bind, h]

theorem bind_congr_right {g : α → Prog σ ε η β} (h : ∀ a s', x s = (.ret a, s') → f a s' = g a s') :
    (x >>= f) s = (x >>= g) s := by
  rcases hx : x s with ⟨a | e | k, s'⟩
  · rw [bind_of_ret hx, bind_of_ret hx, h a s' hx]
  · rw [bind_of_throw hx, bind_of_throw hx]
  · rw [bind_of_halt hx, bind_of_halt hx]

theorem bind_assoc_run {γ : Type} {g : β → Prog σ ε η γ} :
    ((x >>= f) >>= g) s = (x >>= fun a => f a >>= g) s := by
  change Prog.bind (Prog.bind x f) g s = Prog.bind x (fun a => Prog.bind (f a) g) s
  unfold Prog.bind
  rcases x s with ⟨a | e | k, s'⟩ <;> rfl

@[simp] theorem read_bind_run (g : σ → α) : (read g >>= f) s = f (g s) s := rfl

@[simp] theorem modify_bind_run (g : σ → σ) {f : Unit → Prog σ ε η β} :
    (modify g >>= f) s = f () (g s) := rfl

@[simp] theorem pure_bind_run (a : α) : (pure a >>= f) s = f a s := rfl

theorem deref_of_some {k : η} {g : σ → Option α} {a : α} (h : g s = some a) :
    (deref k g : Prog σ ε η α) s = (.ret a, s) := by
  unfold deref
  rw [h]

theorem deref_of_none {k : η} {g : σ → Option α} (h : g s = none) :
    (deref k g : Prog σ ε η α) s = (.halt k, s) := by
  unfold deref
  rw [h]

/-! The runs that return a value. -/

theorem bind_eq_ret {b : β} :
    (x >>= f) s = (.ret b, s') ↔ ∃ a s'', x s = (.ret a, s'') ∧ f a s'' = (.ret b, s') := by
  constructor
  · intro h
    rcases hx : x s with ⟨a | e | k, s''⟩
    · exact ⟨a, s'', rfl, (bind_of_ret hx).symm.trans h⟩
    · rw [bind_of_throw hx] at h
      simp at h
    · rw [bind_of_halt hx] at h
      simp at h
  · rintro ⟨a, s'', hx, hf⟩
    rw [bind_of_ret hx, hf]

theorem pure_eq_ret {a b : α} :
    (pure a : Prog σ ε η α) s = (.ret b, s') ↔ a = b ∧ s = s' := by
  simp

theorem read_eq_ret {g : σ → α} {b : α} :
    (read g : Prog σ ε η α) s = (.ret b, s') ↔ g s = b ∧ s = s' := by
  simp

theorem modify_eq_ret {g : σ → σ} {b : Unit} :
    (modify g : Prog σ ε η Unit) s = (.ret b, s') ↔ g s = s' := by
  simp

theorem deref_eq_ret {k : η} {g : σ → Option α} {b : α} :
    (deref k g : Prog σ ε η α) s = (.ret b, s') ↔ g s = some b ∧ s = s' := by
  unfold deref
  cases hg : g s <;> simp

theorem run_of_value {a : α} (h : (x s).1.value = some a) : x s = (.ret a, (x s).2) := by
  generalize x s = p at h ⊢
  obtain ⟨b | e | k, s₁⟩ := p
  · obtain rfl := Option.some.inj h
    rfl
  · cases h
  · cases h

theorem onExit_eq_ret {fin : Bool → Prog σ ε η Unit} {a : α}
    (h : onExit x fin s = (.ret a, s')) :
    ∃ s'', x s = (.ret a, s'') ∧ fin true s'' = (.ret (), s') := by
  unfold onExit at h
  rcases hx : x s with ⟨b | e | k, s₁⟩ <;> simp only [hx] at h
  · rcases hf : fin true s₁ with ⟨c | e | k, s₂⟩ <;> simp only [hf] at h
    · obtain ⟨hb, rfl⟩ := Prod.mk.inj h
      cases hb
      exact ⟨s₁, rfl, hf⟩
    all_goals cases h
  · rcases hf : fin false s₁ with ⟨c | e | k, s₂⟩ <;> simp only [hf] at h <;> cases h
  · cases h

end Runs

/-! ## Weakest preconditions -/

/-- `x` run in `s` meets `Q` where it returns, `E` where it throws and `H` where it halts. -/
def wp (x : Prog σ ε η α) (Q : α → σ → Prop) (E : ε → σ → Prop) (H : η → σ → Prop) (s : σ) :
    Prop :=
  match x s with
  | (.ret a, s') => Q a s'
  | (.throw e, s') => E e s'
  | (.halt h, s') => H h s'

variable {Q : α → σ → Prop} {E : ε → σ → Prop} {H : η → σ → Prop} {s : σ}

@[simp] theorem wp_pure (a : α) : wp (pure a : Prog σ ε η α) Q E H s ↔ Q a s := Iff.rfl

@[simp] theorem wp_throw (e : ε) : wp (throw e : Prog σ ε η α) Q E H s ↔ E e s := Iff.rfl

@[simp] theorem wp_halt (h : η) : wp (halt h : Prog σ ε η α) Q E H s ↔ H h s := Iff.rfl

@[simp] theorem wp_read (f : σ → α) : wp (read f : Prog σ ε η α) Q E H s ↔ Q (f s) s := Iff.rfl

@[simp] theorem wp_modify {Q : Unit → σ → Prop} (f : σ → σ) :
    wp (modify f : Prog σ ε η Unit) Q E H s ↔ Q () (f s) := Iff.rfl

theorem wp_deref {h : η} {f : σ → Option α} :
    wp (deref h f : Prog σ ε η α) Q E H s ↔
      (∀ a, f s = some a → Q a s) ∧ (f s = none → H h s) := by
  unfold wp deref
  cases hf : f s <;> simp

@[simp] theorem wp_bind {x : Prog σ ε η α} {f : α → Prog σ ε η β} {Q : β → σ → Prop} :
    wp (x >>= f) Q E H s ↔ wp x (fun a s' => wp (f a) Q E H s') E H s := by
  change wp (Prog.bind x f) Q E H s ↔ _
  unfold wp Prog.bind
  rcases x s with ⟨a | e | h, s'⟩ <;> rfl

@[simp] theorem wp_onExit {x : Prog σ ε η α} {fin : Bool → Prog σ ε η Unit} :
    wp (onExit x fin) Q E H s ↔
      wp x (fun a s' => wp (fin true) (fun _ s'' => Q a s'') E H s')
        (fun e s' => wp (fin false) (fun _ s'' => E e s'') E H s') H s := by
  unfold wp onExit
  rcases x s with ⟨a | e | h, s'⟩
  · simp only
    rcases fin true s' with ⟨b | e | h, s''⟩ <;> rfl
  · simp only
    rcases fin false s' with ⟨b | e | h, s''⟩ <;> rfl
  · rfl

@[simp] theorem wp_recover {x : Prog σ ε η α} {k : ε → Prog σ ε η α} :
    wp (recover x k) Q E H s ↔ wp x Q (fun e s' => wp (k e) Q E H s') H s := by
  unfold wp recover
  rcases x s with ⟨a | e | h, s'⟩ <;> rfl

@[simp] theorem wp_ite {c : Prop} [Decidable c] {x y : Prog σ ε η α} :
    wp (if c then x else y) Q E H s ↔ (c → wp x Q E H s) ∧ (¬c → wp y Q E H s) := by
  split <;> simp [*]

/-- Consequence: a weaker postcondition holds wherever a stronger one does. -/
theorem wp_mono {x : Prog σ ε η α} {Q' : α → σ → Prop} {E' : ε → σ → Prop} {H' : η → σ → Prop}
    (hx : wp x Q E H s) (hQ : ∀ a s', Q a s' → Q' a s') (hE : ∀ e s', E e s' → E' e s')
    (hH : ∀ h s', H h s' → H' h s') : wp x Q' E' H' s := by
  unfold wp at *
  rcases hs : x s with ⟨a | e | h, s'⟩ <;> rw [hs] at hx
  · exact hQ a s' hx
  · exact hE e s' hx
  · exact hH h s' hx

/-- What a run has returned may be taken from the run itself. -/
theorem wp_and_run {x : Prog σ ε η α} (h : wp x Q E H s) :
    wp x (fun a s' => Q a s' ∧ x s = (.ret a, s')) E H s := by
  unfold wp at *
  rcases hx : x s with ⟨a | e | k, s'⟩ <;> rw [hx] at h
  · exact ⟨h, rfl⟩
  · exact h
  · exact h

theorem wp_ret {x : Prog σ ε η α} {a : α} {s' : σ} (h : wp x Q E H s) (hx : x s = (.ret a, s')) :
    Q a s' := by
  unfold wp at h
  rwa [hx] at h

/-! ## Frames -/

/-- Whatever its outcome, `x` takes a state only to states that `R` relates to it. -/
def Within (R : σ → σ → Prop) (x : Prog σ ε η α) : Prop := ∀ s, R s (x s).2

section Within

variable {R : σ → σ → Prop} {x : Prog σ ε η α}

theorem Within.of_ret (hx : Within R x) {a : α} {s' : σ} (h : x s = (.ret a, s')) : R s s' := by
  have := hx s
  rwa [h] at this

theorem within_pure [Std.Refl R] (a : α) : Within R (pure a : Prog σ ε η α) :=
  fun s => Std.Refl.refl s

theorem within_halt [Std.Refl R] (h : η) : Within R (halt h : Prog σ ε η α) :=
  fun s => Std.Refl.refl s

theorem within_read [Std.Refl R] (f : σ → α) : Within R (read f : Prog σ ε η α) :=
  fun s => Std.Refl.refl s

theorem within_modify {f : σ → σ} (hf : ∀ s, R s (f s)) : Within R (modify f : Prog σ ε η Unit) :=
  hf

theorem within_deref [Std.Refl R] (h : η) (f : σ → Option α) :
    Within R (deref h f : Prog σ ε η α) := by
  intro s
  unfold deref
  cases f s <;> exact Std.Refl.refl s

/-- In one state, the second part starts where the first has returned. -/
theorem within_bind_at [IsTrans σ R] {f : α → Prog σ ε η β} {s : σ} (hx : R s (x s).2)
    (hf : ∀ a s', x s = (.ret a, s') → R s' (f a s').2) : R s ((x >>= f) s).2 := by
  rcases h : x s with ⟨a | e | k, s'⟩ <;> rw [h] at hx
  · rw [bind_of_ret h]
    exact IsTrans.trans _ _ _ hx (hf a s' h)
  · rwa [bind_of_throw h]
  · rwa [bind_of_halt h]

theorem within_bind [IsTrans σ R] {f : α → Prog σ ε η β} (hx : Within R x)
    (hf : ∀ a, Within R (f a)) : Within R (x >>= f) :=
  fun s => within_bind_at (hx s) fun a s' _ => hf a s'

theorem within_ite {c : Prop} [Decidable c] {y : Prog σ ε η α} (hx : Within R x)
    (hy : Within R y) : Within R (if c then x else y) := by
  split
  · exact hx
  · exact hy

end Within

end Prog

end Reasoning
