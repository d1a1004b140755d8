import Sigc.Reasoning.Program

/-!
# Programs that do the same

Two programs are alike in a state when they end in the same way: with values that one relation
relates, or with the same exception, in states that another relation relates; or in the same halt.
-/

namespace Reasoning.Prog

variable {σ ε η α β γ δ : Type}

/-- The ends of two runs are alike, for the states `S` and the values `R`. -/
def EndAlike (S : σ → σ → Prop) (R : α → β → Prop) :
    Outcome ε η α × σ → Outcome ε η β × σ → Prop
  | (.ret a, s), (.ret b, t) => R a b ∧ S s t
  | (.throw e, s), (.throw e', t) => e = e' ∧ S s t
  | (.halt h, _), (.halt h', _) => h = h'
  | _, _ => False

def Alike (S : σ → σ → Prop) (R : α → β → Prop) (x : Prog σ ε η α) (y : Prog σ ε η β) (s : σ) :
    Prop :=
  EndAlike S R (x s) (y s)

variable {S S' : σ → σ → Prop} {R : α → β → Prop} {R' : γ → δ → Prop} {x : Prog σ ε η α}
  {y : Prog σ ε η β} {s : σ}

theorem alike_pure {a : α} {b : β} (hR : R a b) (hS : S s s) :
    Alike S R (pure a : Prog σ ε η α) (pure b) s :=
  ⟨hR, hS⟩

theorem alike_halt (h : η) : Alike S R (halt h : Prog σ ε η α) (halt h) s :=
  rfl

theorem EndAlike.mono {p : Outcome ε η α × σ} {q : Outcome ε η β × σ} (h : EndAlike S R p q)
    (hS : ∀ s t, S s t → S' s t) : EndAlike S' R p q := by
  rcases p with ⟨a | e | k, s₁⟩ <;> rcases q with ⟨b | e' | k', s₂⟩
  case ret.ret => exact ⟨h.1, hS _ _ h.2⟩
  case throw.throw => exact ⟨h.1, hS _ _ h.2⟩
  case halt.halt => exact h
  all_goals exact h.elim

theorem Alike.mono (h : Alike S R x y s) (hS : ∀ s t, S s t → S' s t) : Alike S' R x y s :=
  EndAlike.mono h hS

/-- A part that both programs begin with. -/
theorem Alike.bind_same {z : Prog σ ε η γ} {f : γ → Prog σ ε η α} {g : γ → Prog σ ε η β}
    (h : ∀ c s', z s = (.ret c, s') → Alike S R (f c) (g c) s') (hS : ∀ s, S s s) :
    Alike S R (z >>= f) (z >>= g) s := by
  unfold Alike
  rcases hz : z s with ⟨c | e | k, s'⟩
  · rw [bind_of_ret hz, bind_of_ret hz]
    exact h c s' hz
  · rw [bind_of_throw hz, bind_of_throw hz]
    exact ⟨rfl, hS s'⟩
  · rw [bind_of_halt hz, bind_of_halt hz]
    exact rfl

/-- The same destructor runs at the end of both. -/
theorem Alike.onExit {fin : Bool → Prog σ ε η Unit} (h : Alike Eq R x y s) :
    Alike Eq R (onExit x fin) (onExit y fin) s := by
  unfold Alike at h
  unfold Alike Prog.onExit
  generalize x s = p at h ⊢
  generalize y s = q at h ⊢
  rcases p with ⟨a | e | k, s₁⟩ <;> rcases q with ⟨b | e' | k', s₂⟩
  case ret.ret =>
    obtain ⟨hR, rfl⟩ := h
    simp only
    rcases fin true s₁ with ⟨c | e | k, s'⟩
    · exact ⟨hR, rfl⟩
    · exact ⟨rfl, rfl⟩
    · exact rfl
  case throw.throw =>
    obtain ⟨rfl, rfl⟩ := h
    simp only
    rcases fin false s₁ with ⟨c | e | k, s'⟩
    · exact ⟨rfl, rfl⟩
    · exact ⟨rfl, rfl⟩
    · exact rfl
  case halt.halt => exact h
  all_goals exact h.elim

end Reasoning.Prog
