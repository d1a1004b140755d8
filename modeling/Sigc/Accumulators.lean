import Sigc.Paths
import Mathlib.Data.List.Forall2

/-!
# What accumulators see

An accumulator walks over every position of the list, and `slot_iterator_buf` invokes a slot only
where there is one to invoke.  What the iterator yields at a position is the result of the slot
there exactly if no position is passed by.
-/

namespace Sigc

open Reasoning Prog

variable {V : Type} {T : World V → Prop} {u : Env V} {w w' w₀ : World V} {below : List (Frame V)}
  {e e' : Emission V}

namespace SignalEmit

/-- The values that the iterator has yielded, one list for each position, are those that the slots
invoked by this emission have returned, in order. -/
def Yields (yss : List (List (Option V))) (e : Emission V) : Prop :=
  List.Forall₂ (fun ys v => ys ≠ [] ∧ ∀ y ∈ ys, y = some v) yss e.results

/-- The positions that the accumulator has left, and the slots among them that were invoked. -/
structure Walked (e : Emission V) (yss : List (List (Option V))) : Prop where
  positions : yss.length = e.reached.length
  invoked : e.results.length = e.reached.countP (·.2)
  own : (∀ p ∈ e.reached, p.2 = true) → Yields yss e

theorem Walked.yields_iff {yss : List (List (Option V))} (h : Walked e yss) :
    Yields yss e ↔ ∀ p ∈ e.reached, p.2 = true := by
  constructor
  · intro hy
    have hlen : e.reached.countP (·.2) = e.reached.length := by
      rw [← h.invoked, ← h.positions]
      exact hy.length_eq.symm
    exact List.countP_eq_length.mp hlen
  · exact h.own

/-! ## One position -/

/-- The emission `e` after the slot under its cursor has returned `v`. -/
def returned (e : Emission V) (v : V) : Emission V :=
  { e with reached := e.reached ++ [(e.it, true)], called := e.called ++ [e.it]
           results := e.results ++ [v], phase := .invoked }

theorem invoke_returned {v : V} (run : Emission.invoke u e w = (.ret (e', v), w')) :
    e' = returned e v := by
  unfold Emission.invoke at run
  obtain ⟨⟨e₁, r⟩, w₁, hbegin, run⟩ := bind_eq_ret.mp run
  obtain ⟨v₁, w₂, -, run⟩ := bind_eq_ret.mp run
  obtain ⟨e₂, w₃, hend, run⟩ := bind_eq_ret.mp run
  obtain ⟨hpair, -⟩ := pure_eq_ret.mp run
  obtain ⟨rfl, rfl⟩ := Prod.mk.inj hpair
  unfold Emission.beginCall at hbegin
  obtain ⟨sl, w₄, -, hbegin⟩ := bind_eq_ret.mp hbegin
  obtain ⟨r', w₅, -, hbegin⟩ := bind_eq_ret.mp hbegin
  obtain ⟨_, w₆, -, hbegin⟩ := bind_eq_ret.mp hbegin
  obtain ⟨rfl, rfl⟩ := Prod.mk.inj (pure_eq_ret.mp hbegin).1
  unfold Emission.endCall at hend
  obtain ⟨_, w₇, -, hend⟩ := bind_eq_ret.mp hend
  exact (pure_eq_ret.mp hend).1.symm

variable [Inhabited V] {buf buf' : IteratorBuf V}

/-- The first `*it` at a position either invokes the slot, or finds that it is not callable. -/
theorem dereference_cases {r_ : Option V}
    (run : dereference u e { r_, invoked := false } w = (.ret (e', buf'), w')) :
    (∃ v, e' = returned e v ∧ buf' = { r_ := some v, invoked := true }) ∨
      e' = e ∧ buf' = { r_, invoked := false } ∧ w' = w ∧
        Emission.callable e.it w = (.ret false, w) := by
  rw [dereference_run] at run
  obtain ⟨b, w₁, hb, run⟩ := bind_eq_ret.mp run
  obtain rfl : w₁ = w := by
    obtain ⟨b', hb'⟩ | ⟨k, hk⟩ := callable_run e.it w
    · exact (Prod.mk.inj (hb.symm.trans hb')).2
    · rw [hk] at hb
      cases hb
  cases b with
  | true =>
    obtain ⟨⟨e₁, v⟩, w₂, hinvoke, run⟩ := bind_eq_ret.mp run
    obtain ⟨rfl, rfl⟩ := Prod.mk.inj (pure_eq_ret.mp run).1
    exact .inl ⟨v, invoke_returned hinvoke, rfl⟩
  | false =>
    obtain ⟨hpair, rfl⟩ := pure_eq_ret.mp run
    obtain ⟨rfl, rfl⟩ := Prod.mk.inj hpair
    exact .inr ⟨rfl, rfl, rfl, hb⟩

/-- The slot here has been invoked, or cannot be. -/
def Settles (e : Emission V) (buf : IteratorBuf V) (w : World V) : Prop :=
  buf.invoked = true ∨ Emission.callable e.it w = (.ret false, w)

/-- Another `*it` at the same position only reads the buffer. -/
theorem dereference_again {o : Emission V × IteratorBuf V} (settled : Settles e buf w)
    (run : dereference u e buf w = (.ret o, w')) : o = (e, buf) ∧ w' = w := by
  unfold dereference at run
  obtain ⟨b, w₁, hb, rest⟩ := bind_eq_ret.mp run
  obtain rfl : w₁ = w := by
    obtain ⟨b', hb'⟩ | ⟨k, hk⟩ := callable_run e.it w
    · exact (Prod.mk.inj (hb.symm.trans hb')).2
    · rw [hk] at hb
      cases hb
  have hnot : (b && !buf.invoked) = false := by
    obtain hi | hc := settled
    · rw [hi, Bool.not_true, Bool.and_false]
    · rw [hc] at hb
      cases hb
      rfl
  rw [hnot] at rest
  obtain ⟨ho, hw⟩ := pure_eq_ret.mp rest
  exact ⟨ho.symm, hw.symm⟩

theorem dereferenceAgain_replicate (k : Nat) {ys : List (Option V)}
    {o : Emission V × IteratorBuf V × List (Option V)} (settled : Settles e buf w)
    (run : dereferenceAgain u k e buf ys w = (.ret o, w')) :
    o = (e, buf, ys ++ List.replicate k buf.r_) := by
  induction k generalizing ys with
  | zero =>
    rw [List.replicate_zero, List.append_nil]
    exact (pure_eq_ret.mp run).1.symm
  | succ k ih =>
    obtain ⟨o', w₁, hd, rest⟩ := bind_eq_ret.mp run
    obtain ⟨rfl, rfl⟩ := dereference_again settled hd
    rw [ih rest, List.append_assoc]
    rfl

omit [Inhabited V] in
/-- `++it`: a position whose slot was not invoked is left without a result. -/
theorem increment_leaves {o : Emission V × IteratorBuf V}
    (run : increment e buf w = (.ret o, w')) :
    o.2 = { buf with invoked := false } ∧ o.1.results = e.results ∧
      o.1.reached = if buf.invoked then e.reached else e.reached ++ [(e.it, false)] := by
  have hadvance {e e' : Emission V} {w w' : World V}
      (h : Emission.advance e w = (.ret e', w')) : e'.results = e.results ∧
        e'.reached = e.reached := by
    unfold Emission.advance at h
    obtain ⟨it, w₁, -, h⟩ := bind_eq_ret.mp h
    cases it with
    | none => cases h
    | some it =>
      obtain ⟨_, w₂, -, h⟩ := bind_eq_ret.mp h
      obtain ⟨rfl, -⟩ := pure_eq_ret.mp h
      exact ⟨rfl, rfl⟩
  unfold increment at run
  cases hi : buf.invoked with
  | true =>
    rw [hi] at run
    obtain ⟨e₁, w₁, hstep, rest⟩ := bind_eq_ret.mp run
    obtain ⟨rfl, -⟩ := pure_eq_ret.mp rest
    obtain ⟨hres, hreach⟩ := hadvance hstep
    exact ⟨rfl, hres, hreach⟩
  | false =>
    rw [hi] at run
    obtain ⟨e₁, w₁, hstep, rest⟩ := bind_eq_ret.mp run
    obtain ⟨rfl, -⟩ := pure_eq_ret.mp rest
    obtain ⟨hres, hreach⟩ := hadvance hstep
    exact ⟨rfl, hres, hreach⟩

/-! ## The walk -/

/-- A whole position, from the first `*it` to `++it`. -/
theorem Walked.position {r_ : Option V} {yss : List (List (Option V))} {k : Nat}
    {w₁ w₂ w₃ : World V} {e₁ : Emission V} {buf₁ : IteratorBuf V}
    {o₂ : Emission V × IteratorBuf V × List (Option V)} {o₃ : Emission V × IteratorBuf V}
    (h : Walked e yss)
    (first : dereference u e { r_, invoked := false } w = (.ret (e₁, buf₁), w₁))
    (again : dereferenceAgain u k e₁ buf₁ [buf₁.r_] w₁ = (.ret o₂, w₂))
    (next : increment o₂.1 o₂.2.1 w₂ = (.ret o₃, w₃)) :
    Walked o₃.1 (yss ++ [o₂.2.2]) ∧ o₃.2.invoked = false := by
  obtain ⟨hbuf, hres, hreach⟩ := increment_leaves next
  obtain ⟨v, rfl, rfl⟩ | ⟨rfl, rfl, rfl, hc⟩ := dereference_cases first
  · obtain rfl := dereferenceAgain_replicate k (.inl rfl) again
    refine ⟨⟨?_, ?_, fun hall => ?_⟩, hbuf ▸ rfl⟩
    · rw [hreach]
      simp [returned, h.positions]
    · rw [hreach, hres]
      simp [returned, h.invoked, List.countP_append]
    · rw [hreach] at hall
      unfold Yields
      rw [hres]
      refine List.rel_append (h.own fun p hp => hall p ?_) (.cons ⟨by simp, ?_⟩ .nil)
      · exact List.mem_append_left _ hp
      · intro y hy
        obtain rfl | hy := List.mem_cons.mp hy
        · rfl
        · exact List.eq_of_mem_replicate hy
  · obtain rfl := dereferenceAgain_replicate k (.inr hc) again
    refine ⟨⟨?_, ?_, fun hall => ?_⟩, hbuf ▸ rfl⟩
    · rw [hreach]
      simp [h.positions]
    · rw [hreach, hres]
      simp [h.invoked, List.countP_append]
    · rw [hreach] at hall
      cases hall (e₁.it, false) (List.mem_append_right _ (List.mem_singleton_self _))

theorem accumulate_walks (hu : u.Spec T) (hT : ∀ w, T w) (hw : Sound w₀)
    (again : List (Option V) → Nat) (n : Nat) :
    ∀ {e r_ yss w}, Emission.At w₀ below e .arrived w → Walked e yss →
      Emits T w₀ below (accumulate u again n e { r_, invoked := false } yss) w fun yss' w' =>
        ∃ e', w'.frames = .emission e' :: below ∧ e'.it = e'.placeholder ∧ Walked e' yss' := by
  -- on the rounds left: the values yielded so far are those of the positions already passed
  induction n with
  | zero => exact fun {e r_ yss w} _ _ => hT w
  | succ n ih =>
    intro e r_ yss w h hwalk
    unfold accumulate
    split
    · rename_i hit
      exact ⟨e, h.top, hit, hwalk⟩
    · rename_i inside
      have hacc : Accumulating w₀ below e { r_, invoked := false } w := ⟨h, inside⟩
      refine Emits.bind (wp_and_run (dereference_emits hu hw hacc)) fun o₁ w₁ h₁ => ?_
      refine Emits.bind (wp_and_run (dereferenceAgain_emits hu hw _ h₁.1)) fun o₂ w₂ h₂ => ?_
      refine Ends.emits (wp_and_run (increment_ends h₂.1)) fun o₃ w₃ h₃ => ?_
      obtain ⟨hwalk', hfresh⟩ := hwalk.position h₁.2 h₂.2 h₃.2
      obtain ⟨e₃, r₃, i₃⟩ := o₃
      obtain rfl : i₃ = false := hfresh
      exact ih h₃.1.1 hwalk'

omit [Inhabited V] in
/-- A run does not depend on the commands that the client has not yet issued. -/
theorem sound_withScript (hw : Sound w) (cs : List (Cmd V)) :
    Sound ({ w with script := cs } : World V) where
  toWellAddressed :=
    (Advances.heap hw.toWellAddressed (Nat.le_refl _) (.refl _ _ _) (.refl _ _ _) (.refl _ _ _)
      List.suffix_rfl (fun r rep h => .inl (hw.reps r rep h)) hw.weakOnly
      fun _ _ rep h => .inl ⟨rep, h⟩ : Advances w { w with script := cs }).addressed
  linked := hw.linked

end SignalEmit

end Sigc
