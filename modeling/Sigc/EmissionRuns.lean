import Sigc.SignalRuns

/-!
# Emissions

The three bodies of `signal_emit`.  A slot may throw in any of them, and then the emission ends in
the middle of the invocation; otherwise it ends at its placeholder.
-/

namespace Sigc

open Reasoning Prog

variable {V : Type} {T : World V → Prop} {u : Env V} {w w' w₀ w₁ : World V}
  {below : List (Frame V)}

theorem World.setTop_frames {f g : Frame V} (top : w.frames = g :: below) :
    (w.setTop f).frames = f :: below := by
  simp [World.setTop, top]

/-! ## Running emissions -/

/-- The emission `e`, which has been at work since `w₀`, is on top of `below`. -/
structure Emission.At (w₀ : World V) (below : List (Frame V)) (e : Emission V) (phase : Phase)
    (w : World V) : Prop where
  steps : Steps w₀ w
  top : w.frames = .emission e :: below
  phase : e.phase = phase

/-- The emission on top of `below` is going to end. -/
def Emitted (w₀ : World V) (below : List (Frame V)) (completed : Bool) (w : World V) : Prop :=
  ∃ e, Steps w₀ w ∧ w.frames = .emission e :: below ∧ e.Over completed

/-- `x`, run in `w`, is a part of the emission on top of `below`: a slot may throw. -/
def Emits {α : Type} (T : World V → Prop) (w₀ : World V) (below : List (Frame V)) (x : M V α)
    (w : World V) (Q : α → World V → Prop) : Prop :=
  wp x Q (fun _ => Emitted w₀ below false) (Halts T w₀) w

section Rules

variable {α β : Type} {x : M V α} {P Q : α → World V → Prop}

theorem Emits.of_ends (h : Ends T w₀ x w Q) : Emits T w₀ below x w Q :=
  wp_mono h (fun _ _ => id) (fun _ _ => False.elim) (fun _ _ => id)

theorem Emits.mono (h : Emits T w₀ below x w P) (hQ : ∀ a w', P a w' → Q a w') :
    Emits T w₀ below x w Q :=
  wp_mono h hQ (fun _ _ => id) (fun _ _ => id)

theorem Emits.bind {f : α → M V β} {R : β → World V → Prop} (hx : Emits T w₀ below x w P)
    (hf : ∀ a w', P a w' → Emits T w₀ below (f a) w' R) : Emits T w₀ below (x >>= f) w R := by
  unfold Emits
  rw [wp_bind]
  exact wp_mono hx hf (fun _ _ => id) (fun _ _ => id)

theorem Ends.emits {f : α → M V β} {R : β → World V → Prop} (hx : Ends T w₀ x w P)
    (hf : ∀ a w', P a w' → Emits T w₀ below (f a) w' R) : Emits T w₀ below (x >>= f) w R :=
  (Emits.of_ends hx).bind hf

end Rules

namespace Emission

theorem callable_ends {e : Emission V} (hs : Steps w₀ w) (top : w.frames = .emission e :: below)
    (phase : e.phase ≠ .invoking) (inside : e.it ≠ e.placeholder) :
    Ends T w₀ (callable e.it) w fun b w' => w' = w ∧ (b = true ↔ ∃ r, w.Callable e.it r) ∧
      ∃ sl, w.slots e.it = some sl := by
  refine .deref (fun sl hsl => ?_) fun hnone =>
    .stuck hs (.emission top phase inside (.inl hnone))
  cases hr : sl.rep with
  | none =>
    refine ⟨rfl, iff_of_false (by simp) ?_, sl, hsl⟩
    rintro ⟨r, sl', rep, hsl', hr', -⟩
    rw [← Option.some.inj (hsl.symm.trans hsl'), hr] at hr'
    cases hr'
  | some r =>
    refine .load rfl fun rep hrep => ⟨rfl, ⟨fun hb => ?_, ?_⟩, sl, hsl⟩
    · rw [Bool.and_eq_true, Bool.not_eq_true'] at hb
      exact ⟨r, sl, rep, hsl, hr, hrep, hb.1, hb.2⟩
    · rintro ⟨q, sl', rep', hsl', hq, hrep', hcall, hblocked⟩
      obtain rfl := Option.some.inj (hsl.symm.trans hsl')
      obtain rfl := Option.some.inj (hr.symm.trans hq)
      obtain rfl := Option.some.inj (hrep.symm.trans hrep')
      simp [hcall, hblocked]

/-- The iterator is moved on, and the frame learns which positions it has left. -/
theorem advance_ends {e : Emission V} {reached : List (SlotAddr × Bool)} (hs : Steps w₀ w)
    (top : w.frames = .emission e :: below) (phase : e.phase ≠ .invoking)
    (inside : e.it ≠ e.placeholder)
    (step : ∀ self it', w.impls e.impl = some self → following e.it self.slots = some (some it') →
      EmissionStep w (w.setTop (.emission { e with it := it', reached, phase := .arrived }))) :
    Ends T w₀ (advance { e with reached }) w fun e' w' => At w₀ below e' .arrived w' := by
  unfold advance
  refine SignalImpl.next_ends (fun self it' hself hnext => ?_) fun self hself hlost => ?_
  · cases it' with
    | none =>
      refine .stuck hs (.emission top phase inside (.inr ⟨self, hself, fun it' => ?_⟩))
      rw [hnext]
      simp
    | some it' =>
      exact ⟨hs.tail (.emission (step self it' hself hnext)), World.setTop_frames top, rfl⟩
  · refine .stuck hs (.emission top phase inside (.inr ⟨self, hself, fun it' => ?_⟩))
    rw [hlost]
    simp

theorem skip_ends {e : Emission V} (h : At w₀ below e .arrived w) (inside : e.it ≠ e.placeholder)
    {sl : SlotBase} (slot : w.slots e.it = some sl) (uncallable : ∀ r, ¬w.Callable e.it r) :
    Ends T w₀ (skip e) w fun e' w' => At w₀ below e' .arrived w' := by
  refine advance_ends h.steps h.top (by simp [h.phase]) inside fun self it' hself hnext => ?_
  have hstep := EmissionStep.skip h.top inside h.phase slot uncallable hself hnext
  rwa [h.phase] at hstep

theorem next_ends {e : Emission V} (h : At w₀ below e .invoked w) (inside : e.it ≠ e.placeholder) :
    Ends T w₀ (advance e) w fun e' w' => At w₀ below e' .arrived w' :=
  advance_ends h.steps h.top (by simp [h.phase]) inside fun _ _ hself hnext =>
    .advance h.top h.phase hself hnext

/-- A slot is invoked; where it throws, the emission ends with it. -/
theorem invoke_emits (hu : u.Spec T) {e : Emission V} {r : Addr} (hw : Sound w₀)
    (h : At w₀ below e .arrived w) (inside : e.it ≠ e.placeholder)
    (callable : w.Callable e.it r) : Emits T w₀ below (invoke u e) w fun o w' =>
      At w₀ below o.1 .invoked w' ∧ o.1.it ≠ o.1.placeholder := by
  have hstep := EmissionStep.beginCall h.top inside h.phase callable
  obtain ⟨sl, rep, hsl, hr, hrep, hcall, -⟩ := callable
  have hs := h.steps.tail (.emission hstep)
  have hw₁ := (hs.proceeds hw).sound
  unfold invoke
  refine Ends.emits (P := fun o w' => o = ({ e with
      reached := e.reached ++ [(e.it, true)], called := e.called ++ [e.it],
      phase := .invoking }, r) ∧ w' = w.setTop (.emission o.1)) ?_ fun o w₁ ho => ?_
  · refine .deref (fun sl' hsl' => .deref (fun r' hr' => ?_) fun hnone => ?_) fun hnone => ?_
    · obtain rfl := Option.some.inj (hsl.symm.trans hsl')
      obtain rfl := Option.some.inj (hr.symm.trans hr')
      exact ⟨rfl, rfl⟩
    · obtain rfl := Option.some.inj (hsl.symm.trans hsl')
      rw [hr] at hnone
      cases hnone
    · rw [hsl] at hnone
      cases hnone
  · obtain ⟨rfl, rfl⟩ := ho
    refine Emits.bind (P := fun _ w' => Goes (w.setTop (.emission { e with
      reached := e.reached ++ [(e.it, true)], called := e.called ++ [e.it],
      phase := .invoking })) w') ?_ fun v w₂ h₂ => ?_
    · refine wp_mono (hu.handler _ r rep hw₁ (.of_top rfl rfl) hrep hcall) (fun _ _ h₂ => h₂)
        (fun _ w₂ h₂ => ?_)
        fun _ _ => Halts.after hs
      exact ⟨_, hs.trans h₂.1, h₂.2.trans (World.setTop_frames h.top), rfl⟩
    · have top₂ := h₂.2.trans (World.setTop_frames h.top)
      exact ⟨⟨(hs.trans h₂.1).tail (.emission (.endCall v top₂ rfl)), World.setTop_frames top₂, rfl⟩,
        inside⟩

theorem start_ends {i : Addr} (calm : w.Calm) (owned : w.owned i = true) :
    Ends T w (start i) w fun e w' => At w w.frames e .arrived w' := by
  refine .straight (start_straight i) fun e w' run => ?_
  have hs : Steps w w' := .single (.emission (.start calm owned run))
  obtain ⟨self, -, -, rfl, rfl⟩ := start_effect run
  exact ⟨hs, rfl, rfl⟩

/-- The destructors of the placeholder and of the holder. -/
theorem finish_ends (hu : u.Spec T) (hT : ∀ w, T w) {completed : Bool} (hw : Sound w₀)
    (h : Emitted w₀ below completed w) :
    Ends T w₀ (finish u completed) w fun _ w' => Steps w₀ w' ∧ w'.frames = below := by
  obtain ⟨e, hs, top, hover⟩ := h
  unfold finish
  refine .read ?_
  rw [top]
  refine SignalImpl.unlink_ends (fun self hself hmem => .modify ?_) fun self hself hlost => ?_
  · refine SignalImpl.leaveHolder_ends hu (SignalImpl.sweep_ends hu hT u.fuel) hw top
      (fun self' hself' hq => ?_) fun self' hself' hsw it w' hrun => ?_
    all_goals
      obtain rfl : { self with slots := self.slots.erase e.placeholder } = self' := by
        simpa [World.setImpl, World.setSlot] using hself'
    · exact hs.tail (.emission (.finish top hover hself hmem hq))
    · exact hs.tail (.emission (.finishSweep top hover hself hmem hsw hrun))
  · exact .stuck hs (.placeholder top hover hself hlost)

end Emission

/-! ## The three bodies -/

namespace SignalEmit

open Emission

/-- The end of a loop: the cursor has come to the placeholder. -/
theorem emitted_of_it {e : Emission V} (h : At w₀ below e .arrived w) (hit : e.it = e.placeholder) :
    Emitted w₀ below true w :=
  ⟨e, h.steps, h.top, hit, h.phase⟩

/-- One position of a loop: the slot is invoked, or passed by. -/
theorem position_emits {α : Type} (hu : u.Spec T) {e : Emission V} {invoked : Emission V → V → M V α}
    {skipped : Emission V → M V α} {Q : α → World V → Prop} (hw : Sound w₀)
    (h : At w₀ below e .arrived w) (inside : e.it ≠ e.placeholder)
    (hinvoked : ∀ e' v w', At w₀ below e' .arrived w' → Emits T w₀ below (invoked e' v) w' Q)
    (hskipped : ∀ e' w', At w₀ below e' .arrived w' → Emits T w₀ below (skipped e') w' Q) :
    Emits T w₀ below (do
      if ← Emission.callable e.it then do
        let (e, v) ← Emission.invoke u e
        let e ← Emission.advance e
        invoked e v
      else do
        let e ← Emission.skip e
        skipped e) w Q := by
  refine (callable_ends h.steps h.top (by simp [h.phase]) inside).emits fun b w₁ hb => ?_
  obtain ⟨rfl, hb, sl, hsl⟩ := hb
  split
  · rename_i hbt
    obtain ⟨r, hr⟩ := hb.mp hbt
    refine (invoke_emits hu hw h inside hr).bind fun o w₂ h₂ => ?_
    exact (next_ends h₂.1 h₂.2).emits fun e₃ w₃ h₃ => hinvoked e₃ o.2 w₃ h₃
  · rename_i hbf
    exact (skip_ends h inside hsl fun r hr => hbf (hb.mpr ⟨r, hr⟩)).emits hskipped

theorem voidLoop_emits (hu : u.Spec T) (hT : ∀ w, T w) (hw : Sound w₀) (n : Nat) :
    ∀ {e w}, At w₀ below e .arrived w →
      Emits T w₀ below (voidLoop u n e) w fun _ => Emitted w₀ below true := by
  -- on the rounds left: at the head of each, the emission on top has arrived at its iterator
  induction n with
  | zero => exact fun {e w} _ => hT w
  | succ n ih =>
    intro e w h
    unfold voidLoop
    split
    · rename_i hit
      exact emitted_of_it h hit
    · rename_i inside
      exact position_emits hu hw h inside (fun e' _ w' h' => ih h') fun e' w' h' => ih h'

/-- What the three bodies have in common: holder and placeholder around a loop. -/
theorem around_ends {α : Type} (hu : u.Spec T) (hT : ∀ w, T w) {i : Addr} {loop : Emission V → M V α}
    (hw : Sound w) (calm : w.Calm) (owned : w.owned i = true)
    (hloop : ∀ e w₁, At w w.frames e .arrived w₁ →
      Emits T w w.frames (loop e) w₁ fun _ => Emitted w w.frames true) :
    wp (onExit (Emission.start i >>= loop) (Emission.finish u)) (fun _ => Goes w)
      (fun _ => Goes w) (Halts T w) w := by
  rw [wp_onExit]
  refine wp_mono (Ends.emits (start_ends calm owned) hloop) (fun a w₁ h₁ => ?_) (fun x w₁ h₁ => ?_)
    fun _ _ => id
  all_goals
    exact wp_mono (finish_ends hu hT hw h₁) (fun _ _ => id) (fun _ _ => False.elim) fun _ _ => id

theorem emitVoid_ends (hu : u.Spec T) (hT : ∀ w, T w) {impl : Option Addr} (hw : Sound w)
    (calm : w.Calm) (owned : ∀ i, impl = some i → w.owned i = true) :
    wp (emitVoid u impl) (fun _ => Goes w) (fun _ => Goes w) (Halts T w) w := by
  cases impl with
  | none => exact Goes.refl w
  | some i =>
    refine wp_bind.mpr (wp_mono (Ends.straight (SignalImpl.loadSlots_straight i)
      (fun l w₁ hl => hl)) (fun l w₁ hl => ?_) (fun _ _ => False.elim) fun _ _ => id)
    obtain ⟨self, -, -, -, rfl⟩ := SignalImpl.loadSlots_eq_ret.mp hl
    split
    · exact Goes.refl _
    · exact around_ends hu hT hw calm (owned i rfl) fun e w₁ h => voidLoop_emits hu hT hw u.fuel h

variable [Inhabited V]

omit [Inhabited V] in
theorem valueLoop_emits (hu : u.Spec T) (hT : ∀ w, T w) (hw : Sound w₀) (n : Nat) :
    ∀ {e w} (r_ : V), At w₀ below e .arrived w →
      Emits T w₀ below (valueLoop u n e r_) w fun _ => Emitted w₀ below true := by
  -- the invariant is that of the loop without a result
  induction n with
  | zero => exact fun {e w} _ _ => hT w
  | succ n ih =>
    intro e w r_ h
    unfold valueLoop
    split
    · rename_i hit
      exact emitted_of_it h hit
    · rename_i inside
      exact position_emits hu hw h inside (fun e' v w' h' => ih v h') fun e' w' h' => ih r_ h'

theorem valueSearch_emits (hu : u.Spec T) (hT : ∀ w, T w) (hw : Sound w₀) (n : Nat) :
    ∀ {e w}, At w₀ below e .arrived w →
      Emits T w₀ below (valueSearch u n e) w fun _ => Emitted w₀ below true := by
  induction n with
  | zero => exact fun {e w} _ => hT w
  | succ n ih =>
    intro e w h
    unfold valueSearch
    split
    · rename_i hit
      exact emitted_of_it h hit
    · rename_i inside
      exact position_emits hu hw h inside (fun e' v w' h' => valueLoop_emits hu hT hw n v h')
        fun e' w' h' => ih h'

theorem emitValue_ends (hu : u.Spec T) (hT : ∀ w, T w) {impl : Option Addr} (hw : Sound w)
    (calm : w.Calm) (owned : ∀ i, impl = some i → w.owned i = true) :
    wp (emitValue u impl) (fun _ => Goes w) (fun _ => Goes w) (Halts T w) w := by
  cases impl with
  | none => exact Goes.refl w
  | some i =>
    refine wp_bind.mpr (wp_mono (Ends.straight (SignalImpl.loadSlots_straight i)
      (fun l w₁ hl => hl)) (fun l w₁ hl => ?_) (fun _ _ => False.elim) fun _ _ => id)
    obtain ⟨self, -, -, -, rfl⟩ := SignalImpl.loadSlots_eq_ret.mp hl
    split
    · exact Goes.refl _
    · exact around_ends hu hT hw calm (owned i rfl) fun e w₁ h => valueSearch_emits hu hT hw u.fuel h

/-! ### Accumulators -/

/-- The phase of an emission whose iterator is `buf`. -/
def IteratorBuf.phase (buf : IteratorBuf V) : Phase := if buf.invoked then .invoked else .arrived

/-- An accumulator is at a position of the list. -/
structure Accumulating (w₀ : World V) (below : List (Frame V)) (e : Emission V)
    (buf : IteratorBuf V) (w : World V) : Prop where
  running : At w₀ below e buf.phase w
  inside : e.it ≠ e.placeholder

/-- The position has been dereferenced: if its slot was not invoked, it is not callable. -/
structure Dereferenced (w₀ : World V) (below : List (Frame V)) (e : Emission V)
    (buf : IteratorBuf V) (w : World V) : Prop extends Accumulating w₀ below e buf w where
  uncallable : buf.invoked = false → (∃ sl, w.slots e.it = some sl) ∧ ∀ r, ¬w.Callable e.it r

theorem dereference_emits (hu : u.Spec T) {e : Emission V} {buf : IteratorBuf V}
    (hw : Sound w₀) (h : Accumulating w₀ below e buf w) :
    Emits T w₀ below (dereference u e buf) w fun o => Dereferenced w₀ below o.1 o.2 := by
  have hphase : e.phase ≠ .invoking := by
    rw [h.running.phase, IteratorBuf.phase]
    split <;> simp
  have hcallable := callable_ends (T := T) h.running.steps h.running.top hphase h.inside
  unfold dereference
  refine hcallable.emits fun b w₁ hb => ?_
  obtain ⟨rfl, hb, hsl⟩ := hb
  split
  · rename_i hc
    simp only [Bool.and_eq_true, Bool.not_eq_true'] at hc
    unfold callSlotAt
    refine Emits.bind (P := fun o w' => At w₀ below o.1 .invoked w' ∧ o.1.it ≠ o.1.placeholder) ?_
      fun o w₂ h₂ => ?_
    · refine hcallable.emits fun b' w₂ hb' => ?_
      obtain ⟨rfl, hb', -⟩ := hb'
      obtain rfl : b' = true := hb'.mpr (hb.mp hc.1)
      obtain ⟨r, hr⟩ := hb.mp hc.1
      have hrun := h.running
      rw [IteratorBuf.phase, hc.2] at hrun
      exact invoke_emits hu hw hrun h.inside hr
    · exact ⟨⟨h₂.1, h₂.2⟩, fun hi => by cases hi⟩
  · rename_i hc
    refine ⟨h, fun hi => ⟨hsl, fun r hr => hc ?_⟩⟩
    simpa [hb.mpr ⟨r, hr⟩] using hi

theorem dereferenceAgain_emits (hu : u.Spec T) (hw : Sound w₀) (k : Nat) :
    ∀ {e buf ys w}, Dereferenced w₀ below e buf w →
      Emits T w₀ below (dereferenceAgain u k e buf ys) w fun o =>
        Dereferenced w₀ below o.1 o.2.1 := by
  -- on the dereferences still to come, which leave the emission at its position
  induction k with
  | zero => exact fun {e buf ys w} h => h
  | succ k ih =>
    intro e buf ys w h
    exact (dereference_emits hu hw h.toAccumulating).bind fun o w₁ h₁ => ih h₁

omit [Inhabited V] in
theorem increment_ends {e : Emission V} {buf : IteratorBuf V} (h : Dereferenced w₀ below e buf w) :
    Ends T w₀ (increment e buf) w fun o w' => At w₀ below o.1 .arrived w' ∧ o.2.invoked = false := by
  have hrun := h.running
  rw [IteratorBuf.phase] at hrun
  unfold increment
  dsimp only
  split
  · rename_i hi
    rw [if_pos hi] at hrun
    exact (next_ends hrun h.inside).bind fun e' w' h' => .pure ⟨h', rfl⟩
  · rename_i hi
    rw [if_neg hi] at hrun
    obtain ⟨⟨sl, hsl⟩, hun⟩ := h.uncallable (by simpa using hi)
    exact (skip_ends hrun h.inside hsl hun).bind fun e' w' h' => .pure ⟨h', rfl⟩

theorem accumulate_emits (hu : u.Spec T) (hT : ∀ w, T w) (hw : Sound w₀)
    (again : List (Option V) → Nat) (n : Nat) :
    ∀ {e buf yss w}, At w₀ below e .arrived w → buf.invoked = false →
      Emits T w₀ below (accumulate u again n e buf yss) w fun _ => Emitted w₀ below true := by
  induction n with
  | zero => exact fun {e buf yss w} _ _ => hT w
  | succ n ih =>
    intro e buf yss w h hi
    unfold accumulate
    split
    · rename_i hit
      exact emitted_of_it h hit
    · rename_i inside
      have hacc : Accumulating w₀ below e buf w := ⟨by rwa [IteratorBuf.phase, hi], inside⟩
      refine (dereference_emits hu hw hacc).bind fun o₁ w₁ h₁ => ?_
      refine (dereferenceAgain_emits hu hw _ h₁).bind fun o₂ w₂ h₂ => ?_
      exact (increment_ends h₂).emits fun o₃ w₃ h₃ => ih h₃.1 h₃.2

theorem emitAccumulated_ends (hu : u.Spec T) (hT : ∀ w, T w) {again : List (Option V) → Nat}
    {impl : Option Addr} (hw : Sound w) (calm : w.Calm)
    (owned : ∀ i, impl = some i → w.owned i = true) :
    wp (emitAccumulated u again impl) (fun _ => Goes w) (fun _ => Goes w) (Halts T w) w := by
  cases impl with
  | none => exact Goes.refl w
  | some i => exact around_ends hu hT hw calm (owned i rfl) fun e w₁ h =>
      accumulate_emits hu hT hw again u.fuel h rfl

theorem emit_ends (hu : u.Spec T) (hT : ∀ w, T w) {path : Path V} {impl : Option Addr}
    (hw : Sound w) (calm : w.Calm)
    (owned : ∀ i, impl = some i → w.owned i = true) :
    wp (emit u path impl) (fun _ => Goes w) (fun _ => Goes w) (Halts T w) w := by
  cases path with
  | void => exact emitVoid_ends hu hT hw calm owned
  | value => exact wp_bind.mpr (emitValue_ends hu hT hw calm owned)
  | accumulated again => exact wp_bind.mpr (emitAccumulated_ends hu hT hw calm owned)

end SignalEmit

end Sigc
