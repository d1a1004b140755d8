import Sigc.ClientRuns
import Sigc.ExecCount
import Sigc.Reasoning.Alike
import Mathlib.Algebra.Group.Nat.Defs

/-!
# The three bodies of `signal_emit` agree

The two bodies without an accumulator against the one whose accumulator dereferences every position
once: from any state and for any behaviour of the handlers they make the same calls.  For an empty
list the first two return at once, where the third one holds the list for a moment.
-/

namespace Sigc

open Reasoning Prog

variable {V : Type} {u : Env V} {w w' : World V}

/-- An accumulator that dereferences each position exactly once. -/
def once : List (Option V) → Nat := fun _ => 0

def Event.invokes : Event → Bool
  | .invoked _ => true
  | _ => false

/-- Two worlds that the program cannot tell apart, and the same invocations have led to both: only
what the model records about the emissions themselves may differ. -/
structure World.Agrees (w w' : World V) : Prop where
  state : { w with finished := [], log := [] } = { w' with finished := [], log := [] }
  invoked : w.log.filter Event.invokes = w'.log.filter Event.invokes

/-- The lists, the slots and the stack are compared one by one. -/
theorem World.Agrees.of_fields {v : World V} (impls : v.impls = w.impls) (slots : v.slots = w.slots)
    (frames : v.frames = w.frames) (rest : { v with
      impls := w.impls, slots := w.slots, frames := w.frames, finished := [], log := [] } =
        { w with finished := [], log := [] })
    (invoked : w.log.filter Event.invokes = v.log.filter Event.invokes) : w.Agrees v := by
  refine ⟨rest.symm.trans ?_, invoked⟩
  rw [← impls, ← slots, ← frames]

theorem World.Agrees.refl (w : World V) : w.Agrees w := ⟨rfl, rfl⟩

namespace SignalEmit

/-! ## One position -/

/-- To test a slot changes nothing, and does not throw. -/
theorem callable_run (it : SlotAddr) (w : World V) :
    (∃ b, Emission.callable it w = (.ret b, w)) ∨ ∃ k, Emission.callable it w = (.halt k, w) := by
  unfold Emission.callable
  cases hs : w.slots it with
  | none => exact .inr ⟨_, bind_of_halt (deref_of_none (s := w) hs)⟩
  | some sl =>
    rw [bind_of_ret (deref_of_some (s := w) hs)]
    cases hr : sl.rep with
    | none => exact .inl ⟨_, rfl⟩
    | some r =>
      cases hrep : w.reps r with
      | none => exact .inr ⟨_, bind_of_halt (deref_of_none (s := w) hrep)⟩
      | some rep => exact .inl ⟨_, bind_of_ret (deref_of_some (s := w) hrep)⟩

variable [Inhabited V]

/-- `*it` at a new position: the slot is invoked where it can be, and the buffer is written. -/
theorem dereference_run (e : Emission V) (r_ : Option V) (w : World V) :
    dereference u e { r_, invoked := false } w = (do
      if ← Emission.callable e.it then do
        let (e, v) ← Emission.invoke u e
        pure (e, ({ r_ := some v, invoked := true } : IteratorBuf V))
      else pure (e, ({ r_, invoked := false } : IteratorBuf V))) w := by
  unfold dereference
  obtain ⟨b, hb⟩ | ⟨k, hk⟩ := callable_run e.it w
  · rw [bind_of_ret hb, bind_of_ret hb]
    cases b with
    | false => rfl
    | true =>
      -- the slot is tested twice in the same state
      have hcall : callSlotAt u e w = Emission.invoke u e w := by
        unfold callSlotAt
        rw [bind_of_ret hb]
        rfl
      exact bind_congr_run hcall
  · rw [bind_of_halt hk, bind_of_halt hk]

/-- One position of the walk of an accumulator that dereferences it once. -/
theorem accumulate_succ {n : Nat} {e : Emission V} {r_ : Option V} {yss : List (List (Option V))}
    (inside : e.it ≠ e.placeholder) :
    accumulate u once (n + 1) e { r_, invoked := false } yss w = (do
      if ← Emission.callable e.it then do
        let (e, v) ← Emission.invoke u e
        let e ← Emission.advance e
        accumulate u once n e { r_ := some v, invoked := false } (yss ++ [[some v]])
      else do
        let e ← Emission.skip e
        accumulate u once n e { r_, invoked := false } (yss ++ [[r_]])) w := by
  rw [accumulate, if_neg inside]
  refine (bind_congr_run (dereference_run e r_ w)).trans (bind_assoc_run.trans ?_)
  obtain ⟨b, hb⟩ | ⟨k, hk⟩ := callable_run e.it w
  · rw [bind_of_ret hb, bind_of_ret hb]
    cases b with
    | false => exact bind_assoc_run (x := Emission.skip e)
    | true =>
      rw [if_pos rfl, if_pos rfl, bind_assoc_run]
      exact bind_congr_right fun o w₁ _ => bind_assoc_run (x := Emission.advance o.1)
  · rw [bind_of_halt hk, bind_of_halt hk]

/-! ## The loops -/

theorem voidLoop_alike (n : Nat) (e : Emission V) (r_ : Option V) (yss : List (List (Option V)))
    (w : World V) : Alike Eq (fun _ _ => True) (voidLoop u n e)
      (accumulate u once n e { r_, invoked := false } yss) w := by
  -- on the rounds left, from the same state on: both loops test, invoke and move on alike
  induction n generalizing e r_ yss w with
  | zero => exact alike_halt _
  | succ n ih =>
    by_cases hit : e.it = e.placeholder
    · rw [voidLoop, accumulate, if_pos hit, if_pos hit]
      exact alike_pure trivial rfl
    · unfold Alike
      rw [accumulate_succ hit, voidLoop, if_neg hit]
      refine Alike.bind_same (fun b w₁ _ => ?_) fun _ => rfl
      cases b with
      | false => exact Alike.bind_same (fun e' w₂ _ => ih e' _ _ w₂) fun _ => rfl
      | true =>
        refine Alike.bind_same (fun o w₂ _ => ?_) fun _ => rfl
        exact Alike.bind_same (fun e' w₃ _ => ih e' _ _ w₃) fun _ => rfl

theorem valueLoop_alike (n : Nat) (e : Emission V) (v : V) (r_ : Option V)
    (yss : List (List (Option V))) (w : World V) : Alike Eq (fun _ _ => True) (valueLoop u n e v)
      (accumulate u once n e { r_, invoked := false } yss) w := by
  -- the same, with the last value in `r_`
  induction n generalizing e v r_ yss w with
  | zero => exact alike_halt _
  | succ n ih =>
    by_cases hit : e.it = e.placeholder
    · rw [valueLoop, accumulate, if_pos hit, if_pos hit]
      exact alike_pure trivial rfl
    · unfold Alike
      rw [accumulate_succ hit, valueLoop, if_neg hit]
      refine Alike.bind_same (fun b w₁ _ => ?_) fun _ => rfl
      cases b with
      | false => exact Alike.bind_same (fun e' w₂ _ => ih e' _ _ _ w₂) fun _ => rfl
      | true =>
        refine Alike.bind_same (fun o w₂ _ => ?_) fun _ => rfl
        exact Alike.bind_same (fun e' w₃ _ => ih e' _ _ _ w₃) fun _ => rfl

/-- The first loop does not differ from the second one before a slot has been invoked. -/
theorem valueSearch_alike (n : Nat) (e : Emission V) (r_ : Option V)
    (yss : List (List (Option V))) (w : World V) : Alike Eq (fun _ _ => True) (valueSearch u n e)
      (accumulate u once n e { r_, invoked := false } yss) w := by
  induction n generalizing e r_ yss w with
  | zero => exact alike_halt _
  | succ n ih =>
    by_cases hit : e.it = e.placeholder
    · rw [valueSearch, accumulate, if_pos hit, if_pos hit]
      exact alike_pure trivial rfl
    · unfold Alike
      rw [accumulate_succ hit, valueSearch, if_neg hit]
      refine Alike.bind_same (fun b w₁ _ => ?_) fun _ => rfl
      cases b with
      | false => exact Alike.bind_same (fun e' w₂ _ => ih e' _ _ w₂) fun _ => rfl
      | true =>
        refine Alike.bind_same (fun o w₂ _ => ?_) fun _ => rfl
        exact Alike.bind_same (fun e' w₃ _ => valueLoop_alike n e' _ _ _ w₃) fun _ => rfl

/-! ## The early return -/

/-- The list of `i` in use for a moment, by an emission that finds it empty. -/
def around (i : Addr) (w : World V) : Emission V :=
  { impl := i, placeholder := .placeholder w.frames.length,
    it := .placeholder w.frames.length, snapshot := [] }

omit [Inhabited V] in
theorem start_empty {i : Addr} {self : SignalImpl} (impl : w.impls i = some self)
    (empty : self.slots = []) (live : w.frames.any (Frame.destroys i) = false) :
    ∃ v, Emission.start i w = (.ret (around i w), v) ∧
      v = ((((w.setImpl i (some { self with
        slots := [.placeholder w.frames.length]
        execCount := self.execCount + 1 })).setSlot (.placeholder w.frames.length)
          (some { owner := .list i })).push (.emission (around i w))).record
            (.started i (w.frames.countP (Frame.emissionOf i) + 1) (w.execs i + 1))) := by
  have hload : SignalImpl.loadSlots i (w.setImpl i (some { self with
      execCount := self.execCount + 1 })) = (.ret [], w.setImpl i (some { self with
        execCount := self.execCount + 1 })) :=
    SignalImpl.loadSlots_eq_ret.mpr ⟨_, Function.update_self _ _ _, empty, live, rfl⟩
  have hrun : ∃ e w', Emission.start i w = (.ret e, w') := by
    unfold Emission.start
    rw [bind_of_ret (SignalImpl.referenceExec_eq_ret (a := ()).mpr ⟨self, impl, rfl⟩),
      bind_of_ret hload, read_bind_run, modify_bind_run,
      bind_of_ret (SignalImpl.setSlots_eq_ret (a := ()).mpr ⟨_, Function.update_self _ _ _, rfl⟩)]
    exact ⟨_, _, rfl⟩
  obtain ⟨e, w', hrun⟩ := hrun
  obtain ⟨self', himpl, -, he, hw'⟩ := Emission.start_effect hrun
  obtain rfl := Option.some.inj (impl.symm.trans himpl)
  simp only [empty, List.headD_nil, List.nil_append] at he hw'
  subst he
  exact ⟨w', hrun, hw'⟩

omit [Inhabited V] in
/-- The end of an emission that was the only one, or not the only one, without a removal to make. -/
theorem leave_empty {i : Addr} {self : SignalImpl} {sweep : Addr → M V Unit}
    (impl : w.impls i = some self)
    (quiet : (decide (self.execCount - 1 = 0) && self.deferred) = false)
    (owned : ((w.decrement i self).setTop (.releasing i)).owned i = true) :
    SignalImpl.leaveHolder u sweep i w = (.ret (), (w.decrement i self).pop) := by
  have hmust : SignalImpl.mustSweep i ((w.decrement i self).setTop (.holding i)) =
      (.ret false, (w.decrement i self).setTop (.holding i)) := by
    unfold SignalImpl.mustSweep
    have hload : loadImpl i ((w.decrement i self).setTop (.holding i)) =
        (.ret { self with execCount := self.execCount - 1 },
          (w.decrement i self).setTop (.holding i)) := deref_of_some (Function.update_self _ _ _)
    rw [bind_of_ret hload, ← quiet]
    rfl
  unfold SignalImpl.leaveHolder
  rw [bind_of_ret (SignalImpl.decrementExec_eq_ret (a := ()).mpr ⟨self, impl, rfl⟩),
    modify_bind_run, bind_of_ret hmust]
  rw [if_neg Bool.false_ne_true, pure_bind_run, modify_bind_run]
  unfold SignalImpl.release
  rw [read_bind_run]
  have howned : (((w.decrement i self).setTop (.holding i)).setTop (.releasing i)).owned i = true :=
    owned
  rw [howned, if_pos rfl, pure_bind_run]
  rfl

omit [Inhabited V] in
/-- The end of an emission that has found the list empty: `v` is the world in the course of it. -/
theorem finish_empty {h i : Addr} {self : SignalImpl} {v : World V} {x : Option SlotBase}
    (hw : Sound w) (hc : w.Counted) (handle : w.implOf h = some i) (bound : w.execs i < 2 ^ 15)
    (impl : w.impls i = some self) (empty : self.slots = [])
    (live : w.frames.any (Frame.destroys i) = false)
    (impls : v.impls = Function.update w.impls i (some { self with
      slots := [.placeholder w.frames.length], execCount := self.execCount + 1 }))
    (slots : v.slots = Function.update w.slots (.placeholder w.frames.length) x)
    (frames : v.frames = .emission (around i w) :: w.frames) (handles : v.handles = w.handles)
    (rest : { v with
      impls := w.impls, slots := w.slots, frames := w.frames, finished := [], log := [] } =
        { w with finished := [], log := [] })
    (invoked : w.log.filter Event.invokes = v.log.filter Event.invokes) :
    ∃ w', Emission.finish u true v = (.ret (), w') ∧ w.Agrees w' := by
  have hhead : v.frames.head? = some (.emission (around i w)) := by rw [frames]; rfl
  have hself : v.impls i = some { self with
      slots := [.placeholder w.frames.length], execCount := self.execCount + 1 } := by
    rw [impls, Function.update_self]
  have hload : SignalImpl.loadSlots i v = (.ret [.placeholder w.frames.length], v) := by
    refine SignalImpl.loadSlots_eq_ret.mpr ⟨_, hself, rfl, ?_, rfl⟩
    rw [frames]
    exact live
  have hunlink : SignalImpl.unlink .cursor i (.placeholder w.frames.length) v =
      (.ret (), v.setImpl i (some { self with slots := [], execCount := self.execCount + 1 })) := by
    unfold SignalImpl.unlink
    rw [bind_of_ret hload, if_pos (List.mem_singleton_self _)]
    refine SignalImpl.setSlots_eq_ret.mpr ⟨_, hself, ?_⟩
    simp
  have hrun : Emission.finish u true v = SignalImpl.leaveHolder u (SignalImpl.sweep u u.fuel) i
      { (v.setImpl i (some { self with
        slots := [], execCount := self.execCount + 1 })).setSlot (.placeholder w.frames.length)
          none with finished := (around i w, true) :: v.finished } := by
    unfold Emission.finish
    rw [read_bind_run, hhead]
    exact bind_of_ret hunlink
  have hquiet : (decide (self.execCount + 1 - 1 = 0) && self.deferred) = false := by
    -- nothing is deferred where nobody else has the list in use
    rw [BitVec.add_sub_cancel, Bool.and_eq_false_imp]
    intro hzero
    have hmod := congrArg BitVec.toNat (hc.count i self impl)
    rw [of_decide_eq_true hzero, BitVec.toNat_ofNat] at hmod
    change 0 = _ at hmod
    exact hc.idle i self impl (by omega)
  have howned : ((w.handles.any fun p => p.2 = some i) : Bool) = true :=
    List.any_eq_true.mpr ⟨_, World.mem_handles_of_implOf handle, by simp⟩
  refine ⟨_, hrun.trans (leave_empty (Function.update_self _ _ _) hquiet ?_), .of_fields ?_ ?_ ?_
    rest invoked⟩
  · change (v.handles.any _ || _) = true
    rw [handles, howned, Bool.true_or]
  · have hsame : ({ self with slots := [], execCount := self.execCount + 1 - 1 } : SignalImpl) =
        self := by
      rw [BitVec.add_sub_cancel, ← empty]
    change Function.update (Function.update v.impls i _) i (some { self with
      slots := [], execCount := self.execCount + 1 - 1 }) = w.impls
    rw [hsame, impls, Function.update_idem, Function.update_idem, ← impl, Function.update_eq_self]
  · change Function.update v.slots _ _ = _
    rw [slots, Function.update_idem, ← hw.linked.placeholder_free hw.toWellAddressed,
      Function.update_eq_self]
  · change v.frames.tail = _
    rw [frames]
    rfl

/-- An emission of an empty list leaves no trace in what the program sees. -/
theorem emitAccumulated_empty {h i : Addr} {self : SignalImpl} (hw : Sound w) (hc : w.Counted)
    (handle : w.implOf h = some i) (bound : w.execs i < 2 ^ 15) (fuel : 0 < u.fuel)
    (impl : w.impls i = some self) (empty : self.slots = [])
    (live : w.frames.any (Frame.destroys i) = false) :
    ∃ w', emitAccumulated u once (some i) w = (.ret [], w') ∧ w.Agrees w' := by
  obtain ⟨n, hn⟩ : ∃ n, u.fuel = n + 1 := ⟨u.fuel - 1, by omega⟩
  obtain ⟨v, hstart, hv⟩ := start_empty impl empty live
  obtain ⟨w', hrun, hagree⟩ := finish_empty (u := u) (v := v) hw hc handle bound impl empty live
    (by rw [hv]; rfl) (by rw [hv]; rfl) (by rw [hv]; rfl) (by rw [hv]; rfl) (by rw [hv]; rfl)
    (by rw [hv]; rfl)
  refine ⟨w', onExit_of_ret ((bind_of_ret hstart).trans ?_) hrun, hagree⟩
  rw [hn, accumulate]
  exact congrFun (if_pos (rfl : (around i w).it = (around i w).placeholder)) _

omit [Inhabited V] in
/-- A list that cannot be read stops the emission with an accumulator, too. -/
theorem start_halts {i : Addr} {k : Halt} {w' : World V}
    (h : SignalImpl.loadSlots i w = (.halt k, w')) : ∃ w'', Emission.start i w = (.halt k, w'') := by
  unfold SignalImpl.loadSlots at h
  unfold Emission.start
  cases himpl : w.impls i with
  | none =>
    have hnone : loadImpl i w = (.halt (.fault .deadImpl), w) := deref_of_none (s := w) himpl
    rw [bind_of_halt hnone] at h
    cases h
    exact ⟨w, bind_of_halt (bind_of_halt hnone)⟩
  | some self =>
    have hself : loadImpl i w = (.ret self, w) := deref_of_some (s := w) himpl
    rw [bind_of_ret hself, read_bind_run] at h
    rw [bind_of_ret (SignalImpl.referenceExec_eq_ret (a := ()).mpr ⟨self, himpl, rfl⟩)]
    have hself' : loadImpl i (w.setImpl i (some { self with execCount := self.execCount + 1 })) =
        (.ret { self with execCount := self.execCount + 1 },
          w.setImpl i (some { self with execCount := self.execCount + 1 })) :=
      deref_of_some (Function.update_self _ _ _)
    split at h
    · rename_i live
      cases h
      have hload : SignalImpl.loadSlots i (w.setImpl i (some { self with
          execCount := self.execCount + 1 })) =
            (.halt (.fault .reentered),
              w.setImpl i (some { self with execCount := self.execCount + 1 })) := by
        unfold SignalImpl.loadSlots
        rw [bind_of_ret hself', read_bind_run]
        exact congrFun (if_pos live) _
      exact ⟨_, bind_of_halt hload⟩
    · cases h

omit [Inhabited V] in
theorem loadSlots_ne_throw (i : Addr) (w : World V) (e : Nat) (w' : World V) :
    SignalImpl.loadSlots i w ≠ (.throw e, w') := by
  intro h
  unfold SignalImpl.loadSlots at h
  cases himpl : w.impls i with
  | none =>
    have hnone : loadImpl i w = (.halt (.fault .deadImpl), w) := deref_of_none (s := w) himpl
    rw [bind_of_halt hnone] at h
    cases h
  | some self =>
    have hself : loadImpl i w = (.ret self, w) := deref_of_some (s := w) himpl
    rw [bind_of_ret hself, read_bind_run] at h
    split at h <;> cases h

/-- The two bodies without an accumulator, from the loop that they run where the list is not
empty. -/
theorem emit_agrees {α : Type} {h : Addr} {impl : Option Addr} (hw : Sound w) (hc : w.Counted)
    (handle : w.implOf h = impl) (bound : ∀ i, impl = some i → w.execs i < 2 ^ 15)
    (fuel : 0 < u.fuel) {a : α} {loop : Emission V → M V α}
    (alike : ∀ e w, Alike Eq (fun _ _ => True) (loop e) (accumulate u once u.fuel e {} []) w) :
    Alike World.Agrees (fun _ _ => True)
      (match impl with
        | none => pure a
        | some i => do
          let slots ← SignalImpl.loadSlots i
          if slots = [] then pure a else
          onExit (do
            let e ← Emission.start i
            loop e) (Emission.finish u))
      (emitAccumulated u once impl) w := by
  cases impl with
  | none => exact alike_pure trivial (.refl w)
  | some i =>
    unfold Alike
    rcases hl : SignalImpl.loadSlots i w with ⟨l | e | k, w'⟩
    · obtain ⟨self, himpl, rfl, live, rfl⟩ := SignalImpl.loadSlots_eq_ret.mp hl
      simp only [bind_of_ret hl]
      by_cases hempty : self.slots = []
      -- No slots: the two bodies return at once, the third finds nothing to dereference.
      · rw [if_pos hempty]
        obtain ⟨w', hrun, hw'⟩ :=
          emitAccumulated_empty hw hc handle (bound i rfl) fuel himpl hempty live
        rw [hrun]
        exact ⟨trivial, hw'⟩
      -- The same start, the loops that agree, and the same finish.
      · rw [if_neg hempty]
        have hbody : Alike Eq (fun (_ : α) (_ : List (List (Option V))) => True)
            (Emission.start i >>= loop) (do
              let e ← Emission.start i
              accumulate u once u.fuel e {} []) w' :=
          Alike.bind_same (fun e w₁ _ => alike e w₁) fun _ => rfl
        exact (Alike.onExit hbody).mono fun s t hst => hst ▸ .refl s
    · exact absurd hl (loadSlots_ne_throw i w e w')
    -- A read of a list that is gone is undefined in each of them.
    · obtain ⟨w'', hstart⟩ := start_halts hl
      have hbody : (do
          let e ← Emission.start i
          accumulate u once u.fuel e {} []) w = (.halt k, w'') := bind_of_halt hstart
      have hrun : emitAccumulated u once (some i) w = (.halt k, w'') := onExit_of_halt hbody
      simp only [bind_of_halt hl, hrun]
      exact rfl

/-- From every state of every run, for any behaviour of the handlers: the emission without
accumulator, with or without a result, and the one whose accumulator dereferences every position
once invoke the same slots in the same order, let the same exception out, and leave the program in
the same state. -/
theorem paths_agree {h : Addr} (hw : Reachable w)
    (bound : ∀ i, w.implOf h = some i → w.execs i < 2 ^ 15)
    (fuel : 0 < u.fuel) :
    Alike World.Agrees (fun _ _ => True) (emitVoid u (w.implOf h))
        (emitAccumulated u once (w.implOf h)) w ∧
      Alike World.Agrees (fun _ _ => True) (emitValue u (w.implOf h))
        (emitAccumulated u once (w.implOf h)) w := by
  obtain ⟨script, hs, -⟩ := hw.steps
  have hsound := hs.sound (.initial script)
  have hcounted := hs.counted (.initial script) (.initial script)
  exact ⟨emit_agrees hsound hcounted rfl bound fuel fun e w =>
      voidLoop_alike u.fuel e none [] w,
    emit_agrees hsound hcounted rfl bound fuel fun e w =>
      valueSearch_alike u.fuel e none [] w⟩

/-- A signal with one slot, from outside of any emission. -/
theorem paths_agree_outside : ∃ w : World Unit, (w.implOf 0).isSome = true ∧
    Alike World.Agrees (fun _ _ => True)
        (emitVoid { call := dispatch 20, fuel := 20 } (w.implOf 0))
        (emitAccumulated { call := dispatch 20, fuel := 20 } once (w.implOf 0)) w ∧
      Alike World.Agrees (fun _ _ => True)
        (emitValue { call := dispatch 20, fuel := 20 } (w.implOf 0))
        (emitAccumulated { call := dispatch 20, fuel := 20 } once (w.implOf 0)) w := by
  have hw : Reachable (run (V := Unit) 20 [.newSignal, .makeSlot [],
    .connect 0 (.object 2) false false]).2 := .of_run (by decide +kernel)
  have hlen : (run (V := Unit) 20 [.newSignal, .makeSlot [],
    .connect 0 (.object 2) false false]).2.frames.length = 0 := by decide +kernel
  refine ⟨_, ?_, paths_agree hw (fun i _ => ?_) (by decide)⟩
  · decide +kernel
  · have hle := hlen ▸ List.countP_le_length (p := Frame.execOn i)
      (l := (run (V := Unit) 20 [.newSignal, .makeSlot [],
        .connect 0 (.object 2) false false]).2.frames)
    unfold World.execs
    omega

end SignalEmit

end Sigc
