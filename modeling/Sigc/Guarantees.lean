import Sigc.Clearance

/-!
# What a signal guarantees

The invariants of a list are collected, and carried along whole runs.  What follows from them holds
at every point of every run of a program, in the middle of any function of the library, as long as
the execution count does not overflow.
-/

namespace Sigc

open Reasoning Prog

variable {V : Type} {w w' : World V} {i r : Addr} {n : SlotAddr} {self : SignalImpl}

namespace World

/-- What is known of the list `i` at every point of a run. -/
structure Tracked (w : World V) (i : Addr) : Prop where
  sound : Sound w
  discipline : w.Discipline i
  traversed : w.Traversed i
  depth : w.Depth i
  iterators : w.Iterators i
  told : w.Told
  origins : w.Origins i
  register : w.callables i = w.subscribed i

theorem Tracked.initial (script : List (Cmd V)) (i : Addr) : ({ script } : World V).Tracked i where
  sound := .initial script
  discipline :=
    { counted := .initial script
      onTop := fun _ h => by cases h
      silences := fun _ h => by cases h
      filled := fun _ _ h => by cases h
      parented := fun _ _ _ h => by
        obtain ⟨_, h, -⟩ := h.slot
        cases h
      stacked := fun _ h => by cases h
      cursors := fun _ h => by cases h
      await := fun h => by cases h
      cleared := fun _ _ _ _ h => by cases h }
  traversed :=
    { spans := fun _ h => by cases h
      nested := .nil
      progress := fun _ h => by cases h
      finished := fun _ _ h => by cases h }
  depth := ⟨fun h => absurd rfl h, fun h => absurd rfl h⟩
  iterators := fun _ h => by cases h
  told := fun _ h => by cases h
  origins := fun _ _ _ h => by
    obtain ⟨_, h, -⟩ := h.slot
    cases h
  register := rfl

theorem Tracked.step (ht : w.Tracked i) (h : Step w w') (bound : w.Fits i) : w'.Tracked i where
  sound := h.sound ht.sound
  discipline := ht.discipline.step h ht.sound bound
  traversed := ht.traversed.step ht.discipline h ht.sound bound
  depth := ht.depth.step h ht.sound ht.discipline ht.traversed bound
  iterators := ht.iterators.step h ht.sound ht.discipline ht.traversed ht.depth bound
  told := ht.told.step h ht.sound.toWellAddressed
  origins := ht.origins.step ht.discipline h ht.sound
  register := ht.discipline.subscribed_step ht.told h ht.sound bound ht.register

/-- Where no function runs on the list, no element waits for its removal. -/
theorem Tracked.parent_of_rest (ht : w.Tracked i) (impl : w.impls i = some self)
    (owned : w.owned i = true) (rest : w.execs i = 0) {rep : SlotRep} (entry : w.Entry i n r)
    (hrep : w.reps r = some rep) : rep.parent ≠ none := by
  intro hparent
  rcases ht.discipline.await owned self n r rep impl entry hrep hparent with hdef | ⟨f, hf, -⟩
  · rw [ht.discipline.counted.idle i self impl rest] at hdef
    cases hdef
  · rw [List.eq_nil_of_length_eq_zero (length_users.trans rest)] at hf
    cases hf

/-- When `clear()` is called, all slots that can be called are going to be removed. -/
theorem Tracked.doomed (ht : w.Tracked i) (impl : w.impls i = some self) {during saved : Bool}
    {it : Option SlotAddr} {v : World V}
    (clear : SignalImpl.enterClear i w = (.ret (during, saved, it), v)) (hn : n ∈ self.slots)
    (live : w.live n = some r) : v.Doomed i n := by
  obtain ⟨x, hx, rfl, rfl, rfl, -, rfl⟩ := SignalImpl.enterClear_effect clear
  obtain rfl := Option.some.inj (impl.symm.trans hx)
  obtain ⟨sl, rep, hsl, hr, hrep, hcall⟩ := live_eq_some.mp live
  intro self' impl' _
  have hself : { self with execCount := self.execCount + 1 } = self' :=
    Option.some.inj ((Function.update_self i _ w.impls).symm.trans impl')
  subst hself
  refine ⟨r, rep, ⟨⟨_, impl', hn⟩, sl, hsl, hr⟩, hrep, fun hm => ?_, .inr ⟨hcall, ?_⟩⟩
  · rcases List.mem_cons.mp hm with heq | hm
    · cases heq
    · rw [ht.discipline.silences _ hm r rfl rep hrep] at hcall
      cases hcall
  · obtain ⟨c, hc, hahead⟩ := Ahead.head hn
    refine ⟨c, decide (0 < self.execCount.toInt), self.deferred, ?_, hahead⟩
    rw [← hc]
    exact List.mem_filter.mpr ⟨List.mem_cons_self, by simp [Frame.execOn]⟩

/-- The slots that can be called stay in the list until they are disconnected. -/
theorem Tracked.sublist_callables (ht : w.Tracked i) (ht' : w'.Tracked i) (log : w.log <:+ w'.log) :
    List.Sublist ((w.callables i).filter fun r => .disconnected r ∉ w'.log) (w'.callables i) := by
  obtain ⟨later, hlog⟩ := log
  have hfilter : ((w.callables i).filter fun r => .disconnected r ∉ w'.log) =
      (w.subscribed i).filter fun r => .leave r ∉ later.filterMap (Event.subscription i) := by
    rw [← ht.register]
    apply List.filter_congr
    intro r hr
    obtain ⟨n, -, hn⟩ := List.mem_filterMap.mp hr
    have hold := ht.told.not_logged hn
    rw [decide_eq_decide, ← hlog, Event.leave_mem, List.mem_append, or_iff_left hold]
  rw [hfilter, ht'.register, World.subscribed, World.subscribed, ← hlog, List.filterMap_append]
  exact sublist_subscribers _ _

theorem Tracked.fits (ht : w.Tracked i) (hs : w.Shallow i) : w.Fits i :=
  ht.depth.fits ht.discipline.onTop hs

end World

theorem Steps.log_suffix (h : Steps w w') (hw : Sound w) : w.log <:+ w'.log :=
  (h.proceeds hw).extension.log

/-- A property of an element that every step preserves is carried along a run. -/
theorem Steps.tracked_induction {P : World V → Prop} (h : Steps w w') (ht : w.Tracked i)
    (hs : w'.Shallow i) (start : P w) (step : ∀ v v', v.Tracked i → v.Fits i → w.next ≤ v.next →
      Step v v' → P v → P v') : w'.Tracked i ∧ P w' := by
  -- from the start of the run: the bound on the depth holds before a step if it does after it
  induction h with
  | refl => exact ⟨ht, start⟩
  | tail hsteps hstep ih =>
    rename_i v v'
    have hv := (Steps.single hstep).log_suffix (Steps.sound hsteps ht.sound)
    obtain ⟨hv, hp⟩ := ih (hs.before hv)
    have hfits := hv.fits (hs.before ((Steps.single hstep).log_suffix hv.sound))
    exact ⟨hv.step hstep hfits, step v v' hv hfits
      (Steps.proceeds hsteps ht.sound).extension.next hstep hp⟩

theorem Steps.tracked (h : Steps w w') (ht : w.Tracked i) (hs : w'.Shallow i) : w'.Tracked i :=
  (h.tracked_induction (P := fun _ => True) ht hs trivial fun _ _ _ _ _ _ _ => trivial).1

section Guarantees

/-- Two slots; the one that is called first disconnects the other one, and after the emission a third
one is connected. -/
def disconnectingOther : List (Cmd Unit) :=
  [.newSignal, .makeSlot [], .connect 0 (.object 2) false false, .connect 0 (.object 2) true false,
    .emit 0 .void, .disconnect 7, .ret (), .ret (), .connect 0 (.object 2) false false]

@[irreducible] def duringEmission : World Unit := (run 60 (disconnectingOther.take 6)).2

@[irreducible] def afterEmission : World Unit := (run 60 disconnectingOther).2

theorem duringEmission_steps : ∃ script, Steps ({ script } : World Unit) duringEmission := by
  have hstops : stops (run 60 (disconnectingOther.take 6)).1 = true := by decide +kernel
  unfold duringEmission
  obtain ⟨script, hsteps, -⟩ := (Reachable.of_run hstops).steps
  exact ⟨script, hsteps⟩

theorem afterEmission_steps :
    ∃ script, Steps ({ script } : World Unit) afterEmission ∧ afterEmission.UserPoint := by
  have hstops : stops (run 60 disconnectingOther).1 = true := by decide +kernel
  unfold afterEmission
  exact (Reachable.of_run hstops).steps

/-- What is called through a pointer, to a depth that is enough for one command. -/
def fewCalls : Env Unit := { call := dispatch 20, fuel := 20 }

theorem fewCalls_spec : fewCalls.Spec (fun _ => True) :=
  dispatch_spec (fun _ => trivial) 20

theorem Ends.of_value {α : Type} {T : World V → Prop} {x : M V α} {Q : α → World V → Prop} {a : α}
    {v : World V} (h : Ends T w x v Q) (value : (x v).1.value = some a) : Q a (x v).2 := by
  unfold Ends wp at h
  rwa [run_of_value value] at h

/-- The world after the command `c`. -/
def World.after (w : World Unit) (c : Cmd Unit) : World Unit := (exec fewCalls c w).2

theorem World.after_goes {w : World Unit} {c : Cmd Unit} (hw : Sound w) (user : w.UserPoint)
    (wellFormed : c.wellFormed w = true) (value : (exec fewCalls c w).1.value = some ()) :
    Goes w (w.after c) := by
  have hexec := exec_executes fewCalls_spec (fun _ => trivial) hw user wellFormed
  unfold Executes wp at hexec
  rwa [run_of_value value] at hexec

/-- A signal with two slots; the destructors of their functors are going to return. -/
def twoSlots : World Unit :=
  ((((World.after { script := [.ret (), .ret ()] } .newSignal).after (.makeSlot [])).after
    (.connect 0 (.object 2) false false))).after (.connect 0 (.object 2) true false)

theorem World.after_steps {w : World Unit} {c : Cmd Unit}
    (h : ∃ script, Steps ({ script } : World Unit) w ∧ w.UserPoint)
    (wellFormed : c.wellFormed w = true) (value : (exec fewCalls c w).1.value = some ()) :
    ∃ script, Steps ({ script } : World Unit) (w.after c) ∧ (w.after c).UserPoint := by
  obtain ⟨script, hs, user⟩ := h
  have hgoes := after_goes (hs.sound (.initial script)) user wellFormed value
  exact ⟨script, hs.trans hgoes.1, user.of_frames hgoes.2⟩

theorem twoSlots_steps :
    ∃ script, Steps ({ script } : World Unit) twoSlots ∧ twoSlots.UserPoint := by
  apply World.after_steps _ (by decide +kernel) (by decide +kernel)
  apply World.after_steps _ (by decide +kernel) (by decide +kernel)
  apply World.after_steps _ (by decide +kernel) (by decide +kernel)
  apply World.after_steps _ (by decide +kernel) (by decide +kernel)
  exact ⟨_, .refl, .inl rfl⟩

theorem Steps.tracked_initial {script : List (Cmd V)} (h : Steps ({ script } : World V) w)
    (hs : w.Shallow i) : w.Tracked i :=
  h.tracked (.initial script i) hs

/-! ## The register -/

variable {script : List (Cmd V)}

/-- The slots that can be called are those that have been connected and not disconnected since, in
the order of their connections. -/
theorem Steps.callables_subscribed (h : Steps ({ script } : World V) w) (hs : w.Shallow i) :
    w.callables i = w.subscribed i :=
  (h.tracked_initial hs).register

theorem callables_afterEmission :
    afterEmission.callables 3 = [8, 12] ∧ afterEmission.subscribed 3 = [8, 12] := by
  obtain ⟨script, h, -⟩ := afterEmission_steps
  have hcallables : afterEmission.callables 3 = [8, 12] := by decide +kernel
  exact ⟨hcallables, (h.callables_subscribed (by decide +kernel)).symm.trans hcallables⟩

/-- No slot gets lost, and none is moved. -/
theorem Steps.callables_stay (h : Steps ({ script } : World V) w) (h' : Steps w w')
    (hs : w'.Shallow i) :
    List.Sublist ((w.callables i).filter fun r => .disconnected r ∉ w'.log) (w'.callables i) := by
  have hsuffix := h'.log_suffix (h.sound (.initial script))
  have ht := h.tracked_initial (hs.before hsuffix)
  exact ht.sublist_callables (h'.tracked ht hs) hsuffix

/-- The slot that is called last is disconnected. -/
theorem callables_stay_disconnect : ∃ w' : World Unit, Steps twoSlots w' ∧
    .disconnected 4 ∈ w'.log ∧ List.Sublist [8] (w'.callables 3) := by
  obtain ⟨script, h, user⟩ := twoSlots_steps
  have hgoes := World.after_goes (c := .disconnect 7) (h.sound (.initial script)) user
    (by decide +kernel) (by decide +kernel)
  have hlog : .disconnected 4 ∈ (twoSlots.after (.disconnect 7)).log := by decide +kernel
  have hstay := h.callables_stay (i := 3) hgoes.1 (by decide +kernel)
  have hfilter : ((twoSlots.callables 3).filter fun r =>
      .disconnected r ∉ (twoSlots.after (.disconnect 7)).log) = [8] := by
    decide +kernel
  rw [hfilter] at hstay
  exact ⟨_, hgoes.1, hlog, hstay⟩

/-- No functor is invoked through a slot that has been disconnected. -/
theorem Steps.not_called_late (h : Steps ({ script } : World V) w) {later earlier : List Event}
    (log : w.log = later ++ .invoked r :: earlier) : .disconnected r ∉ earlier := by
  have hboth : Sound w ∧ w.Told ∧ w.NotCalledLate := by
    refine h.preserves (P := fun w => Sound w ∧ w.Told ∧ w.NotCalledLate) ?_ ?_
    · refine ⟨.initial script, ?_, fun later _ _ heq => ?_⟩
      · intro q hq
        cases hq
      · cases later <;> cases heq
    · rintro v v' hstep ⟨hv, ht, hc⟩
      exact ⟨hstep.sound hv, ht.step hstep hv.toWellAddressed, hc.step ht hstep⟩
  exact hboth.2.2 later earlier r log

theorem not_called_afterEmission : ∃ later earlier,
    afterEmission.log = later ++ .invoked 8 :: earlier ∧ .disconnected 8 ∉ earlier := by
  obtain ⟨script, h, -⟩ := afterEmission_steps
  have hlog : afterEmission.log = [.connected 3 (some 12) false true, .notified 4 [],
      .disconnected 4] ++ .invoked 8 :: [.started 3 1 1, .connected 3 (some 8) true true,
      .connected 3 (some 4) false true] := by decide +kernel
  exact ⟨_, _, hlog, h.not_called_late hlog⟩

/-! ## The list at rest -/

/-- Where no function runs on the list, no removal is pending: every element is a slot that will
notify the list when it is disconnected, and it can be called unless it was connected empty.  An
element whose rep has been deleted is excepted, such as one connected by move in the course of it. -/
theorem Steps.settled_at_rest (h : Steps ({ script } : World V) w) (hs : w.Shallow i)
    (impl : w.impls i = some self) (owned : w.owned i = true) (rest : w.execs i = 0) :
    self.execCount = 0 ∧ self.deferred = false ∧ ∀ n ∈ self.slots, ∃ a sl r, n = .object a ∧
      w.slots n = some sl ∧ sl.rep = some r ∧ (w.reps r = none ∨ ∃ rep, w.reps r = some rep ∧
        (∃ d, rep.parent = some d ∧ rep.cleanup = some .notifySelfAndIterOfInvalidatedSlot ∧
          w.records d = some { self := i, iter := n }) ∧
        (rep.call = true ∨ ∃ first, .connected i (some r) first false ∈ w.log)) := by
  have ht := h.tracked_initial hs
  have hd := ht.discipline
  have hl := ht.sound.linked
  have hnone : w.users i = [] := List.eq_nil_of_length_eq_zero (World.length_users.trans rest)
  refine ⟨by rw [hd.counted.count i self impl, rest]; rfl, hd.counted.idle i self impl rest,
    fun n hn => ?_⟩
  obtain ⟨a, rfl⟩ := hl.element_object impl (by simp [hnone]) hn
  obtain ⟨sl, r, hsl, hr⟩ := hd.filled self a impl hn
  refine ⟨a, sl, r, rfl, hsl, hr, ?_⟩
  refine Option.eq_none_or_eq_some (w.reps r) |>.imp_right fun ⟨rep, hrep⟩ => ⟨rep, hrep, ?_⟩
  have entry : w.Entry i (.object a) r := ⟨⟨self, impl, hn⟩, sl, hsl, hr⟩
  have howner := (entry.holder hl hsl hr).2.1
  have hparent := ht.parent_of_rest impl owned rest entry hrep
  constructor
  · obtain ⟨d, hparent⟩ := Option.ne_none_iff_exists'.mp hparent
    have hcleanup := hl.parent _ sl i r rep hsl howner hr hrep (by simp [hparent])
    obtain ⟨si, x, hrecord, hx, hxr, hxo⟩ := hl.child r rep d hrep ⟨hparent, hcleanup⟩
    obtain ⟨hiter, howner', -⟩ := entry.holder hl hx hxr
    rw [hxo] at howner'
    refine ⟨d, hparent, hcleanup, ?_⟩
    rw [hrecord, ← hiter, ← Owner.list.inj howner']
  · cases hcall : rep.call with
    | true => exact .inl rfl
    | false => exact .inr ((ht.origins _ r rep entry hrep hcall).resolve_left hparent)

theorem settled_at_rest_afterEmission : ∃ self, afterEmission.impls 3 = some self ∧
    self.deferred = false ∧ ∀ n ∈ self.slots, ∃ a, n = .object a := by
  obtain ⟨script, h, -⟩ := afterEmission_steps
  have impl : afterEmission.impls 3 = some { slots := [.object 9, .object 13] } := by
    decide +kernel
  obtain ⟨-, hdeferred, hslots⟩ :=
    h.settled_at_rest (by decide +kernel) impl (by decide +kernel) (by decide +kernel)
  refine ⟨_, impl, hdeferred, fun n hn => ?_⟩
  obtain ⟨a, -, -, ha, -⟩ := hslots n hn
  exact ⟨a, ha⟩

/-! ## Emissions -/

/-- The slots that a running emission has found stay in the list, in the same order and followed by
its placeholder; its iterator has come to one of them, or to the placeholder. -/
theorem Steps.emission_spans (h : Steps ({ script } : World V) w) {e : Emission V}
    (hs : w.Shallow e.impl) (running : .emission e ∈ w.frames) :
    ∃ self before after passed rest, w.impls e.impl = some self ∧
      self.slots = before ++ (e.snapshot ++ [e.placeholder]) ++ after ∧
      e.snapshot ++ [e.placeholder] = passed ++ e.it :: rest ∧
      e.reached.map Prod.fst = if e.phase = .arrived then passed else passed ++ [e.it] := by
  have ht := (h.tracked_initial hs).traversed
  have he := World.emission_user running
  obtain ⟨self, impl, before, after, hslots⟩ := ht.spans e he
  obtain ⟨passed, rest, hrange, hreached⟩ := (ht.progress e he).position
  exact ⟨self, before, after, passed, rest, impl, hslots.symm, hrange, hreached⟩

/-- Is this the emission in which the slot that is called first has disconnected the other one? -/
def Frame.ofTwo : Frame Unit → Bool
  | .emission e => decide (e.impl = 3 ∧ e.snapshot = [.object 9, .object 5] ∧ e.phase = .invoking)
  | _ => false

/-- The slot that has been disconnected is still in the list. -/
theorem emission_spans_disconnected : ∃ (e : Emission Unit) (self : SignalImpl),
    .emission e ∈ duringEmission.frames ∧ duringEmission.impls 3 = some self ∧
      .object 5 ∈ self.slots ∧ duringEmission.live (.object 5) = none := by
  obtain ⟨script, h⟩ := duringEmission_steps
  have htwo : duringEmission.frames.any Frame.ofTwo = true := by decide +kernel
  obtain ⟨f, running, hf⟩ := List.any_eq_true.mp htwo
  cases f with
  | emission e =>
    obtain ⟨himpl, hsnapshot, -⟩ := of_decide_eq_true hf
    obtain ⟨self, before, after, passed, rest, impl, hslots, -⟩ :=
      h.emission_spans (himpl ▸ by decide +kernel) running
    rw [himpl] at impl
    refine ⟨e, self, running, impl, ?_, by decide +kernel⟩
    rw [hslots, hsnapshot]
    simp
  | _ => cases hf

/-- What an emission has done when it is over. -/
theorem Steps.emission_contract (h : Steps ({ script } : World V) w) {e : Emission V}
    {completed : Bool} (hs : w.Shallow e.impl) (finished : (e, completed) ∈ w.finished) :
    e.Contract completed :=
  (h.tracked_initial hs).traversed.finished e completed finished rfl

theorem emission_contract_afterEmission : ∃ e : Emission Unit, (e, true) ∈ afterEmission.finished ∧
    e.snapshot = [.object 9, .object 5] ∧ e.Contract true := by
  obtain ⟨script, h, -⟩ := afterEmission_steps
  have htwo : (afterEmission.finished.any fun p =>
      decide (p.1.impl = 3 ∧ p.1.snapshot = [.object 9, .object 5] ∧ p.2 = true)) = true := by
    decide +kernel
  obtain ⟨⟨e, completed⟩, finished, he⟩ := List.any_eq_true.mp htwo
  obtain ⟨himpl, hsnapshot, rfl⟩ := of_decide_eq_true he
  exact ⟨e, finished, hsnapshot, h.emission_contract (himpl ▸ by decide +kernel) finished⟩

/-! ## Nested functions -/

/-- Of the functions that run on a list, only the one that was called first erases elements. -/
theorem Steps.erases_outermost (h : Steps ({ script } : World V) w) (hs : w.Shallow i)
    (impl : w.impls i = some self) {inner outer : List (Frame V)} {f : Frame V}
    (users : w.users i = inner ++ f :: outer) (erases : f.erases = true) : outer = [] :=
  (h.tracked_initial hs).discipline.stacked self impl f outer
    (users ▸ List.suffix_append inner (f :: outer)) erases

/-- A slot is disconnected and erased, and the destructor of its functor emits the signal. -/
@[irreducible] def emittedFromErase : World Unit :=
  (run 60 [.newSignal, .makeSlot [], .connect 0 (.object 2) false false,
    .connect 0 (.object 2) true false, .disconnect 7, .emit 0 .void]).2

/-- Is this the erasure of the slot `n` of the list `i`? -/
def Frame.isErase (i : Addr) (n : SlotAddr) : Frame Unit → Bool
  | .erase i' n' => decide (i' = i ∧ n' = n)
  | _ => false

/-- The erasure has been called where no other function ran on the list. -/
theorem erases_outermost_nested : ∃ (e : Frame Unit) (inner : List (Frame Unit)),
    emittedFromErase.users 3 = e :: inner ++ [.erase 3 (.object 5)] := by
  have hstops : stops (run (V := Unit) 60 [.newSignal, .makeSlot [],
      .connect 0 (.object 2) false false, .connect 0 (.object 2) true false, .disconnect 7,
      .emit 0 .void]).1 = true := by decide +kernel
  obtain ⟨script, h⟩ : ∃ script, Steps ({ script } : World Unit) emittedFromErase := by
    unfold emittedFromErase
    obtain ⟨script, hsteps, -⟩ := (Reachable.of_run hstops).steps
    exact ⟨script, hsteps⟩
  have impl : emittedFromErase.impls 3 =
      some { slots := [.object 9, .placeholder 4], execCount := 2 } := by decide +kernel
  have herase : emittedFromErase.frames.any (Frame.isErase 3 (.object 5)) = true := by decide +kernel
  obtain ⟨f, running, hf⟩ := List.any_eq_true.mp herase
  cases f with
  | erase i n =>
    obtain ⟨rfl, rfl⟩ := of_decide_eq_true hf
    have user : .erase 3 (.object 5) ∈ emittedFromErase.users 3 :=
      List.mem_filter.mpr ⟨running, by decide⟩
    obtain ⟨inner, outer, users⟩ := List.append_of_mem user
    obtain rfl := h.erases_outermost (by decide +kernel) impl users rfl
    cases inner with
    | nil =>
      have htwo : (emittedFromErase.users 3).length = 2 := by decide +kernel
      rw [users] at htwo
      cases htwo
    | cons e inner => exact ⟨e, inner, users⟩
  | _ => cases hf

/-- No iterator is invalidated while a function holds it. -/
theorem Steps.iterators_valid (h : Steps ({ script } : World V) w) (hs : w.Shallow i)
    (impl : w.impls i = some self) {f : Frame V} (running : f ∈ w.users i)
    (iterator : f.iterator = some n) : n ∈ self.slots :=
  (h.tracked_initial hs).iterators self impl f running n iterator

theorem iterators_valid_disconnected : ∃ (f : Frame Unit) (self : SignalImpl),
    f ∈ duringEmission.users 3 ∧ duringEmission.impls 3 = some self ∧
      ∀ n, f.iterator = some n → n ∈ self.slots := by
  obtain ⟨script, h⟩ := duringEmission_steps
  have htwo : duringEmission.frames.any Frame.ofTwo = true := by decide +kernel
  obtain ⟨f, running, hf⟩ := List.any_eq_true.mp htwo
  have impl : duringEmission.impls 3 = some
      { slots := [.object 9, .object 5, .placeholder 0], execCount := 1, deferred := true } := by
    decide +kernel
  cases f with
  | emission e =>
    obtain ⟨himpl, -, -⟩ := of_decide_eq_true hf
    have user : .emission e ∈ duringEmission.users 3 := himpl ▸ World.emission_user running
    exact ⟨_, _, user, impl, fun n hn => h.iterators_valid (by decide +kernel) impl user hn⟩
  | _ => cases hf

/-! ## `clear()` -/

/-- Whether it is called within an emission or not, `clear()` removes all slots that can be called:
where no function runs on the list any more, they are gone. -/
theorem Steps.clear_removes (h : Steps ({ script } : World V) w) (calm : w.Calm)
    {during saved : Bool} {it : Option SlotAddr} {v : World V}
    (clear : SignalImpl.enterClear i w = (.ret (during, saved, it), v)) (h' : Steps v w')
    (hs : w'.Shallow i) (owned : w'.owned i = true) (rest : w'.execs i = 0)
    {self self' : SignalImpl} (impl : w.impls i = some self) (hn : n ∈ self.slots)
    (live : w.live n = some r) (impl' : w'.impls i = some self') : n ∉ self'.slots := by
  have hw := h.sound (.initial script)
  have hstep : Step w v := .signal (.enterClear calm clear)
  have hv := hstep.sound hw
  have hlog := ((Steps.single hstep).log_suffix hw).trans (h'.log_suffix hv)
  have ht := h.tracked_initial (hs.before hlog)
  cases n with
  | placeholder d =>
    rw [World.live_placeholder hw.toWellAddressed] at live
    cases live
  | object a =>
    have ha : a < v.next := by
      obtain ⟨sl, rep, hsl, -⟩ := World.live_eq_some.mp live
      exact Nat.lt_of_lt_of_le (hw.slots a sl hsl) (hstep.advances hw.toWellAddressed).extension.next
    obtain ⟨ht', hdoomed⟩ := h'.tracked_induction (P := fun w => w.Doomed i (.object a))
      (ht.step hstep (ht.fits (hs.before hlog))) hs (ht.doomed impl clear hn live)
      fun v₁ v₂ ht₁ bound hle hstep hdoomed =>
        ht₁.discipline.doomed_step hstep ht₁.sound bound (Nat.lt_of_lt_of_le ha hle) hdoomed
    intro hn'
    obtain ⟨q, rep, entry, hrep, -, hnone | ⟨-, c, during', saved', hf, -⟩⟩ :=
      hdoomed self' impl' hn'
    · exact ht'.parent_of_rest impl' owned rest entry hrep hnone
    · rw [List.eq_nil_of_length_eq_zero (World.length_users.trans rest)] at hf
      cases hf

/-- Both slots of `twoSlots` are removed. -/
theorem clear_removes_both : ∃ (v w' : World Unit) (self : SignalImpl), Steps v w' ∧
    SignalImpl.enterClear 3 twoSlots = (.ret (false, false, some (.object 9)), v) ∧
    w'.impls 3 = some self ∧ .object 5 ∉ self.slots := by
  obtain ⟨script, h, user⟩ := twoSlots_steps
  have hvalue : (SignalImpl.enterClear 3 twoSlots).1.value =
      some (false, false, some (.object 9)) := by decide +kernel
  have hrun := run_of_value hvalue
  have impl : twoSlots.impls 3 = some { slots := [.object 9, .object 5] } := by decide +kernel
  have hv := (h.tail (.signal (.enterClear user.calm hrun))).sound (.initial script)
  obtain ⟨self, himpl, -, -, hit, -, heq⟩ := SignalImpl.enterClear_effect hrun
  have top : (SignalImpl.enterClear 3 twoSlots).2.frames =
      .clear 3 (some (.object 9)) none false false :: twoSlots.frames := by
    rw [heq]
    rfl
  have hloop := SignalImpl.disconnectLoop_ends fewCalls_spec (fun _ => trivial) hv fewCalls.fuel
    .refl top fun n hn => ⟨{ slots := [.object 9, .object 5], execCount := 1 },
      by decide +kernel, by cases hn; exact List.mem_cons_self⟩
  obtain ⟨hs₁, top₁⟩ := hloop.of_value (a := ()) (by decide +kernel)
  generalize hw₁ : (SignalImpl.disconnectLoop fewCalls 3 false false fewCalls.fuel
    (some (.object 9)) (SignalImpl.enterClear 3 twoSlots).2).2 = w₁ at hs₁ top₁
  have hs₂ := hs₁.tail (.signal (.recordCleared top₁))
  have impl₂ : (w₁.record (.cleared 3)).impls 3 = some
      { slots := [.object 9, .object 5], execCount := 1, deferred := true } := by
    rw [← hw₁]
    decide +kernel
  have hs₃ := hs₂.tail (.signal (.restoreDeferred (i := 3) top₁ impl₂))
  have hclear := SignalImpl.clearSlots_ends fewCalls_spec (fun _ => trivial) hv fewCalls.fuel hs₃
    top₁
  obtain ⟨hs₄, top₄, hempty⟩ := hclear.of_value (a := ()) (by rw [← hw₁]; decide +kernel)
  have hleave := SignalImpl.leaveClear_ends fewCalls_spec (fun _ => trivial) hv hs₄ top₄
    fun self impl _ => hempty self impl
  obtain ⟨hs₅, -, -⟩ := hleave.of_value (a := ()) (by rw [← hw₁]; decide +kernel)
  refine ⟨_, _, {}, hs₅, hrun, by rw [← hw₁]; decide +kernel, ?_⟩
  exact h.clear_removes user.calm hrun hs₅ (by rw [← hw₁]; decide +kernel)
    (by rw [← hw₁]; decide +kernel) (by rw [← hw₁]; decide +kernel) impl (r := 4)
    (by simp) (by decide +kernel) (by rw [← hw₁]; decide +kernel)

end Guarantees

end Sigc
