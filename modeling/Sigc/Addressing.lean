import Sigc.Extends

/-!
# Every step extends the world

Case by case, every step from a well-addressed world leads to one that extends it.
-/

namespace Sigc

open Reasoning Prog

variable {V : Type} {w w' : World V}

/-! ## Signals and handles -/

theorem SignalImpl.link_advances {i : Addr} {first : Bool} {n : SlotAddr} {u : Unit}
    (hw : WellAddressed w) (run : link i first n w = (.ret u, w')) : Advances w w' := by
  unfold link at run
  simp only [bind_eq_ret, loadSlots_eq_ret, setSlots_eq_ret] at run
  obtain ⟨_, _, ⟨_, _, rfl, _, rfl⟩, self, himpl, rfl⟩ := run
  exact .setImpl hw himpl

theorem SlotRep.constructDummy_advances {r : Addr} (hw : WellAddressed w)
    (run : constructDummy w = (.ret r, w')) :
    Advances w w' ∧ r < w'.next ∧ w'.slots = w.slots := by
  unfold constructDummy at run
  simp only [bind_eq_ret, alloc_eq_ret, modify_eq_ret, pure_eq_ret] at run
  obtain ⟨_, _, ⟨rfl, rfl⟩, _, _, rfl, rfl, rfl⟩ := run
  refine ⟨.heap hw (Nat.le_succ _) (.create (Nat.le_refl _) (Nat.lt_succ_self _))
    (.create (Nat.le_refl _) (Nat.lt_succ_self _)) (.refl _ _ _) List.suffix_rfl ?_ ?_
    fun r hr rep hrep => .inl ⟨rep, (Function.update_of_ne (Nat.ne_of_lt hr) _ _).trans hrep⟩,
    Nat.lt_succ_self _, rfl⟩
  · intro r rep hrep
    simp only [World.setRep] at hrep
    -- The dummy has no functor; the other reps are as they were.
    by_cases hr : r = w.next
    · subst hr
      rw [Function.update_self] at hrep
      exact .inr fun f hf => by simp [← Option.some.inj hrep] at hf
    · rw [Function.update_of_ne hr] at hrep
      exact .inl (hw.reps r rep hrep)
  · intro r rep tr hrep htr
    simp only [World.setRep] at hrep htr
    -- Nothing is registered with its base yet.
    by_cases hr : r = w.next
    · subst hr
      rw [Function.update_self] at htr
      exact .empty (by rw [← Option.some.inj htr])
    · rw [Function.update_of_ne hr] at hrep htr
      exact hw.weakOnly r rep tr hrep htr

theorem SlotBase.setParent_advances {s : SlotAddr} {d : Addr} {c : DestroyNotify} {u : Unit}
    (hw : WellAddressed w) (hs : ∀ k, s ≠ .placeholder k)
    (run : setParent s d c w = (.ret u, w')) : Advances w w' := by
  unfold setParent repOrDummy loadRep at run
  simp only [bind_eq_ret, loadIntact_eq_ret, deref_eq_ret, modify_eq_ret] at run
  obtain ⟨r, w₁, ⟨sl, _, ⟨⟨hsl, hd⟩, rfl⟩, hdummy⟩, rep, _, ⟨hrep, rfl⟩, rfl⟩ := run
  -- A slot without rep gets a dummy_slot_rep first.
  have h₁ : Advances w w₁ := by
    cases hr : sl.rep with
    | some q =>
      simp only [hr, pure_eq_ret] at hdummy
      exact hdummy.2 ▸ .refl hw
    | none =>
      simp only [hr, bind_eq_ret, modify_eq_ret, pure_eq_ret] at hdummy
      obtain ⟨q, w₂, hcons, _, _, rfl, rfl, rfl⟩ := hdummy
      obtain ⟨h₂, hlt, hslots⟩ := SlotRep.constructDummy_advances hw hcons
      have hsl₂ : w₂.slots s = some sl := hslots ▸ hsl
      have hb : SlotBase.Becomes sl { sl with rep := some q } :=
        ⟨rfl, fun h => by simp [hd] at h, fun _ _ _ hir => by simp [hr] at hir⟩
      exact h₂.trans (.setSlot h₂.addressed hsl₂ hb fun r hqr =>
        .inr ⟨Option.some.inj hqr ▸ hlt, hs⟩)
  exact h₁.trans (.setRep h₁.addressed hrep ⟨id, .inr rfl⟩)

theorem SignalImpl.place_advances {i : Addr} {first : Bool} {n : SlotAddr} {u : Unit}
    (hw : WellAddressed w) (hn : ∀ d, n ≠ .placeholder d)
    (run : place i first n w = (.ret u, w')) : Advances w w' := by
  unfold place addNotificationToIter at run
  simp only [bind_eq_ret, alloc_eq_ret, modify_eq_ret] at run
  obtain ⟨_, w₁, hlink, _, w₂, ⟨_, _, ⟨rfl, rfl⟩, _, _, rfl, hparent⟩, rfl⟩ := run
  have h₁ := link_advances hw hlink
  have hi : i < w₁.next := by
    unfold link at hlink
    simp only [bind_eq_ret, loadSlots_eq_ret, setSlots_eq_ret] at hlink
    obtain ⟨_, _, ⟨_, _, rfl, _, rfl⟩, self, himpl, rfl⟩ := hlink
    exact hw.impls i self himpl
  -- The self_and_iter record is a new object, which points to an existing list.
  have h₂ : Advances w₁ (World.setRecord { w₁ with next := w₁.next + 1 } w₁.next
      (some { self := i, iter := n })) := by
    refine .setRecords h₁.addressed (Nat.le_succ _)
      (.create (Nat.le_refl _) (Nat.lt_succ_self _)) fun d si hd => ?_
    by_cases hdn : d = w₁.next
    · subst hdn
      rw [Function.update_self] at hd
      exact .inr (Option.some.inj hd ▸ Nat.lt_succ_of_lt hi)
    · rw [Function.update_of_ne hdn] at hd
      exact .inl hd
  have h₃ := SlotBase.setParent_advances h₂.addressed hn hparent
  exact ((h₁.trans h₂).trans h₃).trans (.record h₃.addressed _)

theorem SignalImpl.insertBuilt_advances {i : Addr} {first : Bool} {init : SlotInit} {n : SlotAddr}
    (hw : WellAddressed w) (functor : ∀ f, init.functor = some f → w.FunctorOk f)
    (run : insertBuilt i first init w = (.ret n, w')) : Advances w w' := by
  unfold insertBuilt at run
  simp only [bind_eq_ret, pure_eq_ret] at run
  obtain ⟨_, _, hcons, _, _, hplace, rfl, rfl⟩ := run
  have h₁ := SlotBase.construct_advances hw functor hcons
  refine h₁.trans (place_advances h₁.addressed ?_ hplace)
  rintro d rfl
  obtain ⟨-, hs, -⟩ | ⟨_, _, _, _, -, -, hs, -⟩ := SlotBase.construct_effect hcons <;> cases hs

theorem SignalImpl.insertTaken_advances {i : Addr} {first : Bool} {src n : SlotAddr} {blocked : Bool}
    (hw : WellAddressed w) (source : ¬w.Listed src)
    (run : insertTaken i first src blocked w = (.ret n, w')) : Advances w w' := by
  unfold insertTaken at run
  simp only [bind_eq_ret, pure_eq_ret] at run
  obtain ⟨_, _, htake, _, _, hplace, rfl, rfl⟩ := run
  have h₁ := SlotBase.takeRep_advances hw source htake
  refine h₁.trans (place_advances h₁.addressed ?_ hplace)
  rintro d rfl
  obtain ⟨_, -, hs, -⟩ := SlotBase.takeRep_effect htake
  cases hs

/-- `impl_` of an existing handle changes to a signal that is shared already, or to a new one. -/
theorem Advances.setHandle {h : Addr} {i : Option Addr} (hw : WellAddressed w)
    (hi : ∀ j, i = some j → w.owned j = true ∧ j < w.next) : Advances w (w.setHandle h i) :=
  .handles hw (Nat.le_refl _) fun p hp => (World.mem_setHandle hp).imp_right <| by
    rintro ⟨rfl, j, hj⟩
    exact ⟨(hw.handles _ hj).1, fun k hk => ⟨(hi k hk).2, fun _ => (hi k hk).1⟩⟩

theorem WellAddressed.impl_lt (hw : WellAddressed w) {h i : Addr} (hi : w.implOf h = some i) :
    i < w.next :=
  (hw.handles _ (World.mem_handles_of_implOf hi)).2 i rfl

theorem SignalBase.impl_advances {h i : Addr} (hw : WellAddressed w)
    (run : impl h w = (.ret i, w')) : Advances w w' := by
  obtain ⟨-, rfl⟩ | ⟨-, rfl, rfl⟩ := impl_effect run
  · exact .refl hw
  · refine .signals hw (Nat.le_succ _) (.create (Nat.le_refl _) (Nat.lt_succ_self _)) fun p hp =>
      (World.mem_setHandle hp).imp_right ?_
    rintro ⟨rfl, j, hj⟩
    refine ⟨Nat.lt_succ_of_lt (hw.handles _ hj).1, ?_⟩
    rintro _ ⟨⟩
    exact ⟨Nat.lt_succ_self _, fun hlt => absurd hlt (Nat.lt_irrefl _)⟩

theorem SignalBase.new_advances {i : Option Addr} {h : Addr} (hw : WellAddressed w)
    (hi : ∀ j, i = some j → w.owned j = true ∧ j < w.next) (run : new i w = (.ret h, w')) :
    Advances w w' := by
  obtain ⟨rfl, rfl⟩ := new_effect run
  refine .handles hw (Nat.le_succ _) fun p hp => (List.mem_cons.mp hp).symm.imp_right ?_
  rintro rfl
  exact ⟨Nat.lt_succ_self _, fun j hj => ⟨Nat.lt_succ_of_lt (hi j hj).2, fun _ => (hi j hj).1⟩⟩

/-- The signal that `impl()` returns is shared by the handle. -/
theorem SignalBase.owned_of_impl {h i : Addr} (hh : ∃ o, (h, o) ∈ w.handles)
    (run : impl h w = (.ret i, w')) : w'.owned i = true := by
  obtain ⟨hi, rfl⟩ | ⟨hi, rfl, rfl⟩ := impl_effect run
  · exact World.owned_of_implOf hi
  · obtain ⟨o, ho⟩ := hh
    refine World.owned_of_handle (h := h) ?_
    simp only [World.setHandle, World.setImpl, List.mem_map]
    exact ⟨_, ho, by simp⟩

theorem WellAddressed.owned_lt (hw : WellAddressed w) {i : Addr} (ho : w.owned i = true) :
    i < w.next := by
  -- By a handle, or by a frame that holds a pointer.
  obtain ⟨h, hm⟩ | ⟨f, hm, hf⟩ := World.owned_iff.mp ho
  · exact (hw.handles _ hm).2 i rfl
  · have hok := hw.frames f hm
    cases f <;> first | cases hf | exact of_decide_eq_true hf ▸ hok

theorem SignalBase.letGo_advances {i old : Option Addr} (hw : WellAddressed w)
    (hi : ∀ j, i = some j → j < w.next) (run : letGo i w = (.ret old, w')) : Advances w w' := by
  obtain ⟨-, hw'⟩ := letGo_effect run
  cases i with
  | none => exact hw' ▸ .refl hw
  | some i => exact hw' ▸ World.letGo_advances hw (hi i rfl)

/-! ## Steps -/

theorem World.rep_lt_of_mem_dependents {t : Addr} {d : Dependent} (hd : d ∈ w.dependents t) :
    d.rep < w.next := by
  obtain ⟨r, hr, hsome⟩ := List.mem_filterMap.mp hd
  have hlt := List.mem_range.mp hr
  cases hrep : w.reps r with
  | none => simp [hrep] at hsome
  | some rep =>
    simp only [hrep] at hsome
    split at hsome
    · rw [← Option.some.inj hsome]
      exact hlt
    · cases hsome

theorem TrackableStep.advances (h : TrackableStep w w') (hw : WellAddressed w) :
    Advances w w' := by
  cases h with
  | construct =>
    refine .trackables hw (Nat.le_succ _) (.create (Nat.le_refl _) (Nat.lt_succ_self _))
      (.refl _ _ _) fun r rep tr hrep htr => ?_
    rw [Function.update_of_ne (Nat.ne_of_lt (hw.reps r rep hrep))] at htr
    exact hw.weakOnly r rep tr hrep htr
  | beginDestroy alive client =>
    exact .setTrackable hw alive (fun _ => rfl) (·.of_callbackList rfl)
  | @endDestroy t tr alive client notified =>
    refine .trackables hw (Nat.le_refl _) (.erase _) (.refl _ _ _) fun r rep tr hrep htr => ?_
    by_cases hr : r = t
    · rw [hr, Function.update_self] at htr
      cases htr
    · rw [Function.update_of_ne hr] at htr
      exact hw.weakOnly r rep tr hrep htr
  | notifyNone alive list => exact .record hw _
  | @beginNotify t tr l alive list idle reason calm =>
    have h₁ := Advances.setTrackable hw alive
      (x := { tr with callbackList := some { l with clearing := true } }) id
      (·.of_callbackList (by simp [Trackable.callbacks, list]))
    exact h₁.trans (.push h₁.addressed
      ⟨hw.trackables t tr alive, fun _ hd => World.rep_lt_of_mem_dependents hd⟩ (by simp [Frame.owns]))
  | @skip t tr l pos deps below cb top alive list element inactive =>
    have hf : Frame.Ok w (.notifying t pos deps) := hw.frames _ (top ▸ List.mem_cons_self)
    exact .setTop hw hf (by simp [Frame.owns])
  | @notifyWeak t tr l pos deps below cb c top alive list element func weak =>
    have hf : Frame.Ok w (.notifying t pos deps) := hw.frames _ (top ▸ List.mem_cons_self)
    have h₁ : Advances w (w.setWeak cb.data (some { c with ptr := none })) :=
      .trackables hw (Nat.le_refl _) (.refl _ _ _) (.update weak rfl) hw.weakOnly
    exact h₁.trans (.setTop h₁.addressed hf (by simp [Frame.owns]))
  | @endNotify t tr l pos deps below top alive list done =>
    have h₁ := Advances.setTrackable hw alive (x := { tr with callbackList := none }) id
      fun _ => .empty rfl
    have h₂ := h₁.trans (.record h₁.addressed (.notified t deps))
    exact h₂.trans (.pop h₂.addressed)

theorem WeakStep.advances (h : WeakStep w w') (hw : WellAddressed w) : Advances w w' := by
  cases h with
  | refer s => exact .record hw _
  | construct user source run => exact WeakRawPtr.construct_advances hw run
  | assign user connection run =>
    obtain ⟨mid, tks, ign, self, from_, hself, -, rfl, hun, hreg⟩ := WeakRawPtr.assign_effect run
    refine .trackables hw (Nat.le_refl _) ((hun.evolves fun _ => rfl).trans (Nat.le_refl _)
      (Nat.le_refl _) (hreg.changed.evolves fun _ => rfl)) (.update hself rfl)
      fun r rep tr hrep htr => ?_
    exact hreg.changed.weakOnly (fun _ => .addCallback) htr fun tr' htr' =>
      hun.weakOnly (fun _ => .removeCallback) htr' (hw.weakOnly r rep · hrep)
  | destroy user connection run => exact WeakRawPtr.destroy_advances hw run

theorem WellAddressed.ne_placeholder (hw : WellAddressed w) {s : SlotAddr} {sl : SlotBase}
    (h : w.slots s = some sl) (hs : ¬w.Listed s) (d : Nat) : s ≠ .placeholder d := by
  rintro rfl
  obtain ⟨-, i, hi⟩ := hw.placeholder d sl h
  exact hs ⟨sl, i, h, hi⟩

theorem Sever.advances {r : Addr} (h : Sever r w w') (hw : WellAddressed w) : Advances w w' := by
  cases h with
  | none alive parent => exact .sever hw alive
  | rep alive parent cleanup calm => exact .sever hw alive
  | @expired rep d si alive parent cleanup record expired =>
    have h₁ := Advances.sever hw alive
    exact h₁.trans (.setRecord h₁.addressed d)
  | @defer rep d si self alive parent cleanup record owned impl executing =>
    have h₁ := Advances.sever hw alive
    have h₂ := h₁.trans (.setImpl h₁.addressed impl (y := { self with deferred := true }))
    exact h₂.trans (.setRecord h₂.addressed d)
  | @erase rep d si self sl alive parent cleanup record owned impl idle element slot calm =>
    have h₁ := Advances.sever hw alive
    have h₂ := h₁.trans (.push (f := .cleanup d) h₁.addressed (hw.records d si record)
      (by simp [Frame.owns]))
    -- The holder of the erase needs a list that is still shared.
    have h₃ := h₂.trans (.push (f := .erase si.self si.iter) h₂.addressed
      (hw.recordSelf d si record) fun j hj => by
        obtain rfl : si.self = j := of_decide_eq_true hj
        exact World.owned_iff.mpr ((World.owned_iff.mp owned).imp_right (Exists.imp fun f =>
          And.imp_left (List.mem_cons_of_mem _))))
    exact h₃.trans (.unlinkDying h₃.addressed impl slot)

/-- The first half of `notify_slot_rep_invalidated()`. -/
theorem World.invalidating_advances {w₁ : World V} {r x : Addr} {rep : SlotRep}
    (hw : WellAddressed w) (alive : w.reps r = some rep)
    (run : WeakRawPtr.construct (some (.rep r)) true
      ((w.setRep r (some { rep with call := false })).record (.disconnected r)) = (.ret x, w₁)) :
    Advances w (w₁.push (.invalidating r x)) := by
  have h₁ := Advances.setRep hw alive (x := { rep with call := false }) ⟨by simp, .inr rfl⟩
  have h₂ := h₁.trans (.record h₁.addressed (.disconnected r))
  -- call_ is cleared, the log is written, and the notifier is built.
  have h₃ := h₂.trans (WeakRawPtr.construct_advances h₂.addressed run)
  have hlt : r < w₁.next ∧ x < w₁.next := by
    obtain ⟨rfl, tks, ign, rfl, -⟩ := WeakRawPtr.construct_effect run
    exact ⟨Nat.lt_succ_of_lt (hw.reps r rep alive), Nat.lt_succ_self _⟩
  exact h₃.trans (.push h₃.addressed hlt (by simp [Frame.owns]))

theorem SlotStep.advances (h : SlotStep w w') (hw : WellAddressed w) : Advances w w' := by
  cases h with
  | construct unlisted functor run => exact SlotBase.construct_advances hw functor run
  | move r => exact .record hw _
  | take unlisted source told run => exact SlotBase.takeRep_advances hw source run
  | setBlocked b alive =>
    exact .setSlot hw alive ⟨rfl, fun h => ⟨h, rfl⟩, fun _ _ _ => id⟩ fun _ => .inl
  | beginDestroy alive unlisted =>
    exact .setSlot hw alive ⟨rfl, fun _ => ⟨rfl, rfl⟩, fun _ _ _ => id⟩ fun _ => .inl
  | endDestroy empty => exact .eraseSlot hw _
  | sever h => exact h.advances hw
  | startInvalidation calm alive run sever =>
    have h₁ := World.invalidating_advances hw alive run
    exact h₁.trans (sever.advances h₁.addressed)
  | detach top run => exact SlotRep.detachFunctor_advances hw run
  | endInvalidation top weak gutted run =>
    have h₁ := Advances.pop hw
    exact h₁.trans (WeakRawPtr.destroy_advances h₁.addressed run)
  | @endCallback w₁ r x c t pos deps below tr l top weak gutted run alive list element =>
    have h₁ := Advances.pop hw
    have h₂ := h₁.trans (WeakRawPtr.destroy_advances h₁.addressed run)
    have htop : w₁.frames = .notifying t pos deps :: below := by
      obtain ⟨tks, _, -, rfl, -⟩ := WeakRawPtr.destroy_effect run
      simp [World.pop, top]
    have hok : Frame.Ok w₁ (.notifying t pos deps) :=
      h₂.addressed.frames _ (htop ▸ List.mem_cons_self)
    exact h₂.trans (.setTop h₂.addressed hok (by simp [Frame.owns]))
  | @beginDelete w' r base fo s sl calm alive idle slot rep unlisted run =>
    have h₁ := Advances.setTrackable hw alive (x := { base with dying := true })
      (fun _ => rfl) (·.of_callbackList rfl)
    have h₂ := h₁.trans (.push (f := .deleting r) h₁.addressed (hw.trackables r base alive)
      (by simp [Frame.owns]))
    exact h₂.trans (SlotRep.detachFunctor_advances h₂.addressed run)
  | @endDelete r base below top alive notified =>
    have h₁ : Advances w ((w.setRep r none).setTrackable r none) :=
      .reps hw (.erase r) (.erase r)
        (fun q rep tr hrep htr => by
          by_cases hq : q = r
          · rw [hq, Function.update_self] at htr
            cases htr
          · rw [Function.update_of_ne hq] at htr
            exact hw.weakOnly q rep tr hrep htr)
        fun q rep hrep => by
          by_cases hq : q = r
          · exact .inr (by simp [hq])
          · exact .inl ⟨rep, (Function.update_of_ne hq _ _).trans hrep⟩
    exact h₁.trans (.pop h₁.addressed)
  | @startCheck w₁ s sl r x calm alive rep unlisted run =>
    have h₁ := WeakRawPtr.construct_advances hw run
    have hlt : r < w₁.next ∧ x < w₁.next := by
      obtain ⟨rfl, tks, ign, rfl, -⟩ := WeakRawPtr.construct_effect run
      exact ⟨Nat.lt_succ_of_lt (hw.slotRep s sl r alive rep), Nat.lt_succ_self _⟩
    exact h₁.trans (.push h₁.addressed hlt (by simp [Frame.owns]))
  | @clearRep s sl r x below top alive intact unlisted =>
    have h₁ := Advances.setSlot hw alive (x := { sl with rep := none })
      ⟨rfl, fun h => by simp [intact] at h, fun i _ hi => absurd ⟨sl, i, alive, hi⟩ unlisted⟩ (by simp)
    exact h₁.trans (.record h₁.addressed _)
  | endCheck top run =>
    have h₁ := Advances.pop hw
    exact h₁.trans (WeakRawPtr.destroy_advances h₁.addressed run)
  | cloneFor calm unlisted functor run => exact SlotBase.cloneFor_advances hw functor run
  | moveFor calm unlisted source told run => exact SlotBase.moveFor_advances hw source run
  | @finishAssign dst new self below top alive intact unlisted =>
    have hlt : new < w.next := hw.frames (.assigning dst new) (top ▸ List.mem_cons_self)
    have h₁ := Advances.setSlot hw alive (x := { self with rep := some new })
      ⟨rfl, fun h => by simp [intact] at h, fun i _ hi => absurd ⟨self, i, alive, hi⟩ unlisted⟩
      fun r hr => .inr ⟨Option.some.inj hr ▸ hlt, hw.ne_placeholder alive unlisted⟩
    have h₂ := h₁.trans (.record h₁.addressed
      (.replaced dst (self.rep.any fun r => (w.trackables r).isSome)))
    exact h₂.trans (.pop h₂.addressed)
  | @pushHandler r rep calm alive call =>
    have h₁ := Advances.record hw (.invoked r)
    exact h₁.trans (.push h₁.addressed (hw.reps r rep alive) (by simp [Frame.owns]))
  | popHandler top => exact .pop hw
  | @pushFunctorDtor r f calm used functor gutted =>
    exact .push hw ⟨used, gutted, functor⟩ (by simp [Frame.owns])
  | @nextTarget r t ts below top =>
    obtain ⟨hlt, hgutted, hfunctor⟩ := hw.frames (.functorDtor r (t :: ts))
      (top ▸ List.mem_cons_self)
    exact .setTop hw ⟨hlt, hgutted,
      { slot := fun s hs => hfunctor.slot s (List.mem_cons_of_mem _ hs)
        trackable := fun s hs => hfunctor.trackable s (List.mem_cons_of_mem _ hs) }⟩
      (by simp [Frame.owns])
  | popFunctorDtor top => exact .pop hw

theorem WellAddressed.top (hw : WellAddressed w) {f : Frame V} {below : List (Frame V)}
    (top : w.frames = f :: below) : f.Ok w := hw.frames f (top ▸ List.mem_cons_self)

/-- The frame on top is replaced by one for the same signal. -/
theorem Advances.replaceTop {f g : Frame V} {below : List (Frame V)} (hw : WellAddressed w)
    (top : w.frames = f :: below) (hok : f.Ok w → g.Ok w)
    (ho : ∀ i, g.owns i = true → f.owns i = true) : Advances w (w.setTop g) :=
  .setTop hw (hok (hw.top top)) fun i hi =>
    World.owned_of_frame (top ▸ List.mem_cons_self) (ho i hi)

/-- A holder on top releases the execution count. -/
theorem SignalImpl.holding_advances {i : Addr} {f : Frame V} {below : List (Frame V)}
    {self y : SignalImpl} (hw : WellAddressed w) (top : w.frames = f :: below)
    (owns : f.owns i = true) (impl : w.impls i = some self) :
    Advances w ((w.decrement i y).setTop (.holding i)) := by
  have h₁ := Advances.setImpl hw impl (y := { y with execCount := y.execCount - 1 })
  refine h₁.trans (.setTop h₁.addressed (hw.impls i self impl) fun j hj => ?_)
  obtain rfl : i = j := of_decide_eq_true hj
  exact World.owned_of_frame (w := w) (top ▸ List.mem_cons_self) owns

theorem SignalStep.advances (h : SignalStep w w') (hw : WellAddressed w) : Advances w w' := by
  cases h with
  | insertBuilt user owned functor run => exact SignalImpl.insertBuilt_advances hw functor run
  | insertTaken user owned source told run => exact SignalImpl.insertTaken_advances hw source run
  | new =>
    exact .handles hw (Nat.le_succ _) fun p hp => (List.mem_cons.mp hp).symm.imp_right <| by
      rintro rfl
      exact ⟨Nat.lt_succ_self _, by simp⟩
  | impl run => exact SignalBase.impl_advances hw run
  | @copyConstruct w' src h handle run =>
    obtain ⟨i, w₁, hrun, hnew⟩ : ∃ i w₁, SignalBase.impl src w = (.ret i, w₁) ∧
        SignalBase.new (some i) w₁ = (.ret h, w') := by
      unfold SignalBase.copyConstruct at run
      simpa only [bind_eq_ret] using run
    have h₁ := SignalBase.impl_advances hw hrun
    have hhandle : ∃ o, (src, o) ∈ w.handles := by
      obtain ⟨⟨k, o⟩, hm, hk⟩ := List.any_eq_true.mp handle
      exact ⟨o, (of_decide_eq_true hk : k = src) ▸ hm⟩
    have ho := SignalBase.owned_of_impl hhandle hrun
    refine h₁.trans (SignalBase.new_advances h₁.addressed ?_ hnew)
    rintro _ ⟨⟩
    exact ⟨ho, h₁.addressed.owned_lt ho⟩
  | moveConstruct run =>
    obtain ⟨rfl, rfl⟩ := SignalBase.moveConstruct_effect run
    refine .handles hw (Nat.le_succ _) fun p hp => ?_
    rcases List.mem_cons.mp hp with rfl | hp
    · exact .inr ⟨Nat.lt_succ_self _, fun i hi =>
        ⟨Nat.lt_succ_of_lt (hw.impl_lt hi), fun _ => World.owned_of_implOf hi⟩⟩
    · refine (World.mem_setHandle hp).imp_right ?_
      rintro ⟨rfl, j, hj⟩
      exact ⟨Nat.lt_succ_of_lt (hw.handles _ hj).1, by simp⟩
  | @replaceImpl w' h i old calm owned run =>
    obtain ⟨hold, hgo⟩ := SignalBase.replaceImpl_effect run
    have h₁ : Advances w (w.setHandle h i) :=
      .setHandle hw fun j hj => ⟨owned j hj, hw.owned_lt (owned j hj)⟩
    exact h₁.trans (SignalBase.letGo_advances h₁.addressed
      (fun j hj => hw.impl_lt (hold.symm.trans hj)) hgo)
  | @dropHandle w' h old calm run =>
    obtain ⟨hold, hgo⟩ := SignalBase.dropHandle_effect run
    have h₁ : Advances w { w with handles := w.handles.filter (·.1 ≠ h) } :=
      .handles hw (Nat.le_refl _) fun p hp => .inl ((List.mem_filter.mp hp).1)
    exact h₁.trans (SignalBase.letGo_advances h₁.addressed
      (fun j hj => hw.impl_lt (hold.symm.trans hj)) hgo)
  | endRelease top done => exact .pop hw
  | endDispose top unowned idle alive empty =>
    exact .signals hw (Nat.le_refl _) (.erase _) fun _ => .inl
  | @endCleanup d below top =>
    have h₁ := Advances.setRecord hw d
    exact h₁.trans (.pop h₁.addressed)
  | enterClear calm run => exact SignalImpl.enterClear_advances hw run
  | clearNext top impl next severed => exact .replaceTop hw top id (by simp [Frame.owns])
  | recordCleared top => exact .record hw _
  | restoreDeferred top impl => exact .setImpl hw impl
  | @clearErase i saved below self s rest sl top impl slots alive =>
    have h₁ := Advances.unlinkDying (y := self) hw impl alive
    exact h₁.trans (.replaceTop h₁.addressed top id (by simp [Frame.owns]))
  | clearErased top gone => exact .replaceTop hw top id (by simp [Frame.owns])
  | @leaveClear i during saved below self top impl cleared quiet =>
    have h₁ := Advances.setImpl hw impl (y := { self with execCount := self.execCount - 1 })
    exact h₁.trans (.pop h₁.addressed)
  | @leaveClearSweep w' i during saved below self it top impl cleared sweeps owned run =>
    have h₁ := Advances.setImpl hw impl (y := { self with execCount := self.execCount - 1 })
    have h₂ := h₁.trans (.pop h₁.addressed)
    exact h₂.trans (SignalImpl.enterSweep_advances h₂.addressed owned run)
  | sweepSkip top impl next keep => exact .replaceTop hw top id fun _ => id
  | @sweepErase i it it' below self sl top impl next element empty alive =>
    have h₁ := Advances.unlinkDying (y := self) hw impl alive
    exact h₁.trans (.replaceTop h₁.addressed top id fun _ => id)
  | sweepErased top gone => exact .replaceTop hw top id fun _ => id
  | @leaveHolder i below f self top holder impl quiet =>
    have hf : f.owns i = true := by
      obtain rfl | ⟨n, rfl, -⟩ := holder <;> simp [Frame.owns]
    exact SignalImpl.holding_advances hw top hf impl
  | @leaveHolderSweep w' i below f self it top holder impl sweeps run =>
    have hf : f.owns i = true := by
      obtain rfl | ⟨n, rfl, -⟩ := holder <;> simp [Frame.owns]
    have h₁ := SignalImpl.holding_advances (y := self) hw top hf impl
    exact h₁.trans (SignalImpl.enterSweep_advances h₁.addressed
      (World.owned_of_frame List.mem_cons_self (by simp [Frame.owns])) run)
  | startRelease top => exact .replaceTop hw top id (by simp [Frame.owns])

theorem Emission.start_advances {i : Addr} {e : Emission V} (hw : WellAddressed w)
    (owned : w.owned i = true) (run : Emission.start i w = (.ret e, w')) : Advances w w' := by
  obtain ⟨self, impl, -, rfl, rfl⟩ := start_effect run
  have h₁ := Advances.setImpl hw impl (y := { self with
    slots := self.slots ++ [.placeholder w.frames.length], execCount := self.execCount + 1 })
  have h₂ := h₁.trans (.setPlaceholder h₁.addressed w.frames.length i)
  have h₃ := h₂.trans (.push (f := .emission {
      impl := i
      placeholder := .placeholder w.frames.length
      it := self.slots.headD (.placeholder w.frames.length)
      snapshot := self.slots }) h₂.addressed (hw.impls i self impl) fun j hj => by
    obtain rfl : i = j := of_decide_eq_true hj
    exact owned)
  exact h₃.trans (.record h₃.addressed _)

theorem World.erasePlaceholder_advances {e : Emission V} {self : SignalImpl} {b : Bool}
    (hw : WellAddressed w) (impl : w.impls e.impl = some self) :
    Advances w (w.erasePlaceholder e self b) := by
  have h₁ := Advances.setImpl hw impl
    (y := { self with slots := self.slots.erase e.placeholder })
  have h₂ := h₁.trans (.eraseSlot h₁.addressed e.placeholder)
  exact h₂.trans (.frames h₂.addressed (fun f hf _ => World.owned_of_frame hf) fun f => .inl)

theorem EmissionStep.advances (h : EmissionStep w w') (hw : WellAddressed w) :
    Advances w w' := by
  cases h with
  | start calm owned run => exact Emission.start_advances hw owned run
  | skip top inside arrived slot uncallable impl next => exact .replaceTop hw top id fun _ => id
  | beginCall top inside arrived callable => exact .replaceTop hw top id fun _ => id
  | endCall v top invoking => exact .replaceTop hw top id fun _ => id
  | advance top invoked impl next => exact .replaceTop hw top id fun _ => id
  | @finish e below self completed top ends impl element quiet =>
    have h₁ := World.erasePlaceholder_advances (b := completed) hw impl
    exact h₁.trans (SignalImpl.holding_advances h₁.addressed top (by simp [Frame.owns])
      (Function.update_self _ _ _))
  | @finishSweep w' e below self completed it top ends impl element sweeps run =>
    have h₁ := World.erasePlaceholder_advances (b := completed) hw impl
    have h₂ := h₁.trans (SignalImpl.holding_advances
      (y := { self with slots := self.slots.erase e.placeholder }) h₁.addressed top
      (by simp [Frame.owns]) (Function.update_self _ _ _))
    exact h₂.trans (SignalImpl.enterSweep_advances h₂.addressed
      (World.owned_of_frame List.mem_cons_self (by simp [Frame.owns])) run)

/-! ## Runs -/

theorem Step.advances (h : Step w w') (hw : WellAddressed w) : Advances w w' := by
  cases h with
  | command script wellFormed =>
    exact .heap hw (Nat.le_refl _) (.refl _ _ _) (.refl _ _ _) (.refl _ _ _) List.suffix_rfl
      (fun r rep h => .inl (hw.reps r rep h)) hw.weakOnly fun _ _ rep h => .inl ⟨rep, h⟩
  | trackable h => exact h.advances hw
  | weak h => exact h.advances hw
  | slot h => exact h.advances hw
  | signal h => exact h.advances hw
  | emission h => exact h.advances hw

/-- The rep itself has no parent yet. -/
theorem RepConstructed.rep {f : Functor} {tks : Addr → Option Trackable}
    {ign : List (Addr × Addr)} {rps : Addr → Option SlotRep} (h : RepConstructed w f tks ign rps)
    (hw : WellAddressed w) : rps w.next = some { call := true, functor := some f } := by
  cases h.bound w.next with
  | inl heq => rw [heq, Function.update_self]
  | inr hbound =>
    obtain ⟨s, sl, _, _, hsl, hq, _⟩ := hbound
    exact absurd (hw.slotRep s sl _ hsl hq) (Nat.lt_irrefl _)

theorem Steps.advances (h : Steps w w') (hw : WellAddressed w) : Advances w w' := by
  induction h with
  | refl => exact .refl hw
  | tail _ hstep ih => exact ih.trans (hstep.advances ih.addressed)

theorem WellAddressed.initial (script : List (Cmd V)) : WellAddressed ({ script } : World V) where
  trackables _ _ h := by cases h
  reps _ _ h := by cases h
  slots _ _ h := by cases h
  impls _ _ h := by cases h
  records _ _ h := by cases h
  weaks _ _ h := by cases h
  slotRep _ _ _ h := by cases h
  placeholder _ _ h := by cases h
  handles _ h := by cases h
  recordSelf _ _ h := by cases h
  functor _ _ _ h := by cases h
  weakOnly _ _ _ h := by cases h
  frames _ h := by cases h

end Sigc
