import Sigc.Registration

/-!
# Every step keeps the registry

The steps that do not concern it are told apart first; then there is one lemma for every stretch of
code that registers or unregisters.
-/

namespace Sigc

open Reasoning Prog

variable {V : Type} {w w' w₁ : World V}

/-! ## What a rep holds -/

theorem functorsOf_update (reps : Addr → Option SlotRep) (r : Addr) (x : Option SlotRep) :
    functorsOf (Function.update reps r x) =
      Function.update (functorsOf reps) r (x.map (·.functor)) := by
  funext q
  by_cases hq : q = r
  · simp [functorsOf, hq]
  · rw [functorsOf, Function.update_of_ne hq, Function.update_of_ne hq, functorsOf]

theorem functorsOf_setRep {reps : Addr → Option SlotRep} {r : Addr} {rep x : SlotRep}
    (hr : reps r = some rep) (hx : x.functor = rep.functor) :
    functorsOf (Function.update reps r (some x)) = functorsOf reps := by
  rw [functorsOf_update, Function.update_eq_self_iff, functorsOf, hr, Option.map_some,
    Option.map_some, hx]

theorem RepsBound.functorsOf {slots : SlotAddr → Option SlotBase} {r : Addr} {f : Functor}
    {old new : Addr → Option SlotRep} (h : RepsBound slots r f old new) :
    functorsOf new = functorsOf old := by
  funext q
  obtain hq | ⟨_, _, rep, -, -, -, hold, -, hnew⟩ := h q
  · rw [Sigc.functorsOf, hq, Sigc.functorsOf]
  · rw [Sigc.functorsOf, hnew, Sigc.functorsOf, hold]
    rfl

theorem RepsUnbound.functorsOf {slots : SlotAddr → Option SlotBase} {r : Addr} {f : Functor}
    {old new : Addr → Option SlotRep} (h : RepsUnbound slots r f old new) :
    functorsOf new = functorsOf old := by
  funext q
  obtain hq | ⟨_, _, rep, -, -, -, hold, -, hnew⟩ := h q
  · rw [Sigc.functorsOf, hq, Sigc.functorsOf]
  · rw [Sigc.functorsOf, hnew, Sigc.functorsOf, hold]
    rfl

theorem World.Gutted.bare {r : Addr} (h : w.Gutted r) : Bare (functorsOf w.reps) r := by
  unfold Bare functorsOf
  cases hr : w.reps r with
  | none => rfl
  | some rep => simp [(h rep hr).2]

/-- Functors refer to trackables of the client only. -/
theorem WellAddressed.unreached (hw : WellAddressed w) {t : Addr}
    (ht : ¬(t < w.next ∧ w.reps t = none)) (r : Addr) : reaches (functorsOf w.reps) r t = 0 := by
  unfold reaches functorsOf
  -- A rep without functor refers to nothing.
  cases hr : w.reps r with
  | none => rfl
  | some rep =>
    cases hf : rep.functor with
    | none => simp [hf]
    | some f =>
      simp only [Option.map_some, hf, Option.join_some, Option.getD_some]
      exact List.count_eq_zero.mpr fun hm => ht ((hw.functor r rep f hr hf).trackable t hm)

/-! ## Steps that register nothing -/

/-- Between `w` and `w'` nothing is registered or unregistered. -/
structure Unregistering (w w' : World V) : Prop where
  trackables : w'.trackables = w.trackables
  functors : functorsOf w'.reps = functorsOf w.reps
  weaks : w'.weaks = w.weaks
  loops : loopsOf w'.frames = loopsOf w.frames
  ignored : w'.ignored = w.ignored
  log : w.log ⊆ w'.log
  next : w.next ≤ w'.next

namespace Unregistering

theorem refl (w : World V) : Unregistering w w :=
  ⟨rfl, rfl, rfl, rfl, rfl, fun _ => id, Nat.le_refl _⟩

theorem trans (h : Unregistering w w₁) (h' : Unregistering w₁ w') : Unregistering w w' where
  trackables := h'.trackables.trans h.trackables
  functors := h'.functors.trans h.functors
  weaks := h'.weaks.trans h.weaks
  loops := h'.loops.trans h.loops
  ignored := h'.ignored.trans h.ignored
  log := fun _ hm => h'.log (h.log hm)
  next := Nat.le_trans h.next h'.next

theorem registered (h : Unregistering w w') (hr : w.Registered) : w'.Registered := by
  unfold World.Registered
  rw [h.trackables, h.functors, h.weaks, h.loops, h.ignored]
  exact (Registry.setLog hr h.log).mono h.next

theorem record (w : World V) (e : Event) : Unregistering w (w.record e) :=
  { refl w with log := List.subset_cons_self _ _ }

theorem setRep {r : Addr} {rep x : SlotRep} (hr : w.reps r = some rep)
    (hx : x.functor = rep.functor) : Unregistering w (w.setRep r (some x)) :=
  { refl w with functors := functorsOf_setRep hr hx }

theorem push {f : Frame V} (hf : f.registers = false) : Unregistering w (w.push f) :=
  { refl w with loops := by simp [loopsOf, World.push, hf] }

theorem pop {f : Frame V} {below : List (Frame V)} (top : w.frames = f :: below)
    (hf : f.registers = false) : Unregistering w w.pop :=
  { refl w with loops := by simp [loopsOf, World.pop, top, hf] }

theorem setTop {f g : Frame V} {below : List (Frame V)} (top : w.frames = f :: below)
    (hf : f.registers = false) (hg : g.registers = false) : Unregistering w (w.setTop g) :=
  { refl w with loops := by simp [loopsOf, World.setTop, top, hf, hg] }

/-- Slots, signals and records change. -/
theorem objects {slots : SlotAddr → Option SlotBase} {impls : Addr → Option SignalImpl}
    {records : Addr → Option SelfAndIter} {handles : List (Addr × Option Addr)} {n : Addr}
    {finished : List (Emission V × Bool)} (hn : w.next ≤ n) :
    Unregistering w { w with
      next := n, slots := slots, impls := impls, records := records, handles := handles
      finished := finished } :=
  { refl w with next := hn }

end Unregistering

theorem World.sever_unregistering {r : Addr} {rep : SlotRep} (alive : w.reps r = some rep) :
    Unregistering w (w.sever r rep) :=
  (Unregistering.setRep (x := { rep with call := false, parent := none }) alive rfl).trans
    (.record _ _)

theorem Sever.unregistering {r : Addr} (h : Sever r w w') : Unregistering w w' := by
  have hsever {rep : SlotRep} (alive : w.reps r = some rep) : Unregistering w (w.sever r rep) :=
    World.sever_unregistering alive
  cases h with
  | none alive parent => exact hsever alive
  | rep alive parent cleanup calm => exact hsever alive
  | expired alive parent cleanup record expired =>
    exact (hsever alive).trans (.objects (Nat.le_refl _))
  | defer alive parent cleanup record owned impl executing =>
    exact (hsever alive).trans (.objects (Nat.le_refl _))
  | erase alive parent cleanup record owned impl idle element slot calm =>
    exact (((hsever alive).trans (.push rfl)).trans (.push rfl)).trans (.objects (Nat.le_refl _))

/-! ## Stretches that register -/

theorem SlotRep.afterRep_registered {f : Functor} {tks : Addr → Option Trackable}
    {ign : List (Addr × Addr)} {rps : Addr → Option SlotRep} (hw : WellAddressed w)
    (hr : w.Registered) (hcons : RepConstructed w f tks ign rps) :
    (w.afterRep tks ign rps).Registered := by
  have hfresh : w.trackables w.next = none := hw.trackables.eq_none (Nat.le_refl _)
  have hunused : functorsOf w.reps w.next = none := by
    simp [functorsOf, hw.reps.eq_none (Nat.le_refl _)]
  -- The rep comes into being without functor, and then binds itself to what the functor refers to.
  have h₁ := Registry.create hr hfresh hunused (y := some none) rfl (by simp)
  have h₂ := h₁.bind (Function.update_self _ _ _) (hw.weaks.eq_none (Nat.le_refl _))
    hcons.registered
  rw [Function.update_idem] at h₂
  unfold World.Registered World.afterRep
  rw [hcons.bound.functorsOf, functorsOf_update]
  exact h₂

theorem SlotBase.construct_registered {owner : Owner} {init : SlotInit} {s : SlotAddr}
    (hw : WellAddressed w) (hr : w.Registered)
    (run : SlotBase.construct owner init w = (.ret s, w')) : w'.Registered := by
  obtain ⟨-, -, rfl⟩ | ⟨f, tks, ign, rps, -, hcons, -, rfl⟩ := SlotBase.construct_effect run
  · exact (Unregistering.objects (Nat.le_succ _)).registered hr
  · exact (Unregistering.objects (Nat.le_succ _)).registered
      (SlotRep.afterRep_registered hw hr hcons)

theorem SlotBase.takeRep_unregistering {owner : Owner} {src s : SlotAddr} {blocked : Bool}
    (run : SlotBase.takeRep owner src blocked w = (.ret s, w')) : Unregistering w w' := by
  obtain ⟨sl, -, -, rfl⟩ := SlotBase.takeRep_effect run
  exact .objects (Nat.le_succ _)

theorem SlotBase.passParent_unregistering {new : Addr} {old : Option Addr}
    (run : SlotBase.passParent new old w = (.ret (), w')) : Unregistering w w' := by
  obtain ⟨-, rfl⟩ | ⟨r, oldRep, newRep, -, -, hnew, rfl⟩ := SlotBase.passParent_effect run
  · exact .refl _
  · exact .setRep hnew rfl

/-- An element takes its place: it keeps its rep, or gets a `dummy_slot_rep`. -/
theorem SignalImpl.placed_registered {i : Addr} {first : Bool} {n : SlotAddr} {sl : SlotBase}
    (hw : WellAddressed w) (hr : w.Registered) (h : Placed w i first n sl w') :
    w'.Registered := by
  obtain ⟨-, self, r, rep, nx, tks, -, -, hplaced, rfl⟩ := h
  obtain ⟨-, hrep, rfl, rfl⟩ | ⟨-, rfl, rfl, rfl, rfl⟩ := hplaced
  · have h₁ : Unregistering w (w.setRep r (some { rep with
        parent := some w.next, cleanup := some .notifySelfAndIterOfInvalidatedSlot })) :=
      .setRep hrep rfl
    exact ((h₁.trans (.record _ (.connected i (some r) first rep.call))).trans
      (.objects (Nat.le_succ _))).registered hr
  · have hle : w.next ≤ w.next + 1 := Nat.le_succ _
    have hfresh : w.trackables (w.next + 1) = none := hw.trackables.eq_none hle
    have hunused : functorsOf w.reps (w.next + 1) = none := by
      simp [functorsOf, hw.reps.eq_none hle]
    have h₁ := (Registry.mono hr hle).create hfresh hunused (y := some none) rfl (by simp)
    have h₂ := (h₁.mono (Nat.le_succ _)).setLog
      (List.subset_cons_self (.connected i (some (w.next + 1)) first false) w.log)
    unfold World.Registered World.placed
    rw [functorsOf_update]
    exact h₂

/-- A rep lets go of its functor. -/
theorem SlotRep.detachFunctor_functors {r : Addr} {fo : Option Functor}
    (run : SlotRep.detachFunctor r w = (.ret fo, w')) :
    ∃ tks rps, w' = { w with trackables := tks, reps := rps } ∧
      functorsOf w.reps r = some fo ∧ Unbound r (fo.getD []) w.trackables tks ∧
        functorsOf rps = Function.update (functorsOf w.reps) r (some none) := by
  obtain ⟨rep, tks, rps, hrep, hfunctor, rfl, hun, rps₁, rep', hrps, hrep', rfl⟩ :=
    detachFunctor_effect run
  refine ⟨tks, _, rfl, ?_, hun, ?_⟩
  · rw [functorsOf, hrep, ← hfunctor]
    rfl
  -- Clearing call_ and unbinding inner slots leave the functors as they are; then this one goes.
  · rw [functorsOf_update, hrps.functorsOf,
      functorsOf_setRep (x := { rep with call := false }) hrep rfl]
    rfl

theorem SlotRep.detachFunctor_registered {r : Addr} {fo : Option Functor} (hr : w.Registered)
    (run : SlotRep.detachFunctor r w = (.ret fo, w')) : w'.Registered := by
  obtain ⟨tks, rps, rfl, hold, hun, hfns⟩ := detachFunctor_functors run
  unfold World.Registered
  dsimp only
  rw [hfns]
  exact Registry.detach hr hold hun

theorem WeakRawPtr.construct_registered {p : Option WeakTarget} {b : Bool} {c : Addr}
    (hw : WellAddressed w) (hr : w.Registered) (run : WeakRawPtr.construct p b w = (.ret c, w')) :
    w'.Registered := by
  obtain ⟨-, tks, ign, rfl, hreg⟩ := construct_effect run
  refine Registry.register hr (Nat.le_succ _) hreg (.inr ⟨rfl, Nat.lt_succ_self _, ?_⟩)
  simp [functorsOf, hw.reps.eq_none (Nat.le_refl _)]

theorem WeakRawPtr.destroy_registered {c : Addr} (hr : w.Registered)
    (run : WeakRawPtr.destroy c w = (.ret (), w')) : w'.Registered := by
  obtain ⟨tks, self, hself, rfl, hun⟩ := destroy_effect run
  exact Registry.unregister hr hself hun (.inl rfl)

/-! ## Steps of trackables and weak pointers -/

theorem loopsOf_cons {f : Frame V} {fs : List (Frame V)} (hf : f.registers = true) :
    loopsOf (f :: fs) = f :: loopsOf fs := by
  simp [loopsOf, hf]

theorem mem_loopsOf {f : Frame V} {frames : List (Frame V)} :
    f ∈ loopsOf frames ↔ f ∈ frames ∧ f.registers = true :=
  List.mem_filter

/-- The frame on top is one that the registry depends on. -/
theorem World.Registered.top (hr : w.Registered) {f : Frame V} {below : List (Frame V)}
    (top : w.frames = f :: below) (hf : f.registers = true) :
    Registry w.trackables (functorsOf w.reps) w.weaks (f :: loopsOf below) w.ignored w.log
      w.next := by
  have h := hr
  unfold World.Registered at h
  rwa [top, loopsOf_cons hf] at h

theorem World.NotifiesFor.reason {t x : Addr} (h : w.NotifiesFor t)
    (hx : .invalidating t x ∈ loopsOf w.frames) :
    Bare (functorsOf w.reps) t ∨ .moved t true ∈ w.log := by
  obtain hnone | hgutted | hhead := h
  · exact .inl (by simp [Bare, functorsOf, hnone])
  · exact .inl hgutted.bare
  · have hany : w.frames.any (Frame.invalidates t) = true :=
      List.any_eq_true.mpr ⟨_, (mem_loopsOf.mp hx).1, by simp [Frame.invalidates]⟩
    rw [hany] at hhead
    exact .inr (List.mem_of_mem_head? hhead)

theorem TrackableStep.registered (h : TrackableStep w w') (hw : WellAddressed w)
    (hr : w.Registered) : w'.Registered := by
  cases h with
  | construct =>
    have hfresh : w.trackables w.next = none := hw.trackables.eq_none (Nat.le_refl _)
    have hunused : functorsOf w.reps w.next = none := by
      simp [functorsOf, hw.reps.eq_none (Nat.le_refl _)]
    have h₁ := Registry.create hr hfresh hunused (y := none) rfl fun _ =>
      hw.unreached fun h => Nat.lt_irrefl _ h.1
    have hsame : Function.update (functorsOf w.reps) w.next none = functorsOf w.reps := by
      rw [Function.update_eq_self_iff, hunused]
    rw [hsame] at h₁
    exact h₁.mono (Nat.le_succ _)
  | beginDestroy alive client => exact Registry.setTrackable hr alive rfl
  | @endDestroy t tr alive client notified =>
    have hnone : functorsOf w.reps t = none := by simp [functorsOf, client]
    have h₁ := Registry.erase hr alive notified (by simp [Bare, hnone]) (.inl hnone)
    have hsame : Function.update (functorsOf w.reps) t none = functorsOf w.reps := by
      rw [Function.update_eq_self_iff, hnone]
    rwa [hsame] at h₁
  | notifyNone alive list => exact Registry.setLog hr (List.subset_cons_self _ _)
  | @beginNotify t tr l alive list idle reason calm =>
    unfold World.Registered World.push
    rw [loopsOf_cons rfl]
    exact Registry.beginNotify hr alive list idle fun x hx => reason.reason hx
  | @skip t tr l pos deps below cb top alive list element inactive =>
    have h₁ := (hr.top top rfl).advance alive list fun r _ h => by
      rw [element] at h
      rw [Option.some.inj h] at inactive
      cases inactive
    unfold World.Registered World.setTop
    rw [top, List.tail_cons, loopsOf_cons rfl]
    exact h₁
  | @notifyWeak t tr l pos deps below cb c top alive list element func weak =>
    have hcb : cb = ⟨cb.data, some .notifyObjectInvalidated⟩ := by rw [← func]
    have h₁ := (hr.top top rfl).reset List.mem_cons_self alive list
      (hcb ▸ List.mem_of_getElem? element) weak
    have h₂ := h₁.advance alive list fun r _ h => by
      rw [element] at h
      rw [Option.some.inj h] at func
      cases func
    unfold World.Registered World.setTop World.setWeak
    dsimp only
    rw [top, List.tail_cons, loopsOf_cons rfl]
    exact h₂
  | @endNotify t tr l pos deps below top alive list done =>
    have h₁ := (hr.top top rfl).endNotify alive list done
    unfold World.Registered World.pop World.record World.setTrackable
    dsimp only
    rw [top, List.tail_cons]
    exact h₁.setLog (List.subset_cons_self _ _)

theorem World.Registered.connection (hr : w.Registered) {c : Addr} {self : WeakRawPtr}
    (hc : w.weaks c = some self ∧ self.notifier = false) (r : Addr) :
    .invalidating r c ∉ loopsOf w.frames := by
  intro hm
  have hnot := (Registry.invalidating hr r c hm).2.2.notifier self hc.1
  rw [hc.2] at hnot
  cases hnot

theorem WeakStep.registered (h : WeakStep w w') (hw : WellAddressed w) (hr : w.Registered) :
    w'.Registered := by
  cases h with
  | refer s => exact Registry.setLog hr (List.subset_cons_self _ _)
  | construct user source run => exact WeakRawPtr.construct_registered hw hr run
  | @assign _ c src self user connection run =>
    obtain ⟨mid, tks, ign, self', from_, hself, hfrom, rfl, hun, hreg⟩ :=
      WeakRawPtr.assign_effect run
    have hidle := hr.connection connection
    have h₁ := Registry.unregister hr hself hun (y := some self') (.inr hidle)
    have h₂ := h₁.register (x := { self' with ptr := from_.ptr }) (Nat.le_refl _) hreg
      (.inl ⟨self', Function.update_self _ _ _, hidle⟩)
    rw [Function.update_idem] at h₂
    exact h₂
  | destroy user connection run => exact WeakRawPtr.destroy_registered hr run

/-! ## Steps of slots -/

/-- A rep that is alive runs through its callbacks on top of the stack only. -/
theorem World.Watched.not_notifying (hl : w.Watched) (settled : Settled w.reps w.frames) {r : Addr}
    {rep : SlotRep} (alive : w.reps r = some rep) (pos : Nat) (deps : List Dependent) :
    .notifying r pos deps ∉ w.frames := by
  intro hm
  cases hf : w.frames with
  | nil =>
    rw [hf] at hm
    cases hm
  | cons f below =>
    have hnone : w.reps r = none := by
      rw [hf] at hm
      obtain rfl | hm := List.mem_cons.mp hm
      · exact settled r pos deps below hf
      · exact Watching.below hl r pos deps (by rw [hf]; exact hm)
    rw [alive] at hnone
    cases hnone

theorem World.invalidating_registered {r x : Addr} {rep : SlotRep} (hw : WellAddressed w)
    (hl : w.Watched) (hr : w.Registered) (settled : Settled w.reps w.frames)
    (alive : w.reps r = some rep)
    (run : WeakRawPtr.construct (some (.rep r)) true
      ((w.setRep r (some { rep with call := false })).record (.disconnected r)) = (.ret x, w₁)) :
    (w₁.push (.invalidating r x)).Registered := by
  obtain ⟨rfl, tks, ign, rfl, hreg⟩ := WeakRawPtr.construct_effect run
  have hlt : r < w.next := hw.reps r rep alive
  have h₀ : ((w.setRep r (some { rep with call := false })).record (.disconnected r)).Registered :=
    ((Unregistering.setRep (x := { rep with call := false }) alive rfl).trans
      (.record _ _)).registered hr
  have hunused : functorsOf (Function.update w.reps r (some { rep with call := false })) w.next =
      none := by
    rw [functorsOf_setRep (x := { rep with call := false }) alive rfl, functorsOf,
      hw.reps.eq_none (Nat.le_refl _)]
    rfl
  have h₁ := Registry.register h₀ (Nat.le_succ _) hreg
    (x := { ptr := some (.rep r), notifier := true })
    (.inr ⟨rfl, Nat.lt_succ_self _, hunused⟩)
  unfold World.Registered World.push
  rw [loopsOf_cons rfl]
  refine h₁.pushInvalidating (Nat.lt_succ_of_lt hlt) (Nat.lt_succ_self _) ?_ fun pos deps hm =>
    hl.not_notifying settled alive pos deps (mem_loopsOf.mp hm).1
  refine ⟨fun c hc => ?_, fun c hc hp => ?_, fun t tr ht hm => ?_⟩
  · obtain ⟨-, hx⟩ | ⟨hne, -⟩ := update_eq_some.mp hc
    · rw [← Option.some.inj hx]
    · exact absurd rfl hne
  · obtain ⟨-, hx⟩ | ⟨hne, -⟩ := update_eq_some.mp hc
    · rw [← Option.some.inj hx] at hp
      cases hp
    · exact absurd rfl hne
  · by_contra htr
    have hk : WeakRawPtr.uses w.slots (some (.rep r)) t = 0 := by
      simp [WeakRawPtr.uses, WeakTarget.pointee, Ne.symm htr]
    have hold : w.trackables t = some tr := (hreg.changed.unchanged hk).symm.trans ht
    exact Nat.lt_irrefl _ ((Registry.fits hr t tr hold _ hm).2.1 rfl).1

/-- The callback of a client's trackable has invalidated a rep, which is not registered with it any
more. -/
theorem World.Registered.passed (hr : w.Registered) {t r : Addr} {tr : Trackable}
    {l : TrackableCallbackList} {pos : Nat} (client : w.reps t = none)
    (alive : w.trackables t = some tr) (list : tr.callbackList = some l)
    (bare : Bare (functorsOf w.reps) r) : l.callbacks[pos]? ≠ some (SlotRep.binding r) := by
  intro h
  have hnone : functorsOf w.reps t = none := by simp [functorsOf, client]
  have hb := (Registry.balanced hr t hnone r).1
  rw [Registry.reaches_of_bare bare, bindings, callbacksOf_of_list alive list, Nat.le_zero] at hb
  exact List.count_eq_zero.mp hb (List.mem_of_getElem? h)

theorem SlotStep.registered (h : SlotStep w w') (hw : WellAddressed w) (hl : w.Watched)
    (hr : w.Registered) : w'.Registered := by
  cases h with
  | construct unlisted functor run => exact SlotBase.construct_registered hw hr run
  | move r => exact (Unregistering.record _ _).registered hr
  | take unlisted source told run => exact (SlotBase.takeRep_unregistering run).registered hr
  | setBlocked b alive => exact hr
  | beginDestroy alive unlisted => exact hr
  | endDestroy empty => exact hr
  | sever h => exact h.unregistering.registered hr
  | startInvalidation calm alive run sever =>
    exact sever.unregistering.registered (World.invalidating_registered hw hl hr
      (calm.elim (·.settled) (·.settled hw)) alive run)
  | detach top run => exact SlotRep.detachFunctor_registered hr run
  | endInvalidation top weak gutted run =>
    refine WeakRawPtr.destroy_registered ?_ run
    unfold World.Registered World.pop
    rw [top, List.tail_cons]
    exact (hr.top top rfl).pop
  | @endCallback w₁ r x c t pos deps below tr l top weak gutted run alive list element =>
    have hpop : w.pop.Registered := by
      unfold World.Registered World.pop
      rw [top, List.tail_cons]
      exact (hr.top top rfl).pop
    have h₁ := WeakRawPtr.destroy_registered hpop run
    have hclient : w.reps t = none :=
      hl.settled_pop top t pos deps below (by rw [World.pop, top, List.tail_cons])
    have hmem : .invalidating r x ∈ loopsOf w.frames :=
      mem_loopsOf.mpr ⟨top ▸ List.mem_cons_self, rfl⟩
    have hreset := (Registry.invalidating hr r x hmem).2.2.reset c weak
    obtain ⟨tks, self, -, rfl, -⟩ := WeakRawPtr.destroy_effect run
    have htop : w.pop.frames = .notifying t pos deps :: below := by simp [World.pop, top]
    have h₂ := (World.Registered.top h₁ htop rfl).advance alive list fun q hq helem => by
      rw [helem] at element
      obtain rfl := Option.some.inj element
      refine World.Registered.passed h₁ hclient alive list ?_ helem
      obtain hnull | hgutted := gutted
      · exact (hreset hnull).resolve_right hq
      · exact hgutted.bare
    unfold World.Registered World.setTop
    dsimp only
    rw [htop, List.tail_cons, loopsOf_cons rfl]
    exact h₂
  | @beginDelete w' r base fo s sl calm alive idle slot rep unlisted run =>
    have hlt : r < w.next := hw.trackables r base alive
    obtain ⟨tks, rps, rfl, hold, hun, hfns⟩ := SlotRep.detachFunctor_functors run
    have h₁ := (Registry.setTrackable hr alive (x := { base with dying := true }) rfl).detach
      hold hun
    unfold World.Registered World.push World.setTrackable
    dsimp only
    rw [loopsOf_cons rfl, hfns]
    exact h₁.pushDeleting hlt (by simp [Bare])
  | @endDelete r base below top alive notified =>
    have htop := hr.top top rfl
    have hunreached : functorsOf w.reps r = none ∨ ∀ q, reaches (functorsOf w.reps) q r = 0 := by
      by_cases hnone : w.reps r = none
      · exact .inl (by simp [functorsOf, hnone])
      · exact .inr (hw.unreached fun h => hnone h.2)
    have h₁ := htop.erase alive notified (htop.deleting r List.mem_cons_self).2 hunreached
    unfold World.Registered World.pop World.setTrackable World.setRep
    dsimp only
    rw [top, List.tail_cons, functorsOf_update]
    exact h₁.pop
  | startCheck calm alive rep unlisted run =>
    exact (Unregistering.push rfl).registered (WeakRawPtr.construct_registered hw hr run)
  | clearRep top alive intact unlisted =>
    exact (Unregistering.objects (Nat.le_refl _)).registered
      ((Unregistering.record _ _).registered hr)
  | endCheck top run =>
    exact WeakRawPtr.destroy_registered ((Unregistering.pop top rfl).registered hr) run
  | cloneFor calm unlisted functor run =>
    obtain ⟨rfl, tks, ign, rps, sl, w₂, hcons, -, hpass, rfl⟩ := SlotBase.cloneFor_effect run
    exact ((SlotBase.passParent_unregistering hpass).trans (.push rfl)).registered
      (SlotRep.afterRep_registered hw hr hcons)
  | moveFor calm unlisted source told run =>
    obtain ⟨from_, sl, w₂, -, -, -, hpass, rfl⟩ := SlotBase.moveFor_effect run
    exact ((SlotBase.passParent_unregistering hpass).trans (.push rfl)).registered hr
  | @finishAssign dst new self below top alive intact unlisted =>
    exact ((Unregistering.record (w.setSlot dst (some { self with rep := some new })) _).trans
      (.pop top rfl)).registered hr
  | pushHandler calm alive call =>
    exact ((Unregistering.record _ _).trans (.push rfl)).registered hr
  | popHandler top => exact (Unregistering.pop top rfl).registered hr
  | pushFunctorDtor calm used functor gutted => exact (Unregistering.push rfl).registered hr
  | nextTarget top => exact (Unregistering.setTop top rfl rfl).registered hr
  | popFunctorDtor top => exact (Unregistering.pop top rfl).registered hr

/-! ## Steps of signals and emissions -/

theorem World.letGo_unregistering {i old : Option Addr}
    (run : SignalBase.letGo i w = (.ret old, w')) : Unregistering w w' := by
  obtain ⟨-, rfl⟩ := SignalBase.letGo_effect run
  cases i with
  | none => exact .refl _
  | some i =>
    change Unregistering w (w.letGo i)
    unfold World.letGo
    split
    · exact .push rfl
    · exact (Unregistering.record _ _).trans (.push rfl)

theorem SignalBase.impl_unregistering {h i : Addr} (run : SignalBase.impl h w = (.ret i, w')) :
    Unregistering w w' := by
  obtain ⟨-, rfl⟩ | ⟨-, -, rfl⟩ := impl_effect run
  · exact .refl _
  · exact .objects (Nat.le_succ _)

theorem SignalImpl.enterSweep_unregistering {i : Addr} {it : Option SlotAddr}
    (run : SignalImpl.enterSweep i w = (.ret it, w')) : Unregistering w w' := by
  obtain ⟨self, -, -, rfl⟩ := enterSweep_effect run
  exact (Unregistering.objects (Nat.le_refl _)).trans (.push rfl)

theorem SignalStep.registered (h : SignalStep w w') (hw : WellAddressed w) (hr : w.Registered) :
    w'.Registered := by
  have hobjects : ∀ {slots impls records handles} {n : Addr}, w.next ≤ n →
      Unregistering w { w with
        next := n, slots := slots, impls := impls, records := records, handles := handles } :=
    fun hn => .objects hn
  cases h with
  | insertBuilt user owned functor run =>
    obtain ⟨w₁, sl, hcons, -, hp⟩ := SignalImpl.insertBuilt_effect run
    exact SignalImpl.placed_registered (SlotBase.construct_advances hw functor hcons).addressed
      (SlotBase.construct_registered hw hr hcons) hp
  | insertTaken user owned source told run =>
    obtain ⟨w₁, sl, htake, -, -, hp⟩ := SignalImpl.insertTaken_effect run
    exact SignalImpl.placed_registered (SlotBase.takeRep_advances hw source htake).addressed
      ((SlotBase.takeRep_unregistering htake).registered hr) hp
  | new => exact (hobjects (Nat.le_succ _)).registered hr
  | impl run => exact (SignalBase.impl_unregistering run).registered hr
  | copyConstruct handle run =>
    obtain ⟨i, w₁, hrun, -, rfl⟩ := SignalBase.copyConstruct_effect run
    exact ((SignalBase.impl_unregistering hrun).trans (.objects (Nat.le_succ _))).registered hr
  | moveConstruct run =>
    obtain ⟨-, rfl⟩ := SignalBase.moveConstruct_effect run
    exact (hobjects (Nat.le_succ _)).registered hr
  | @replaceImpl w' h i old calm owned run =>
    obtain ⟨-, hgo⟩ := SignalBase.replaceImpl_effect run
    exact (World.letGo_unregistering (w := w.setHandle h i) hgo).registered hr
  | @dropHandle w' h old calm run =>
    obtain ⟨-, hgo⟩ := SignalBase.dropHandle_effect run
    exact (World.letGo_unregistering (w := { w with handles := w.handles.filter (·.1 ≠ h) })
      hgo).registered hr
  | endRelease top done => exact (Unregistering.pop top rfl).registered hr
  | endDispose top unowned idle alive empty => exact hr
  | @endCleanup d below top =>
    exact (Unregistering.pop (w := w.setRecord d none) top rfl).registered hr
  | enterClear calm run =>
    obtain ⟨self, himpl, rfl, rfl, rfl, -, rfl⟩ := SignalImpl.enterClear_effect run
    exact ((hobjects (Nat.le_refl _)).trans (.push rfl)).registered hr
  | clearNext top impl next severed => exact (Unregistering.setTop top rfl rfl).registered hr
  | recordCleared top => exact (Unregistering.record _ _).registered hr
  | restoreDeferred top impl => exact hr
  | @clearErase i saved below self s rest sl top impl slots alive =>
    exact (Unregistering.setTop (w := w.unlinkDying i self s sl) top rfl rfl).registered hr
  | clearErased top gone => exact (Unregistering.setTop top rfl rfl).registered hr
  | @leaveClear i during saved below self top impl cleared quiet =>
    exact (Unregistering.pop (w := w.decrement i self) top rfl).registered hr
  | @leaveClearSweep w' i during saved below self it top impl cleared sweeps owned run =>
    exact ((Unregistering.pop (w := w.decrement i self) top rfl).trans
      (SignalImpl.enterSweep_unregistering run)).registered hr
  | sweepSkip top impl next keep => exact (Unregistering.setTop top rfl rfl).registered hr
  | @sweepErase i it it' below self sl top impl next element empty alive =>
    exact (Unregistering.setTop (w := w.unlinkDying i self it sl) top rfl rfl).registered hr
  | sweepErased top gone => exact (Unregistering.setTop top rfl rfl).registered hr
  | @leaveHolder i below f self top holder impl quiet =>
    have hf : f.registers = false := by
      obtain rfl | ⟨n, rfl, -⟩ := holder <;> rfl
    exact (Unregistering.setTop (w := w.decrement i self) top hf rfl).registered hr
  | @leaveHolderSweep w' i below f self it top holder impl sweeps run =>
    have hf : f.registers = false := by
      obtain rfl | ⟨n, rfl, -⟩ := holder <;> rfl
    exact ((Unregistering.setTop (w := w.decrement i self) top hf rfl).trans
      (SignalImpl.enterSweep_unregistering run)).registered hr
  | startRelease top => exact (Unregistering.setTop top rfl rfl).registered hr

theorem EmissionStep.registered (h : EmissionStep w w') (hr : w.Registered) : w'.Registered := by
  have hfinish {e : Emission V} {below : List (Frame V)} (top : w.frames = .emission e :: below)
      (self y : SignalImpl) (completed : Bool) : Unregistering w
        (((w.erasePlaceholder e self completed).decrement e.impl y).setTop (.holding e.impl)) :=
    (Unregistering.objects (Nat.le_refl _)).trans
      (.setTop (w := (w.erasePlaceholder e self completed).decrement e.impl y) top rfl rfl)
  cases h with
  | start calm owned run =>
    obtain ⟨self, himpl, -, rfl, rfl⟩ := Emission.start_effect run
    exact (((Unregistering.objects (Nat.le_refl _)).trans (.push rfl)).trans
      (.record _ _)).registered hr
  | skip top inside arrived slot uncallable impl next =>
    exact (Unregistering.setTop top rfl rfl).registered hr
  | beginCall top inside arrived callable => exact (Unregistering.setTop top rfl rfl).registered hr
  | endCall v top invoking => exact (Unregistering.setTop top rfl rfl).registered hr
  | advance top invoked impl next => exact (Unregistering.setTop top rfl rfl).registered hr
  | finish top ends impl element quiet => exact (hfinish top _ _ _).registered hr
  | finishSweep top ends impl element sweeps run =>
    exact ((hfinish top _ _ _).trans (SignalImpl.enterSweep_unregistering run)).registered hr

/-! ## Runs -/

theorem Step.registered (h : Step w w') (hw : WellAddressed w) (hl : w.Watched)
    (hr : w.Registered) : w'.Registered := by
  cases h with
  | command script wellFormed => exact hr
  | trackable h => exact h.registered hw hr
  | weak h => exact h.registered hw hr
  | slot h => exact h.registered hw hl hr
  | signal h => exact h.registered hw hr
  | emission h => exact h.registered hr

theorem Steps.registered (h : Steps w w') (hw : Sound w) (hl : w.Watched) (hr : w.Registered) :
    w'.Registered :=
  (h.preserves (P := fun w => Sound w ∧ w.Watched ∧ w.Registered) ⟨hw, hl, hr⟩
    fun _ _ hstep h => ⟨hstep.sound h.1, hstep.watched h.1 h.2.1,
      hstep.registered h.1.toWellAddressed h.2.1 h.2.2⟩).2.2

theorem World.Registered.initial (script : List (Cmd V)) : ({ script } : World V).Registered where
  balanced _ _ _ := ⟨Nat.zero_le _, fun _ _ => rfl⟩
  fits := by simp
  weak := by simp
  clearing := by simp [loopsOf]
  once := by simp [loopsOf]
  invalidating := by simp [loopsOf]
  reason := by simp [loopsOf]
  deleting := by simp [loopsOf]

end Sigc
