import Sigc.Straight

/-!
# The functions of trackables and slots

Each of them returns after a sequence of steps, whatever the calls through pointers do.
-/

namespace Sigc

open Reasoning Prog

variable {V : Type} {T : World V → Prop} {u : Env V} {w w' w₀ w₁ : World V}

/-! ## Trackables -/

namespace Trackable

theorem notifyObjectInvalidated_ends {c : Addr} {Q : Unit → World V → Prop}
    (h : ∀ self, w₁.weaks c = some self → Q () (w₁.setWeak c (some { self with ptr := none }))) :
    Ends T w (notifyObjectInvalidated c) w₁ Q :=
  .load rfl h

/-- One round of the loop in `~trackable_callback_list()`. -/
theorem runCallback_ends (hu : u.Spec T) {t pos : Addr} {deps : List Dependent}
    {below : List (Frame V)} {tr : Trackable} {l : TrackableCallbackList} {cb : TrackableCallback}
    (hw : Sound w) (hs : Steps w w₁) (top : w₁.frames = .notifying t pos deps :: below)
    (alive : w₁.trackables t = some tr) (list : tr.callbackList = some l)
    (element : l.callbacks[pos]? = some cb) :
    Ends T w (runCallback u cb) w₁ fun _ w' =>
      w'.frames = .notifying t pos deps :: below ∧ ∀ tr' l', w'.trackables t = some tr' →
        tr'.callbackList = some l' → (l'.callbacks[pos]?).map (·.data) = some cb.data →
          Steps w (w'.setTop (.notifying t (pos + 1) deps)) := by
  have hw₁ := (hs.proceeds hw).sound
  unfold runCallback
  cases hf : cb.func with
  | none => exact ⟨top, fun _ _ _ _ _ => hs.tail (.trackable (.skip top alive list element hf))⟩
  | some func =>
    cases func with
    | notifySlotRepInvalidated =>
      refine Ends.call hs (hu.notify w₁ cb.data hw₁ (.inr ⟨t, pos, deps, below, tr, l, top,
        alive, list,
        element.trans (congrArg some (by rw [← hf]))⟩)) fun _ w' h => ⟨h.goes.2.trans top, ?_⟩
      obtain ⟨w₂, x, c, hs₂, hf₂, hx, hg, hd⟩ := h
      rw [top] at hf₂
      exact fun tr' l' htr' hl' hdata =>
        (hs.trans hs₂).tail (.slot (.endCallback hf₂ hx hg hd htr' hl' hdata))
    | notifyObjectInvalidated =>
      exact notifyObjectInvalidated_ends fun self hself =>
        ⟨top, fun _ _ _ _ _ => hs.tail (.trackable (.notifyWeak top alive list element hf hself))⟩
    | notifySelfAndIterOfInvalidatedSlot => exact Ends.unwatched rfl

/-- The loop is at its end. -/
def LoopDone (w : World V) (t : Addr) (deps : List Dependent) (below : List (Frame V))
    (w' : World V) : Prop :=
  Steps w w' ∧ ∃ pos' tr l, w'.frames = .notifying t pos' deps :: below ∧
    w'.trackables t = some tr ∧ tr.callbackList = some l ∧ l.callbacks[pos']? = none

theorem callbackLoop_ends (hu : u.Spec T) (hT : ∀ w, T w) {t : Addr} {deps : List Dependent}
    {below : List (Frame V)} (hw : Sound w) (n : Nat) :
    ∀ {pos w₁}, Steps w w₁ → w₁.frames = .notifying t pos deps :: below →
      Ends T w (callbackLoop u t deps n pos) w₁ fun _ => LoopDone w t deps below := by
  -- on the rounds left: whatever a callback does, the frame of the loop is on top again after it
  induction n with
  | zero => exact fun {pos w₁} _ _ => hT w₁
  | succ n ih =>
    intro pos w₁ hs top
    unfold callbackLoop loadCallbackList
    refine .load rfl fun l hl => ?_
    obtain ⟨tr, htr, hl⟩ := Option.bind_eq_some_iff.mp hl
    cases hcb : l.callbacks[pos]? with
    | none => exact ⟨hs, pos, tr, l, top, htr, hl, hcb⟩
    | some cb =>
      refine (runCallback_ends hu hw hs top htr hl hcb).bind fun _ w' h => ?_
      refine .load rfl fun l' hl' => ?_
      obtain ⟨tr', htr', hl'⟩ := Option.bind_eq_some_iff.mp hl'
      split
      · rename_i hdata
        exact .modify (ih (h.2 tr' l' htr' hl' hdata) (by simp [World.setTop, h.1]))
      · exact .unwatched rfl

/-- What `notify_callbacks()` has left behind. -/
def Notified (w : World V) (t : Addr) (w' : World V) : Prop :=
  Goes w w' ∧ ∃ tr, w'.trackables t = some tr ∧ tr.callbackList = none

/-- Before and after the loop, which meets `R`; `R` says nothing about the trackable itself. -/
theorem notifyCallbacks_around {t : Addr} (reason : w.NotifiesFor t) (calm : w.Calm)
    {R : World V → Prop}
    (hR : ∀ w' tks frames log, R w' → R { w' with trackables := tks, frames, log }) (start : R w)
    (loop : ∀ tr l, w.trackables t = some tr → tr.callbackList = some l →
      ∀ w₁, w₁ = (w.setTrackable t
        (some { tr with callbackList := some { l with clearing := true } })).push
          (.notifying t 0 (w.dependents t)) → Steps w w₁ → R w₁ →
        Ends T w (callbackLoop u t (w.dependents t) (l.callbacks.length + 1) 0) w₁ fun _ w' =>
          R w' ∧ LoopDone w t (w.dependents t) w.frames w') :
    Ends T w (notifyCallbacks u t) w fun _ w' => R w' ∧ Notified w t w' := by
  unfold notifyCallbacks loadTrackable
  refine .load rfl fun tr htr => .read ?_
  cases hl : tr.callbackList with
  | none =>
    exact ⟨hR w _ _ _ start, .of_step (.trackable (.notifyNone htr hl)) rfl, tr, htr, hl⟩
  | some l =>
    dsimp only
    split
    · exact .unwatched rfl
    · rename_i hidle
      refine .modify ((loop tr l htr hl _ rfl (.single (.trackable (.beginNotify htr hl
        (by simpa using hidle) reason calm))) (hR w _ _ _ start)).bind fun _ w' h => ?_)
      obtain ⟨hr, hs', pos', tr', l', htop, htr', hl', hdone⟩ := h
      refine .load rfl fun tr'' htr'' => ?_
      obtain rfl := Option.some.inj (htr'.symm.trans htr'')
      refine ⟨hR w' _ _ _ hr, ⟨hs'.tail (.trackable (.endNotify htop htr' hl' hdone)), ?_⟩,
        { tr' with callbackList := none }, ?_, rfl⟩
      · simp [World.pop, World.record, World.setTrackable, htop]
      · simp [World.pop, World.record, World.setTrackable]

theorem notifyCallbacks_ends (hu : u.Spec T) (hT : ∀ w, T w) {t : Addr} (hw : Sound w)
    (reason : w.NotifiesFor t) (calm : w.Calm) :
    Ends T w (notifyCallbacks u t) w fun _ => Notified w t :=
  (notifyCallbacks_around (R := fun _ => True) reason calm (fun _ _ _ _ _ => trivial) trivial
    fun _ _ _ _ _ hw₁ hs₁ _ => (callbackLoop_ends hu hT hw _ hs₁ (by rw [hw₁]; rfl)).mono
      fun _ _ h => ⟨trivial, h⟩).mono fun _ _ h => h.2

/-! The base of a rep has no callbacks but those of weak pointers, so no other code runs. -/

/-- Only trackables, weak pointers, the stack and the history differ. -/
def Resets (w w' : World V) : Prop :=
  ∃ tks wks frames log, w' = { w with trackables := tks, weaks := wks, frames, log }

theorem Resets.trans {w₀ : World V} (h : Resets w₀ w) (h' : Resets w w') : Resets w₀ w' := by
  obtain ⟨_, _, _, _, rfl⟩ := h
  obtain ⟨_, _, _, _, rfl⟩ := h'
  exact ⟨_, _, _, _, rfl⟩

theorem callbackLoop_weak {t : Addr} {deps : List Dependent} {below : List (Frame V)}
    {tr : Trackable} {l : TrackableCallbackList} (list : tr.callbackList = some l)
    (weakOnly : tr.WeakOnly) (n : Nat) :
    ∀ {pos w₁}, Steps w w₁ → w₁.frames = .notifying t pos deps :: below →
      w₁.trackables t = some tr → pos ≤ l.callbacks.length → l.callbacks.length < pos + n →
      Ends T w (callbackLoop u t deps n pos) w₁
        fun _ w' => Resets w₁ w' ∧ LoopDone w t deps below w' := by
  have hweak : ∀ cb ∈ l.callbacks, cb.func = none ∨ cb.func = some .notifyObjectInvalidated := by
    simpa [WeakOnly, callbacks, list] using weakOnly
  -- on the rounds left: the list does not change, since nothing but weak pointers is registered
  induction n with
  | zero => exact fun {pos w₁} _ _ _ hle hlt => absurd hle (Nat.not_le.mpr hlt)
  | succ n ih =>
    intro pos w₁ hs top alive hle hlt
    unfold callbackLoop loadCallbackList
    refine .load rfl fun l' hl' => ?_
    obtain ⟨tr', htr', hl'⟩ := Option.bind_eq_some_iff.mp hl'
    obtain rfl := Option.some.inj (alive.symm.trans htr')
    obtain rfl := Option.some.inj (list.symm.trans hl')
    cases hcb : l.callbacks[pos]? with
    | none => exact ⟨⟨_, _, _, _, rfl⟩, hs, pos, tr, l, top, htr', list, hcb⟩
    | some cb =>
      have hpos := (List.getElem?_eq_some_iff.mp hcb).1
      -- the callback is inactive or that of a weak pointer, and the loop goes on
      have hrun : Ends T w (runCallback u cb) w₁ fun _ w₂ => Resets w₁ w₂ ∧
          w₂.frames = w₁.frames ∧ w₂.trackables = w₁.trackables ∧
            Steps w (w₂.setTop (.notifying t (pos + 1) deps)) := by
        rcases hweak cb (List.mem_of_getElem? hcb) with hf | hf
        · simp only [runCallback, hf]
          exact ⟨⟨_, _, _, _, rfl⟩, rfl, rfl,
            hs.tail (.trackable (.skip top alive list hcb hf))⟩
        · simp only [runCallback, hf]
          exact notifyObjectInvalidated_ends fun self hself => ⟨⟨_, _, _, _, rfl⟩, rfl, rfl,
            hs.tail (.trackable (.notifyWeak top alive list hcb hf hself))⟩
      refine hrun.bind fun _ w₂ h => ?_
      obtain ⟨hr, hf₂, ht₂, hs₂⟩ := h
      refine .load rfl fun l₂ hl₂ => ?_
      split
      · refine .modify ((ih hs₂ ?_ (ht₂ ▸ alive) hpos (by omega)).mono fun _ w' h => ?_)
        · simp [World.setTop, hf₂, top]
        · exact ⟨hr.trans (.trans ⟨_, _, _, _, rfl⟩ h.1), h.2⟩
      · exact .unwatched rfl

theorem notifyCallbacks_weak {r : Addr} {rep : SlotRep} (hw : Sound w)
    (alive : w.reps r = some rep) (reason : w.NotifiesFor r) (calm : w.Calm) :
    Ends T w (notifyCallbacks u r) w fun _ w' => Resets w w' ∧ Notified w r w' := by
  refine notifyCallbacks_around reason calm (fun w' _ _ _ h => h.trans ⟨_, _, _, _, rfl⟩)
    ⟨_, _, _, _, rfl⟩ fun tr l htr hl w₁ hw₁ hs₁ hr₁ => ?_
  have hweak : Trackable.WeakOnly { tr with callbackList := some { l with clearing := true } } :=
    (hw.weakOnly r rep tr alive htr).of_callbackList (by simp [callbacks, hl])
  refine (callbackLoop_weak rfl hweak _ hs₁ (by rw [hw₁]; rfl)
    (by rw [hw₁]; exact Function.update_self _ _ _) (Nat.zero_le _) (by simp)).mono
      fun _ w' h => ⟨hr₁.trans h.1, h.2⟩

end Trackable

/-! ## Reps -/

/-- The rep `r` is gone, or at least cannot be called any more. -/
def World.Silent (w : World V) (r : Addr) : Prop := ∀ rep, w.reps r = some rep → rep.call = false

theorem Extends.silent (h : Extends w w') {r : Addr} (hr : r < w.next) (hs : w.Silent r) :
    w'.Silent r := by
  intro rep' hrep'
  obtain ⟨rep, hrep, hcall, -⟩ := h.reps.old hr hrep'
  by_contra hc
  exact absurd (hcall (by simpa using hc)) (by simp [hs rep hrep])

theorem World.silent_sever (w : World V) (r : Addr) (rep : SlotRep) : (w.sever r rep).Silent r := by
  intro rep' hrep'
  simp only [World.sever, World.setRep, World.record, Function.update_self,
    Option.some.injEq] at hrep'
  rw [← hrep']

/-- `disconnect()` may be called for `r`: a loop on top of the stack is that of the `clear()` of the
list which has the slot of `r`. -/
def World.MaySever (w : World V) (r : Addr) : Prop :=
  w.Calm ∨ ∀ rep d, w.reps r = some rep → rep.parent = some d →
    rep.cleanup = some .notifySelfAndIterOfInvalidatedSlot ∧
      ∀ si, w.records d = some si → w.Clears si.self si.iter

/-- The function at work since `w₀` is about to call `disconnect()` for `r`. -/
structure Severing (w₀ : World V) (r : Addr) (w : World V) : Prop where
  begun : Sound w₀
  sound : Sound w
  may : w.MaySever r
  step : ∀ w', Sever r w w' → Steps w₀ w'
  stuck : Stuck .iter w → Stuck .iter w₀

theorem Severing.now {r : Addr} (hw : Sound w) (may : w.MaySever r) : Severing w r w :=
  ⟨hw, hw, may, fun _ h => .single (.slot (.sever h)), id⟩

/-- What `notify_self_and_iter_of_invalidated_slot()` does, called from a `disconnect()`. -/
def Severs (T : World V → Prop) (cleanup : Addr → M V Unit) : Prop :=
  ∀ w₀ w r rep d, Severing w₀ r w → w.reps r = some rep → rep.parent = some d →
    rep.cleanup = some .notifySelfAndIterOfInvalidatedSlot →
      Ends T w₀ (cleanup d) (w.sever r rep) fun _ w' =>
        Steps w₀ w' ∧ w'.frames = w.frames ∧ w'.Silent r

variable {cleanup : Addr → M V Unit}

namespace SlotRep

theorem detachFunctor_gutted {r : Addr} {fo : Option Functor} (hw : WellAddressed w)
    (run : detachFunctor r w = (.ret fo, w')) : w'.Gutted r ∧ ∀ f, fo = some f → w'.FunctorOk f := by
  have hadv := detachFunctor_advances hw run
  obtain ⟨rep, tks, rps, hrep, hfunctor, rfl, -, rps₁, rep', hun, hrep', rfl⟩ :=
    detachFunctor_effect run
  refine ⟨fun rep'' hrep'' => ?_, fun f hf => ?_⟩
  · simp only [Function.update_self, Option.some.injEq] at hrep''
    subst hrep''
    refine ⟨?_, rfl⟩
    have hev : Evolves SlotRep.Becomes w.next w.next _ rps₁ := hun.evolves
    obtain ⟨hlt, hlt'⟩ | ⟨rep₁, hrep₁, hb⟩ := hev r rep' hrep'
    · exact absurd hlt' (Nat.not_lt.mpr hlt)
    · rw [Function.update_self] at hrep₁
      obtain rfl := Option.some.inj hrep₁
      by_contra hc
      exact absurd (hb.1 (by simpa using hc)) (by simp)
  · exact hadv.extension.functorOk (hw.functor r rep f hrep (hfunctor.trans hf))

/-- The end of `destroy()`, where the functor's destructor runs. -/
theorem destroyFunctor_ends (hu : u.Spec T) {r : Addr} {fo : Option Functor}
    (hw : Sound w) (calm : w.Calm) (hr : r < w.next) (hg : w.Gutted r)
    (hf : ∀ f, fo = some f → w.FunctorOk f) :
    Ends T w (match fo with
      | none => pure ()
      | some f => do let _ ← u.call (.functorDtor r f)) w fun _ => Goes w := by
  cases fo with
  | none => exact Goes.refl w
  | some f => exact (hu.functorDtor w r f hw calm hr hg (hf f rfl)).bind fun _ _ h => h

theorem disconnect_ends (hu : u.Spec T) (hc : Severs T cleanup) {r : Addr}
    (h : Severing w₀ r w) :
    Ends T w₀ (disconnect u cleanup r) w fun _ w' =>
      Steps w₀ w' ∧ w'.frames = w.frames ∧ w'.Silent r := by
  unfold disconnect
  refine .load rfl fun rep hrep => ?_
  cases hp : rep.parent with
  | none => exact ⟨h.step _ (.none hrep hp), rfl, w.silent_sever r rep⟩
  | some d =>
    refine .modify ?_
    change Ends T w₀ _ (w.sever r rep) _
    cases hcl : rep.cleanup with
    | none => exact .unwatched rfl
    | some func =>
      cases func with
      | notifySelfAndIterOfInvalidatedSlot => exact hc w₀ w r rep d h hrep hp hcl
      | notifySlotRepInvalidated =>
        have calm : w.Calm := by
          refine h.may.resolve_right fun hno => ?_
          have hself := (hno rep d hrep hp).1
          rw [hcl] at hself
          cases hself
        have hs : Steps w₀ (w.sever r rep) := h.step _ (.rep hrep hp hcl calm)
        have hw₁ := hs.sound h.begun
        refine Ends.call hs (hu.notify _ d hw₁ (.inl (calm.of_frames rfl))) fun _ w' h' =>
          ⟨hs.trans h'.goes.1, h'.goes.2, ?_⟩
        exact (h'.goes.proceeds hw₁).extension.silent (h.sound.reps r rep hrep)
          (w.silent_sever r rep)
      | notifyObjectInvalidated => exact .unwatched rfl

/-- An element that is not in its list now was not in it before either. -/
theorem Stuck.of_invalidating {r x : Addr} {rep : SlotRep} (alive : w.reps r = some rep)
    (run : WeakRawPtr.construct (some (.rep r)) true
      ((w.setRep r (some { rep with call := false })).record (.disconnected r)) = (.ret x, w₁))
    (h : Stuck .iter (w₁.push (.invalidating r x))) : Stuck .iter w := by
  obtain ⟨-, tks, ign, rfl, -⟩ := WeakRawPtr.construct_effect run
  cases h with
  | @erase _ r' rep' d si self alive' parent cleanup record owned impl idle lost =>
    have howned : w.owned si.self = true := by
      simpa [World.owned, World.push, World.setRep, World.record, Frame.owns] using owned
    obtain ⟨rfl, hrep⟩ | ⟨-, hrep⟩ := update_eq_some.mp alive'
    · obtain rfl := Option.some.inj hrep
      exact .erase alive parent cleanup record howned impl idle lost
    · exact .erase hrep parent cleanup record howned impl idle lost

theorem notifySlotRepInvalidated_ends (hu : u.Spec T) (hc : Severs T cleanup) {r : Addr}
    (hw : Sound w) (calm : w.Calm ∨ w.CallsBack r) :
    Ends T w (notifySlotRepInvalidated u cleanup r) w fun _ => Invalidated w r := by
  unfold notifySlotRepInvalidated
  refine .load rfl fun rep hrep => .modify (.run (WeakRawPtr.construct_straight _ _)
    fun x w₁ hrun => .modify ?_)
  have hf₁ : w₁.frames = w.frames := by
    obtain ⟨-, tks, ign, rfl, -⟩ := WeakRawPtr.construct_effect hrun
    rfl
  -- up to the step that `disconnect()` begins with
  have hsever : Severing w r (w₁.push (.invalidating r x)) :=
    { begun := hw
      sound := ⟨(World.invalidating_advances hw.toWellAddressed hrep hrun).addressed,
        hw.linked.invalidating hrep hrun⟩
      may := .inl (.of_top rfl rfl)
      step := fun _ h => .single (.slot (.startInvalidation calm hrep hrun h))
      stuck := Stuck.of_invalidating hrep hrun }
  refine Ends.bind (disconnect_ends hu hc hsever) fun _ w₂ h₂ => .load rfl fun c hx => ?_
  have hs₂ := h₂.1
  have hf₂ : w₂.frames = .invalidating r x :: w.frames := by
    rw [h₂.2.1, ← hf₁]
    rfl
  have hw₂ := (hs₂.proceeds hw).sound
  -- the destruction of the functor, unless the notifier has been reset
  have hdestroy : Ends T w (if c.ptr = none then pure () else destroy u r) w₂ fun _ w' =>
      Steps w w' ∧ w'.frames = .invalidating r x :: w.frames ∧
        ∀ c', w'.weaks x = some c' → c'.ptr = none ∨ w'.Gutted r := by
    split
    · rename_i hptr
      refine ⟨hs₂, hf₂, fun c' hx' => .inl ?_⟩
      rw [← Option.some.inj (hx.symm.trans hx'), hptr]
    · refine .run (detachFunctor_straight r) fun fo w₃ hdetach => ?_
      have hs₃ : Steps w w₃ := hs₂.tail (.slot (.detach hf₂ hdetach))
      have hw₃ := (hs₃.proceeds hw).sound
      obtain ⟨hg, hfo⟩ := detachFunctor_gutted hw₂.toWellAddressed hdetach
      have hlt : r < w₃.next :=
        Nat.lt_of_lt_of_le (hw.reps r rep hrep) (hs₃.proceeds hw).extension.next
      have hf₃ : w₃.frames = w₂.frames := by
        obtain ⟨_, _, _, -, -, rfl, -⟩ := detachFunctor_effect hdetach
        rfl
      refine ((destroyFunctor_ends hu hw₃ (.of_top (hf₃.trans hf₂) rfl) hlt hg hfo).after hs₃).mono
        fun _ w₄ h₄ => ?_
      exact ⟨hs₃.trans h₄.1, h₄.2.trans (hf₃.trans hf₂), fun _ _ =>
        .inr ((h₄.proceeds hw₃).extension.gutted hlt hg)⟩
  refine hdestroy.bind fun _ w₃ h₃ => .modify (.straight (WeakRawPtr.destroy_straight x) ?_)
  intro _ w' hrun'
  obtain ⟨hs₃, hf₃, hg₃⟩ := h₃
  obtain ⟨_, self, hself, -, -⟩ := WeakRawPtr.destroy_effect hrun'
  exact ⟨w₃, x, self, hs₃, hf₃, hself, hg₃ self hself, hrun'⟩

/-- `delete rep_`, which belongs to the slot `s`, up to the end of `destroy()`. -/
theorem destroyDying_ends (hu : u.Spec T) {r : Addr} {rp : SlotRep} {base : Trackable}
    {s : SlotAddr} {sl : SlotBase} (hw : Sound w) (calm : w.Calm) (alive : w.reps r = some rp)
    (hbase : w.trackables r = some base) (idle : base.dying = false) (slot : w.slots s = some sl)
    (rep : sl.rep = some r) (unlisted : sl.dying = true ∨ ¬w.Listed s) :
    Ends T w (destroy u r) ((w.setTrackable r (some { base with dying := true })).push (.deleting r))
      fun _ w' => Steps w w' ∧ w'.frames = .deleting r :: w.frames ∧ w'.Gutted r := by
  unfold destroy
  refine .run (detachFunctor_straight r) fun fo w₁ hdetach => ?_
  have hs₁ : Steps w w₁ := .single (.slot (.beginDelete calm hbase idle slot rep unlisted hdetach))
  have hw₁ := (hs₁.proceeds hw).sound
  have h₀ := Advances.setTrackable hw.toWellAddressed hbase (x := { base with dying := true })
    (fun _ => rfl) (·.of_callbackList rfl)
  have h₀' := h₀.trans (.push (f := .deleting r) h₀.addressed (hw.reps r rp alive)
    (by simp [Frame.owns]))
  obtain ⟨hg, hfo⟩ := detachFunctor_gutted h₀'.addressed hdetach
  have hlt : r < w₁.next :=
    Nat.lt_of_lt_of_le (hw.reps r rp alive) (hs₁.proceeds hw).extension.next
  have hf₁ : w₁.frames = .deleting r :: w.frames := by
    obtain ⟨_, _, _, -, -, rfl, -⟩ := detachFunctor_effect hdetach
    rfl
  refine ((destroyFunctor_ends hu hw₁ (.of_top hf₁ rfl) hlt hg hfo).after hs₁).mono fun _ w₂ h₂ => ?_
  exact ⟨hs₁.trans h₂.1, h₂.2.trans hf₁, (h₂.proceeds hw₁).extension.gutted hlt hg⟩

/-- `delete rep_`, which belongs to the slot `s`. -/
theorem delete_ends (hu : u.Spec T) {r : Addr} {s : SlotAddr} {sl : SlotBase}
    (hw : Sound w) (calm : w.Calm) (slot : w.slots s = some sl) (rep : sl.rep = some r)
    (unlisted : sl.dying = true ∨ ¬w.Listed s) :
    Ends T w (delete u r) w fun _ w' =>
      Goes w w' ∧ w'.reps r = none ∧ w'.trackables r = none := by
  unfold delete
  refine .load rfl fun rp hrp => .load rfl fun base hbase => ?_
  split
  · exact .unwatched rfl
  · rename_i hidle
    refine .modify ((destroyDying_ends hu hw calm hrp hbase (by simpa using hidle) slot rep
      unlisted).bind fun _ w₂ h₂ => ?_)
    obtain ⟨hs₂, hf₂, hg₂⟩ := h₂
    have hadv := hs₂.proceeds hw
    refine Ends.bind (Q := fun _ w' => Steps w w' ∧ w'.frames = .deleting r :: w.frames ∧
      ∃ tr, w'.trackables r = some tr ∧ tr.callbackList = none) ?_ fun _ w₃ h₃ => ?_
    · rcases hadv.extension.bases r (hw.reps r rp hrp) rp hrp with ⟨rp', hrp'⟩ | hnone
      · refine ((Trackable.notifyCallbacks_weak hadv.sound hrp' (.inr (.inl hg₂))
          (.of_top hf₂ rfl)).after
          hs₂).mono fun _ w₃ h₃ => ?_
        exact ⟨hs₂.trans h₃.2.1.1, h₃.2.1.2.trans hf₂, h₃.2.2⟩
      · refine .load rfl fun tr htr => ?_
        rw [hnone] at htr
        cases htr
    · obtain ⟨hs₃, hf₃, tr, htr, hl⟩ := h₃
      refine ⟨⟨hs₃.tail (.slot (.endDelete hf₃ htr hl)), ?_⟩, ?_, ?_⟩
      · simp [World.pop, World.setRep, World.setTrackable, hf₃]
      · simp [World.pop, World.setRep, World.setTrackable]
      · simp [World.pop, World.setRep, World.setTrackable]

end SlotRep

/-! ## Slots -/

theorem Proceeds.unlisted (h : Proceeds w w') (hw : Sound w) {s : SlotAddr} {sl : SlotBase}
    (alive : w.slots s = some sl) (hs : ¬w.Listed s) : ¬w'.Listed s := by
  rintro ⟨sl', i, hsl', ho⟩
  cases s with
  | object a =>
    obtain ⟨sl₀, hsl₀, hb⟩ := h.extension.slots.old (hw.slots a sl alive) hsl'
    exact hs ⟨sl₀, i, hsl₀, hb.1.symm.trans ho⟩
  | placeholder d => exact hw.ne_placeholder alive hs d rfl

namespace SlotBase

theorem empty_effect {s : SlotAddr} {b : Bool} (h : empty s w = (.ret b, w')) :
    w' = w ∧ (b = true ↔ w.Empty s) := by
  unfold empty loadSlot at h
  simp only [bind_eq_ret, deref_eq_ret] at h
  obtain ⟨sl, _, ⟨hsl, rfl⟩, h⟩ := h
  cases hr : sl.rep with
  | none =>
    simp only [hr, pure_eq_ret] at h
    exact ⟨h.2.symm, iff_of_true h.1.symm ⟨sl, hsl, by simp [hr]⟩⟩
  | some r =>
    simp only [hr, loadRep, bind_eq_ret, deref_eq_ret, pure_eq_ret] at h
    obtain ⟨rep, _, ⟨hrep, rfl⟩, rfl, rfl⟩ := h
    refine ⟨rfl, ?_, ?_⟩
    · intro hc
      refine ⟨sl, hsl, fun q hq => ⟨rep, ?_, by simpa using hc⟩⟩
      rwa [Option.some.inj (hq.symm.trans hr)]
    · rintro ⟨sl', hsl', hempty⟩
      obtain rfl := Option.some.inj (hsl.symm.trans hsl')
      obtain ⟨rep', hrep', hc⟩ := hempty r hr
      obtain rfl := Option.some.inj (hrep.symm.trans hrep')
      simpa using hc

theorem deleteRep_ends (hu : u.Spec T) {s : SlotAddr} {sl : SlotBase} (hw : Sound w)
    (calm : w.Calm) (slot : w.slots s = some sl) (unlisted : sl.dying = true ∨ ¬w.Listed s) :
    Ends T w (deleteRep u sl.rep) w fun _ w' => Goes w w' ∧ ∀ r, sl.rep = some r →
      w'.reps r = none ∧ w'.trackables r = none := by
  cases hr : sl.rep with
  | none => exact ⟨.refl w, by simp⟩
  | some r =>
    refine (SlotRep.delete_ends hu hw calm slot hr unlisted).mono fun _ w' h => ⟨h.1, ?_⟩
    rintro _ ⟨⟩
    exact h.2

theorem destroyBody_ends (hu : u.Spec T) {s : SlotAddr} {sl : SlotBase} (hw : Sound w)
    (calm : w.Calm) (slot : w.slots s = some sl) (dying : sl.dying = true) :
    Ends T w (destroyBody u s sl.rep) w fun _ w' => Goes w w' ∧ w'.slots s = none := by
  -- the slot is destroyed only after its rep
  refine Ends.bind (Q := fun _ w' => Goes w w' ∧ ∀ sl', w'.slots s = some sl' →
    sl'.dying = true ∧ ∀ r, sl'.rep = some r → w'.reps r = none ∧ w'.trackables r = none) ?_ ?_
  · cases hr : sl.rep with
    | none =>
      refine ⟨.refl w, fun sl' hsl' => ?_⟩
      obtain rfl := Option.some.inj (slot.symm.trans hsl')
      exact ⟨dying, by simp [hr]⟩
    | some r =>
      refine (SlotRep.delete_ends hu hw calm slot hr (.inl dying)).mono fun _ w₁ h => ⟨h.1, ?_⟩
      intro sl' hsl'
      cases s with
      | placeholder d =>
        rw [(hw.placeholder d sl slot).1] at hr
        cases hr
      | object a =>
        obtain ⟨sl₀, hsl₀, -, hdying, -⟩ :=
          (h.1.proceeds hw).extension.slots.old (hw.slots a sl slot) hsl'
        obtain rfl := Option.some.inj (slot.symm.trans hsl₀)
        refine ⟨(hdying dying).1, fun q hq => ?_⟩
        rw [(hdying dying).2, hr] at hq
        exact Option.some.inj hq ▸ h.2
  · rintro _ w₁ ⟨hgo, hend⟩
    exact ⟨⟨hgo.1.tail (.slot (.endDestroy hend)), hgo.2⟩, by simp [World.setSlot]⟩

theorem destroy_ends (hu : u.Spec T) {s : SlotAddr} (hw : Sound w) (calm : w.Calm)
    (unlisted : ¬w.Listed s) :
    Ends T w (destroy u s) w fun _ w' => Goes w w' ∧ w'.slots s = none := by
  unfold destroy
  refine .load rfl fun sl hsl => .modify ?_
  have hs : Steps w (w.setSlot s (some { sl with dying := true })) :=
    .single (.slot (.beginDestroy hsl unlisted))
  refine ((destroyBody_ends hu (hs.proceeds hw).sound (calm.of_frames rfl) (Function.update_self _ _ _)
    rfl).after hs).mono fun _ w' h => ?_
  exact ⟨⟨hs.trans h.1.1, h.1.2⟩, h.2⟩

/-- `clear_rep()` in `delete_rep_with_check()`. -/
theorem clearRep_ends (hu : u.Spec T) {s : SlotAddr} {r x : Addr} {below : List (Frame V)}
    (hw : Sound w) (top : w.frames = .checking s r x :: below) (unlisted : ¬w.Listed s) :
    Ends T w (clearRep u s) w fun _ => Goes w := by
  unfold clearRep
  refine .load rfl fun sl hsl =>
    (deleteRep_ends hu hw (.of_top top rfl) hsl (.inr unlisted)).bind fun _ w₁ h => ?_
  refine .intact fun sl₁ hsl₁ intact => ?_
  have hun := (h.1.proceeds hw).unlisted hw hsl unlisted
  exact ⟨h.1.1.tail (.slot (.clearRep (h.1.2.trans top) hsl₁ intact hun)), h.1.2⟩

theorem deleteRepWithCheck_ends (hu : u.Spec T) (hc : Severs T cleanup) {s : SlotAddr}
    (hw : Sound w) (calm : w.Calm) (unlisted : ¬w.Listed s) :
    Ends T w (deleteRepWithCheck u cleanup s) w fun _ => Goes w := by
  unfold deleteRepWithCheck
  refine .load rfl fun sl hsl => ?_
  cases hr : sl.rep with
  | none => exact Goes.refl w
  | some r =>
    refine .run (WeakRawPtr.construct_straight _ _) fun x w₁ hrun => .modify ?_
    have hs₁ : Steps w (w₁.push (.checking s r x)) :=
      .single (.slot (.startCheck calm hsl hr unlisted hrun))
    have hf₁ : w₁.frames = w.frames := by
      obtain ⟨-, tks, ign, rfl, -⟩ := WeakRawPtr.construct_effect hrun
      rfl
    have hsl₁ : (w₁.push (.checking s r x)).slots s = some sl := by
      obtain ⟨-, tks, ign, rfl, -⟩ := WeakRawPtr.construct_effect hrun
      exact hsl
    have hadv₁ := hs₁.proceeds hw
    have hun₁ := hadv₁.unlisted hw hsl unlisted
    -- rep_->disconnect() may run the notification of the parent, which may delete the rep.
    refine Ends.call hs₁ (SlotRep.disconnect_ends hu hc (.now hadv₁.sound
      (.inl (.of_top rfl rfl)))) fun _ w₂ h₂ => .load rfl fun c hx => ?_
    have hs₂ : Steps w w₂ := hs₁.trans h₂.1
    have hw₂ := (hs₂.proceeds hw).sound
    have hf₂ : w₂.frames = .checking s r x :: w.frames := by
      rw [h₂.2.1, ← hf₁]
      rfl
    have hun₂ := (h₂.1.proceeds hadv₁.sound).unlisted hadv₁.sound hsl₁ hun₁
    refine Ends.bind (Q := fun _ w' => Steps w w' ∧ w'.frames = .checking s r x :: w.frames) ?_
      fun _ w₃ h₃ => .modify (.straight (WeakRawPtr.destroy_straight x) fun _ w' hrun' => ?_)
    -- The notifier says whether the rep has been deleted meanwhile.
    · split
      · exact ⟨hs₂, hf₂⟩
      · exact ((clearRep_ends hu hw₂ hf₂ hun₂).after hs₂).mono fun _ w₃ h₃ =>
          ⟨hs₂.trans h₃.1, h₃.2.trans hf₂⟩
    · refine ⟨h₃.1.tail (.slot (.endCheck h₃.2 hrun')), ?_⟩
      obtain ⟨_, _, -, rfl, -⟩ := WeakRawPtr.destroy_effect hrun'
      simp [World.pop, h₃.2]

/-! ### Copies and moves -/

theorem functorOk_cons {t : Target} {f : Functor} (ht : w.FunctorOk [t]) (hf : w.FunctorOk f) :
    w.FunctorOk (t :: f) where
  slot s hs := by
    rcases List.mem_cons.mp hs with rfl | hm
    · exact ht.slot s List.mem_cons_self
    · exact hf.slot s hm
  trackable a ha := by
    rcases List.mem_cons.mp ha with rfl | hm
    · exact ht.trackable a List.mem_cons_self
    · exact hf.trackable a hm

/-- Steps that leave the handles as they were, too. -/
def Keeps (w w' : World V) : Prop := Goes w w' ∧ w'.handles = w.handles

theorem Keeps.refl (w : World V) : Keeps w w := ⟨.refl w, rfl⟩

theorem Keeps.trans {w₀ : World V} (h : Keeps w₀ w) (h' : Keeps w w') : Keeps w₀ w' :=
  ⟨h.1.trans h'.1, h'.2.trans h.2⟩

/-- A slot that a functor will own is constructed. -/
theorem constructCopy_ends {init : SlotInit}
    (functor : ∀ f, init.functor = some f → w.FunctorOk f) :
    Ends T w (construct .functor init) w fun s w' => Keeps w w' ∧ w'.FunctorOk [.slot s] := by
  refine .straight (construct_straight _ _) fun s w' run => ⟨⟨⟨.single (.slot (.construct
    (by simp) functor run)), ?_⟩, ?_⟩, ?_⟩
  all_goals
    obtain ⟨-, rfl, rfl⟩ | ⟨f, tks, ign, rps, -, -, rfl, rfl⟩ := construct_effect run
  · rfl
  · rfl
  · rfl
  · rfl
  · refine ⟨fun s hs => ?_, by simp⟩
    obtain rfl : s = .object w.next := by simpa using hs
    exact ⟨w.next, rfl, Nat.lt_succ_self _, by simp [World.setSlot]⟩
  · refine ⟨fun s hs => ?_, by simp⟩
    obtain rfl : s = .object (w.next + 1) := by simpa using hs
    exact ⟨w.next + 1, rfl, Nat.lt_succ_self _, by simp [World.setSlot]⟩

theorem copyFunctor_ends {copySlot : SlotAddr → M V SlotAddr}
    (hcopy : ∀ w s, Sound w → Ends T w (copySlot s) w fun s' w' =>
      Keeps w w' ∧ w'.FunctorOk [.slot s']) (f : Functor) :
    ∀ {w : World V}, Sound w → (∀ t, .trackable t ∈ f → t < w.next ∧ w.reps t = none) →
      Ends T w (copyFunctor copySlot f) w fun f' w' => Keeps w w' ∧ w'.FunctorOk f' := by
  -- on the targets: the copies made so far stay as they are while the others are made
  induction f with
  | nil => exact fun {w} _ _ => ⟨.refl w, ⟨by simp, by simp⟩⟩
  | cons t ts ih =>
    intro w hw ht
    have hts := fun t' h => ht t' (List.mem_cons_of_mem t h)
    cases t with
    | trackable t =>
      have hok : w.FunctorOk [.trackable t] :=
        ⟨by simp, fun t' ht' => ht t' (List.mem_cons.mpr (.inl (List.mem_singleton.mp ht')))⟩
      exact (ih hw hts).bind fun f' w' h =>
        ⟨h.1, functorOk_cons ((h.1.1.proceeds hw).extension.functorOk hok) h.2⟩
    | slot s =>
      refine (hcopy w s hw).bind fun s' w₁ h₁ => ?_
      have hadv := h₁.1.1.proceeds hw
      refine Ends.call h₁.1.1.1 (ih hadv.sound fun t ht' => ?_) fun f' w₂ h₂ => ?_
      · obtain ⟨hlt, hnone⟩ := hts t ht'
        exact ⟨Nat.lt_of_lt_of_le hlt hadv.extension.next, hadv.extension.reps.eq_none hlt hnone⟩
      · exact ⟨h₁.1.trans h₂.1, functorOk_cons
          ((h₂.1.1.proceeds hadv.sound).extension.functorOk h₁.2) h₂.2⟩

/-- `copyInit` has made copies of the slots in the functor it returns. -/
def Copies (T : World V → Prop) (n : Nat) : Prop :=
  ∀ (w : World V) (src : SlotAddr), Sound w → Ends T w (copyInit n src) w fun init w' =>
    Keeps w w' ∧ ∀ f, init.functor = some f → w'.FunctorOk f

theorem Copies.stored {n : Nat} (h : Copies T n) (w : World V) (s : SlotAddr)
    (hw : Sound w) : Ends T w (copyInit n s >>= construct .functor) w fun s' w' =>
      Keeps w w' ∧ w'.FunctorOk [.slot s'] :=
  (h w s hw).bind fun _ _ h₁ => ((constructCopy_ends h₁.2).after h₁.1.1.1).mono fun _ _ h₂ =>
    ⟨h₁.1.trans h₂.1, h₂.2⟩

theorem copyInit_ends (hT : ∀ w, T w) (n : Nat) : Copies (V := V) T n := by
  -- on the depth to which slots may be stored in functors
  induction n with
  | zero => exact fun w src _ => hT w
  | succ n ih =>
    intro w src hw
    unfold copyInit
    refine .load rfl fun sl hsl => ?_
    cases sl.rep with
    | none => exact ⟨.refl w, by simp⟩
    | some r =>
      refine .load rfl fun rep hrep => ?_
      split
      · refine .load rfl fun f hf => ?_
        refine (copyFunctor_ends ih.stored f hw fun t ht =>
          (hw.functor r rep f hrep hf).trackable t ht).bind fun f' w' h => ⟨h.1, ?_⟩
        rintro _ ⟨⟩
        exact h.2
      · exact ⟨.refl w, by simp⟩

theorem copyConstruct_ends (hT : ∀ w, T w) {owner : Owner} {src : SlotAddr}
    (hw : Sound w) (unlisted : ∀ i, owner ≠ .list i) :
    Ends T w (copyConstruct u owner src) w fun _ => Goes w := by
  refine (copyInit_ends hT u.fuel _ _ hw).bind fun init w₁ h => ?_
  refine .straight (construct_straight owner init) fun s w' run => ?_
  refine h.1.1.trans (.of_step (.slot (.construct unlisted h.2 run)) ?_)
  obtain ⟨-, rfl, rfl⟩ | ⟨f, tks, ign, rps, -, -, rfl, rfl⟩ := construct_effect run <;> rfl

/-- The rep of the slot that is moved is told, and with it the weak pointers to the slot. -/
theorem notifyMove_ends {s : SlotAddr} {sl : SlotBase} {r : Addr} {rep : SlotRep} (hw : Sound w)
    (calm : w.Calm) (slot : w.slots s = some sl) (hr : sl.rep = some r)
    (alive : w.reps r = some rep) :
    Ends T w (notifyMove u r) w fun _ w' => Keeps w w' ∧ w'.Unwatched s := by
  have hs := Steps.single (.slot (.move (w := w) r))
  refine .modify (((Trackable.notifyCallbacks_weak (hs.proceeds hw).sound alive
    (.inr (.inr rfl)) (calm.of_frames rfl)).after hs).mono fun _ w' h => ?_)
  obtain ⟨⟨_, _, _, _, rfl⟩, hgo, tr, htr, hlist⟩ := h
  refine ⟨⟨⟨hs.trans hgo.1, hgo.2⟩, rfl⟩, fun sl' q base hsl' hq hbase => ?_⟩
  obtain rfl := Option.some.inj (slot.symm.trans hsl')
  obtain rfl := Option.some.inj (hr.symm.trans hq)
  rwa [← Option.some.inj (htr.symm.trans hbase)]

/-- The move constructor, for any two ways to place the new slot. -/
theorem moveConstructWith_ends (hT : ∀ w, T w) {build : SlotInit → M V SlotAddr}
    {take : SlotAddr → Bool → M V SlotAddr} {src : SlotAddr} {Q : SlotAddr → World V → Prop}
    (hw : Sound w) (calm : w.Calm) (source : ¬w.Listed src)
    (hbuild : ∀ init w₁, Keeps w w₁ → (∀ f, init.functor = some f → w₁.FunctorOk f) →
      Ends T w (build init) w₁ Q)
    (htake : ∀ blocked w₁, Keeps w w₁ → ¬w₁.Listed src → w₁.Unwatched src →
      Ends T w (take src blocked) w₁ Q) :
    Ends T w (moveConstructWith u build take src) w Q := by
  unfold moveConstructWith
  refine .load rfl fun sl hsl => ?_
  cases hr : sl.rep with
  | none => exact hbuild _ w (.refl w) (by simp)
  | some r =>
    refine .load rfl fun rep hrep => ?_
    split
    · exact (notifyMove_ends hw calm hsl hr hrep).bind fun _ w₁ h => htake _ w₁ h.1
        ((h.1.1.proceeds hw).unlisted hw hsl source) h.2
    · exact (copyInit_ends hT u.fuel _ _ hw).bind fun init w₁ h => hbuild init w₁ h.1 h.2

theorem moveConstruct_ends (hT : ∀ w, T w) {owner : Owner} {src : SlotAddr}
    (hw : Sound w) (calm : w.Calm) (source : ¬w.Listed src) (unlisted : ∀ i, owner ≠ .list i) :
    Ends T w (moveConstruct u owner src) w fun _ => Goes w := by
  refine moveConstructWith_ends hT hw calm source (fun init w₁ h hf => ?_)
    fun blocked w₁ h hs told => ?_
  · refine .straight (construct_straight owner init) fun s w' run => ?_
    refine h.1.trans (.of_step (.slot (.construct unlisted hf run)) ?_)
    obtain ⟨-, rfl, rfl⟩ | ⟨f, tks, ign, rps, -, -, rfl, rfl⟩ := construct_effect run <;> rfl
  · refine .straight (takeRep_straight owner src blocked) fun s w' run => ?_
    refine h.1.trans (.of_step (.slot (.take unlisted hs told run)) ?_)
    obtain ⟨sl, -, rfl, rfl⟩ := takeRep_effect run
    rfl

/-! ### Assignments -/

/-- The old rep is deleted; after that the new one can take its place. -/
theorem deleteOld_ends (hu : u.Spec T) {dst : SlotAddr} {new : Addr} {below : List (Frame V)}
    (hw : Sound w) (top : w.frames = .assigning dst new :: below)
    (unlisted : ¬w.Listed dst) :
    Ends T w (deleteOld u dst) w fun _ w' => Steps w w' ∧ w'.frames = .assigning dst new :: below ∧
      ∀ self, w'.slots dst = some self → self.dying = false →
        Steps w (w'.replaceRep dst self (some new)).pop := by
  unfold deleteOld
  refine .load rfl fun sl hsl =>
    (deleteRep_ends hu hw (.of_top top rfl) hsl (.inr unlisted)).mono fun _ w' h => ?_
  have hun := (h.1.proceeds hw).unlisted hw hsl unlisted
  exact ⟨h.1.1, h.1.2.trans top, fun self hself intact =>
    h.1.1.tail (.slot (.finishAssign (h.1.2.trans top) hself intact hun))⟩

/-- The new rep is ready to take the place of the old one. -/
def Prepared (w : World V) (dst : SlotAddr) (new : Addr) (w' : World V) : Prop :=
  Steps w w' ∧ w'.frames = .assigning dst new :: w.frames ∧ ¬w'.Listed dst

theorem cloneFor_ends {dst : SlotAddr} {f : Functor} (hw : Sound w) (calm : w.Calm)
    (unlisted : ¬w.Listed dst) (functor : w.FunctorOk f) :
    Ends T w (cloneFor dst f) w (Prepared w dst) := by
  refine .straight (cloneFor_straight dst f) fun new w₁ run => ?_
  have hs₁ : Steps w w₁ := .single (.slot (.cloneFor calm unlisted functor run))
  obtain ⟨-, tks, ign, rps, sl, w₂, -, alive, hpass, rfl⟩ := cloneFor_effect run
  refine ⟨hs₁, ?_, (hs₁.proceeds hw).unlisted hw alive unlisted⟩
  obtain ⟨-, rfl⟩ | ⟨_, _, _, -, -, -, rfl⟩ := passParent_effect hpass <;> rfl

theorem moveFor_ends {dst src : SlotAddr} (hw : Sound w) (calm : w.Calm)
    (unlisted : ¬w.Listed dst) (source : ¬w.Listed src) (told : w.Unwatched src) :
    Ends T w (moveFor dst src) w (Prepared w dst) := by
  refine .straight (moveFor_straight dst src) fun new w₁ run => ?_
  have hs₁ : Steps w w₁ := .single (.slot (.moveFor calm unlisted source told run))
  obtain ⟨from_, sl, w₂, ⟨hfrom, -⟩, -, hdst, hpass, rfl⟩ := moveFor_effect run
  have alive : ∃ sl, w.slots dst = some sl := by
    by_cases hds : dst = src
    · exact ⟨from_, hds ▸ hfrom⟩
    · exact ⟨sl, by rwa [Function.update_of_ne hds] at hdst⟩
  obtain ⟨sl₀, hsl₀⟩ := alive
  refine ⟨hs₁, ?_, (hs₁.proceeds hw).unlisted hw hsl₀ unlisted⟩
  obtain ⟨-, rfl⟩ | ⟨_, _, _, -, -, -, rfl⟩ := passParent_effect hpass <;> rfl

/-- The old rep is deleted, and after that the new one can take its place. -/
theorem replaceRep_ends (hu : u.Spec T) {dst : SlotAddr} {new : Addr} {w₀ : World V}
    (hw : Sound w₀) (h : Prepared w₀ dst new w) {k : SlotBase → M V Unit}
    {Q : Unit → World V → Prop}
    (hk : ∀ self w', Goes w₀ (w'.replaceRep dst self (some new)).pop →
      Ends T w₀ (k self) w' Q) :
    Ends T w₀ (deleteOld u dst >>= fun _ => loadIntact dst >>= k) w Q := by
  obtain ⟨hs, top, unlisted⟩ := h
  refine Ends.call hs (deleteOld_ends hu (hs.proceeds hw).sound top unlisted)
    fun _ w₂ h₂ => .intact fun self hself intact =>
      hk self w₂ ⟨hs.trans (h₂.2.2 self hself intact), ?_⟩
  simp [World.pop, World.replaceRep, World.record, World.setSlot, h₂.2.1]

theorem setBlocked_goes {s : SlotAddr} {sl : SlotBase} (b : Bool) (h : w.slots s = some sl) :
    Goes w (w.setSlot s (some { sl with blocked := b })) :=
  .of_step (.slot (.setBlocked b h)) rfl

theorem assign_ends (hu : u.Spec T) (hT : ∀ w, T w) (hc : Severs T cleanup) {dst src : SlotAddr}
    (hw : Sound w) (calm : w.Calm) (unlisted : ¬w.Listed dst) :
    Ends T w (assign u cleanup dst src) w fun _ => Goes w := by
  unfold assign
  refine .load rfl fun self hself => .load rfl fun from_ hfrom => ?_
  split
  · exact setBlocked_goes _ hself
  · refine .run (empty_straight src) fun b w' hempty => ?_
    obtain rfl : w = w' := (empty_effect hempty).1.symm
    split
    · exact deleteRepWithCheck_ends hu hc hw calm unlisted
    · refine (copyInit_ends hT u.fuel _ _ hw).bind fun init w₁ h₁ => .load rfl fun f hf => ?_
      have hadv := h₁.1.1.proceeds hw
      refine Ends.call h₁.1.1.1 (cloneFor_ends hadv.sound (h₁.1.1.calm calm)
        (hadv.unlisted hw hself unlisted)
        (h₁.2 f hf)) fun new w₂ h₂ => ?_
      have hprep : Prepared w dst new w₂ :=
        ⟨h₁.1.1.1.trans h₂.1, h₂.2.1.trans (congrArg _ h₁.1.1.2), h₂.2.2⟩
      exact replaceRep_ends hu hw hprep fun self₃ w₃ h₃ => .modify (.load rfl fun from₃ hfrom₃ =>
        .load rfl fun self₄ hself₄ => h₃.trans (setBlocked_goes _ hself₄))

theorem moveAssign_ends (hu : u.Spec T) (hT : ∀ w, T w) (hc : Severs T cleanup)
    {dst src : SlotAddr} (hw : Sound w) (calm : w.Calm) (unlisted : ¬w.Listed dst)
    (source : ¬w.Listed src) : Ends T w (moveAssign u cleanup dst src) w fun _ => Goes w := by
  unfold moveAssign
  refine .load rfl fun self hself => .load rfl fun from_ hfrom => ?_
  split
  · exact setBlocked_goes _ hself
  · rename_i hne
    refine .run (empty_straight src) fun b w' hempty => ?_
    obtain rfl : w = w' := (empty_effect hempty).1.symm
    split
    -- An empty source.
    · exact deleteRepWithCheck_ends hu hc hw calm unlisted
    · have h₁ := setBlocked_goes (V := V) from_.blocked hself
      refine .modify (.load rfl fun r hr => .load rfl fun rep hrep => ?_)
      have hadv₁ := h₁.proceeds hw
      have hun₁ := hadv₁.unlisted hw hself unlisted
      have hslot₁ : Function.update w.slots dst (some { self with blocked := from_.blocked }) src =
          some from_ := by
        refine (Function.update_of_ne (fun h => hne ?_) _ _).trans hfrom
        obtain rfl := Option.some.inj (hself.symm.trans (h ▸ hfrom))
        rfl
      refine Ends.bind (Q := Prepared w dst) ?_ fun new w₂ h₂ => ?_
      · split
        -- A source without parent is really moved, its connections being told first.
        · refine Ends.call h₁.1 (notifyMove_ends hadv₁.sound (h₁.calm calm) hslot₁ hr
            hrep) fun _ w₂ h₂ => ?_
          have hgo := h₁.trans h₂.1.1
          have hadv₂ := hgo.proceeds hw
          refine ((moveFor_ends hadv₂.sound (hgo.calm calm) (hadv₂.unlisted hw hself unlisted)
            (hadv₂.unlisted hw hfrom source) h₂.2).after hgo.1).mono fun new w₃ h₃ => ?_
          exact ⟨hgo.1.trans h₃.1, h₃.2.1.trans (congrArg _ hgo.2), h₃.2.2⟩
        -- A source with a parent is cloned.
        · refine Ends.call h₁.1 (copyInit_ends hT u.fuel _ _ hadv₁.sound) fun init w₂ h₂ =>
            .load rfl fun f hf => ?_
          have hgo := h₁.trans h₂.1.1
          have hadv₂ := hgo.proceeds hw
          refine ((cloneFor_ends hadv₂.sound (hgo.calm calm) (hadv₂.unlisted hw hself unlisted)
            (h₂.2 f hf)).after hgo.1).mono fun new w₃ h₃ => ?_
          exact ⟨hgo.1.trans h₃.1, h₃.2.1.trans (congrArg _ hgo.2), h₃.2.2⟩
      · exact replaceRep_ends hu hw h₂ fun self₃ w₃ h₃ => h₃

end SlotBase

end Sigc
