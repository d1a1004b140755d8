import Sigc.EmissionRuns

/-!
# Client code and whole runs

Every command, every piece of client code and every call through a pointer is a sequence of steps,
by induction on the fuel of the run.
-/

namespace Sigc

open Reasoning Prog

variable {V : Type} {T : World V → Prop} {u : Env V} {w w' w₀ w₁ : World V}

/-- A command may let an exception of a slot through. -/
def Executes {α : Type} (T : World V → Prop) (w : World V) (x : M V α) : Prop :=
  wp x (fun _ => Goes w) (fun _ => Goes w) (Halts T w) w

theorem Executes.of_ends {α : Type} {x : M V α} (h : Ends T w x w fun _ => Goes w) :
    Executes T w x :=
  wp_mono h (fun _ _ => id) (fun _ _ => False.elim) (fun _ _ => id)

/-- The result of a command is dropped. -/
theorem Executes.drop {α : Type} {x : M V α} (h : Executes T w x) :
    Executes T w (x >>= fun _ => pure ()) :=
  wp_bind.mpr h

/-- A command that is one step. -/
theorem Executes.of_step {α : Type} {x : M V α} (hx : Straight x)
    (h : ∀ a w', x w = (.ret a, w') → Step w w' ∧ w'.frames = w.frames) : Executes T w x :=
  .of_ends (.straight hx fun a w' run => .of_step (h a w' run).1 (h a w' run).2)

theorem World.UserPoint.of_frames (h : w.UserPoint) (hf : w'.frames = w.frames) : w'.UserPoint := by
  unfold UserPoint
  rwa [hf]

/-- A slot that client code can name is not an element of a list. -/
theorem World.not_listed_of_hasSlot {s : SlotAddr} (h : w.hasSlot s = true) : ¬w.Listed s := by
  rintro ⟨sl, i, hsl, ho⟩
  simp [World.hasSlot, hsl, ho] at h

theorem World.hasSlot_of_own {s : SlotAddr} (h : w.hasOwnSlot s = true) : w.hasSlot s = true := by
  unfold World.hasOwnSlot at h
  unfold World.hasSlot
  cases hsl : w.slots s with
  | none => simp [hsl] at h
  | some sl =>
    simp only [hsl, Option.any_some, Bool.and_eq_true, Bool.or_eq_true] at h ⊢
    exact ⟨h.1, .inl h.2⟩

theorem World.hasHandle_iff {h : Addr} : w.hasHandle h = true ↔ ∃ o, (h, o) ∈ w.handles := by
  simp [World.hasHandle]

/-! ## Trackables -/

namespace Trackable

theorem client_of_hasTrackable {t : Addr} (h : w.hasTrackable t = true) : w.reps t = none := by
  simp only [World.hasTrackable, Bool.and_eq_true, Option.isNone_iff_eq_none] at h
  exact h.1

theorem lt_of_hasTrackable (hw : Sound w) {t : Addr} (h : w.hasTrackable t = true) :
    t < w.next := by
  simp only [World.hasTrackable, Bool.and_eq_true] at h
  cases ht : w.trackables t with
  | none => simp [ht] at h
  | some tr => exact hw.trackables t tr ht

/-- A client's trackable goes through its callbacks, some way into a command. -/
theorem notifyClient_ends (hu : u.Spec T) (hT : ∀ w, T w) {t : Addr} (hw : Sound w₀)
    (calm : w₀.Calm) (ht : t < w₀.next) (client : w₀.reps t = none) (hgo : Goes w₀ w) :
    Ends T w₀ (notifyCallbacks u t) w fun _ w' => Goes w₀ w' ∧
      ∃ tr, w'.trackables t = some tr ∧ tr.callbackList = none := by
  have hadv := hgo.proceeds hw
  refine ((notifyCallbacks_ends hu hT hadv.sound
    (.inl (hadv.extension.reps.eq_none ht client)) (hgo.calm calm)).after hgo.1).mono fun _ w' h => ?_
  exact ⟨hgo.trans h.1, h.2⟩

theorem construct_goes : Goes w (({ w with next := w.next + 1 }).setTrackable w.next (some {})) :=
  .of_step (.trackable (.construct w)) rfl

theorem moveConstruct_ends (hu : u.Spec T) (hT : ∀ w, T w) {src : Addr} (hw : Sound w)
    (calm : w.Calm) (h : w.hasTrackable src = true) :
    Ends T w (moveConstruct u src) w fun _ => Goes w :=
  (notifyClient_ends hu hT hw calm (lt_of_hasTrackable hw h) (client_of_hasTrackable h)
    construct_goes).bind fun _ _ h' => h'.1

theorem assign_ends (hu : u.Spec T) (hT : ∀ w, T w) {dst src : Addr} (hw : Sound w)
    (calm : w.Calm) (h : w.hasTrackable dst = true) :
    Ends T w (assign u dst src) w fun _ => Goes w := by
  unfold assign
  split
  · exact (notifyClient_ends hu hT hw calm (lt_of_hasTrackable hw h) (client_of_hasTrackable h)
      (.refl w)).mono fun _ _ h' => h'.1
  · exact Goes.refl w

theorem moveAssign_ends (hu : u.Spec T) (hT : ∀ w, T w) {dst src : Addr} (hw : Sound w)
    (calm : w.Calm) (h : w.hasTrackable dst = true) (h' : w.hasTrackable src = true) :
    Ends T w (moveAssign u dst src) w fun _ => Goes w := by
  unfold moveAssign
  split
  · refine (notifyClient_ends hu hT hw calm (lt_of_hasTrackable hw h) (client_of_hasTrackable h)
      (.refl w)).bind fun _ w₁ h₁ => ?_
    exact (notifyClient_ends hu hT hw calm (lt_of_hasTrackable hw h') (client_of_hasTrackable h')
      h₁.1).mono fun _ _ h₂ => h₂.1
  · exact Goes.refl w

theorem destroy_ends (hu : u.Spec T) (hT : ∀ w, T w) {t : Addr} (hw : Sound w)
    (calm : w.Calm) (h : w.hasTrackable t = true) : Ends T w (destroy u t) w fun _ => Goes w := by
  have ht := lt_of_hasTrackable hw h
  have hclient := client_of_hasTrackable h
  unfold destroy
  refine .load rfl fun tr htr => .modify ?_
  have hgo : Goes w (w.setTrackable t (some { tr with dying := true })) :=
    .of_step (.trackable (.beginDestroy htr hclient)) rfl
  refine (notifyClient_ends hu hT hw calm ht hclient hgo).bind fun _ w₁ h₁ => ?_
  obtain ⟨hgo₁, tr₁, htr₁, hnone⟩ := h₁
  have hclient₁ := (hgo₁.proceeds hw).extension.reps.eq_none ht hclient
  exact hgo₁.trans (.of_step (.trackable (.endDestroy htr₁ hclient₁ hnone)) rfl)

end Trackable

/-! ## Slots and connections -/

theorem SlotBase.call_executes [Inhabited V] (hu : u.Spec T) {s : SlotAddr}
    (hw : Sound w) (calm : w.Calm) : Executes T w (SlotBase.call u s) := by
  unfold SlotBase.call Executes loadSlot
  rw [wp_bind, wp_deref]
  refine ⟨fun sl hsl => ?_, fun _ => .unwatched rfl⟩
  cases sl.rep with
  | none => exact Goes.refl w
  | some r =>
    unfold loadRep
    dsimp only
    rw [wp_bind, wp_deref]
    refine ⟨fun rep hrep => ?_, fun _ => .unwatched rfl⟩
    split
    · rename_i hcall
      rw [Bool.and_eq_true] at hcall
      exact hu.handler w r rep hw calm hrep hcall.1
    · exact Goes.refl w

theorem SlotBase.fromFunctor_ends (hT : ∀ w, T w) {f : Functor} (hw : Sound w)
    (wellFormed : f.all w.hasTarget = true) :
    Ends T w (SlotBase.fromFunctor u f) w fun _ => Goes w := by
  have htrack : ∀ t, .trackable t ∈ f → t < w.next ∧ w.reps t = none := fun t ht => by
    have h : w.hasTrackable t = true := List.all_eq_true.mp wellFormed _ ht
    exact ⟨Trackable.lt_of_hasTrackable hw h, Trackable.client_of_hasTrackable h⟩
  refine (copyFunctor_ends (copyInit_ends hT u.fuel).stored f hw htrack).bind fun f' w₁ h₁ => ?_
  refine .straight (construct_straight _ _) fun s w' run => h₁.1.1.trans (.of_step
    (.slot (.construct (by simp) (by rintro _ ⟨⟩; exact h₁.2) run)) ?_)
  obtain ⟨-, rfl, rfl⟩ | ⟨_, _, _, _, -, -, rfl, rfl⟩ := construct_effect run <;> rfl

theorem Connection.disconnect_ends (hu : u.Spec T) (hT : ∀ w, T w) {c : Addr}
    (hw : Sound w) (calm : w.Calm) : Ends T w (disconnect u c) w fun _ => Goes w := by
  refine .load rfl fun self hself => ?_
  split
  · exact (SlotBase.disconnect_ends hu (SignalImpl.notifySelfAndIterOfInvalidatedSlot_severs hu hT)
      hw fun _ _ _ _ => .inl calm).mono fun _ _ h => h.1
  · exact Goes.refl w

theorem SlotBase.block_ends {s : SlotAddr} {b : Bool} :
    Ends T w (block s b) w fun _ => Goes w :=
  .load rfl fun _ hsl => setBlocked_goes b hsl

theorem Connection.block_ends {c : Addr} {b : Bool} :
    Ends T w (block c b) w fun _ => Goes w := by
  refine .load rfl fun self hself => ?_
  split
  · exact SlotBase.block_ends
  · exact Goes.refl w

theorem WeakRawPtr.construct_ends {p : Option WeakTarget} (user : w.UserPoint)
    (source : w.Source p) : Ends T w (construct p false) w fun _ => Goes w := by
  refine .straight (construct_straight p false) fun c w' run =>
    .of_step (.weak (.construct user source run)) ?_
  obtain ⟨-, _, _, rfl, -⟩ := construct_effect run
  rfl

/-- It has been recorded whether the slot has a rep. -/
theorem World.source_refer (s : SlotAddr) :
    (w.record (.referenced s ((w.slots s).any (·.rep.isSome)))).Source (some (.slot s)) := by
  intro s' hs'
  obtain rfl : s = s' := by simpa using hs'
  cases h : (w.slots s).any (·.rep.isSome) with
  | false => exact .inr (.inl List.mem_cons_self)
  | true =>
    cases hsl : w.slots s with
    | none => simp [hsl] at h
    | some sl =>
      obtain ⟨r, hr⟩ := Option.isSome_iff_exists.mp (by simpa [hsl] using h)
      exact .inl ⟨sl, r, hsl, hr⟩

theorem World.connection_of_hasConnection {c : Addr} (h : w.hasConnection c = true) :
    ∃ self, w.weaks c = some self ∧ self.notifier = false := by
  unfold World.hasConnection at h
  cases hc : w.weaks c with
  | none => simp [hc] at h
  | some self => exact ⟨self, rfl, by simpa [hc] using h⟩

theorem SignalBase.connect_ends (hT : ∀ w, T w) {h : Addr} {src : SlotAddr} {first move : Bool}
    (hw : Sound w) (user : w.UserPoint) (handle : w.hasHandle h = true)
    (source : w.hasSlot src = true) :
    Ends T w (connect u h src first move) w fun _ => Goes w := by
  unfold connect
  refine impl_ends.bind fun i w₁ h₁ => ?_
  have hadv := h₁.1.proceeds hw
  have hsrc : ¬w₁.Listed src := by
    have hun := World.not_listed_of_hasSlot source
    unfold World.hasSlot at source
    cases hsl : w.slots src with
    | none => simp [hsl] at source
    | some sl => exact hadv.unlisted hw hsl hun
  refine Ends.call h₁.1.1 (SignalImpl.insert_ends hT hadv.sound (user.of_frames h₁.1.2)
    (h₁.2 (World.hasHandle_iff.mp handle)) hsrc) fun n w₂ h₂ => ?_
  have hgo := h₁.1.trans h₂.1
  have hsource : w₂.Source (some (.slot n)) := fun s hs => by
    obtain rfl : n = s := by simpa using hs
    exact .inl h₂.2
  exact ((WeakRawPtr.construct_ends (user.of_frames hgo.2) hsource).after hgo.1).mono
    fun _ _ h₃ => hgo.trans h₃

/-! ## Commands -/

theorem exec_executes [Inhabited V] (hu : u.Spec T) (hT : ∀ w, T w) {c : Cmd V}
    (hw : Sound w) (user : w.UserPoint) (wellFormed : c.wellFormed w = true) :
    Executes T w (exec u c) := by
  have calm := user.calm
  have hc := SignalImpl.notifySelfAndIterOfInvalidatedSlot_severs (T := T) hu hT
  -- One lemma for each command, about the function of the library that it calls.
  cases c with
  | ret _ => exact Goes.refl w
  | throw _ => exact Goes.refl w
  | newTrackable => exact Trackable.construct_goes
  | moveTrackable src =>
    exact (Executes.of_ends (Trackable.moveConstruct_ends hu hT hw calm wellFormed)).drop
  | assignTrackable dst src =>
    rw [Cmd.wellFormed, Bool.and_eq_true] at wellFormed
    exact .of_ends (Trackable.assign_ends hu hT hw calm wellFormed.1)
  | moveAssignTrackable dst src =>
    rw [Cmd.wellFormed, Bool.and_eq_true] at wellFormed
    exact .of_ends (Trackable.moveAssign_ends hu hT hw calm wellFormed.1 wellFormed.2)
  | notifyCallbacks t =>
    exact .of_ends ((Trackable.notifyClient_ends hu hT hw calm
      (Trackable.lt_of_hasTrackable hw wellFormed)
      (Trackable.client_of_hasTrackable wellFormed) (.refl w)).mono fun _ _ h => h.1)
  | destroyTrackable t => exact .of_ends (Trackable.destroy_ends hu hT hw calm wellFormed)
  | newSlot =>
    refine (Executes.of_step (SlotBase.new_straight _) fun s w' run => ?_).drop
    have hcons : SlotBase.construct .client { functor := none, blocked := false } w = (.ret s, w') :=
      run
    refine ⟨.slot (.construct (by simp) (by simp) hcons), ?_⟩
    obtain ⟨-, rfl⟩ := SlotBase.new_effect run
    rfl
  | makeSlot f => exact (Executes.of_ends (SlotBase.fromFunctor_ends hT hw wellFormed)).drop
  | copySlot src =>
    exact (Executes.of_ends (SlotBase.copyConstruct_ends hT hw (by simp))).drop
  | moveSlot src =>
    exact (Executes.of_ends (SlotBase.moveConstruct_ends hT hw calm
      (World.not_listed_of_hasSlot wellFormed)
      (by simp))).drop
  | assignSlot dst src =>
    rw [Cmd.wellFormed, Bool.and_eq_true] at wellFormed
    exact .of_ends (SlotBase.assign_ends hu hT hc hw calm (World.not_listed_of_hasSlot wellFormed.1))
  | moveAssignSlot dst src =>
    rw [Cmd.wellFormed, Bool.and_eq_true] at wellFormed
    exact .of_ends (SlotBase.moveAssign_ends hu hT hc hw calm
      (World.not_listed_of_hasSlot wellFormed.1)
      (World.not_listed_of_hasSlot wellFormed.2))
  | blockSlot s b => exact .of_ends SlotBase.block_ends
  | disconnectSlot s =>
    exact .of_ends ((SlotBase.disconnect_ends hu hc hw fun _ _ _ _ => .inl calm).mono fun _ _ h => h.1)
  | callSlot s => exact (SlotBase.call_executes hu hw calm).drop
  | destroySlot s =>
    exact .of_ends ((SlotBase.destroy_ends hu hw calm (World.not_listed_of_hasSlot
      (World.hasSlot_of_own wellFormed))).mono fun _ _ h => h.1)
  | newSignal => exact Goes.of_step (.signal (.new w)) rfl
  | copySignal src =>
    refine (Executes.of_step (SignalBase.copyConstruct_straight src) fun h w' run =>
      ⟨.signal (.copyConstruct wellFormed run), ?_⟩).drop
    obtain ⟨i, w₁, himpl, -, rfl⟩ := SignalBase.copyConstruct_effect run
    obtain ⟨-, rfl⟩ | ⟨-, -, rfl⟩ := SignalBase.impl_effect himpl <;> rfl
  | moveSignal src =>
    refine (Executes.of_step (SignalBase.moveConstruct_straight src) fun h w' run =>
      ⟨.signal (.moveConstruct run), ?_⟩).drop
    obtain ⟨-, rfl⟩ := SignalBase.moveConstruct_effect run
    rfl
  | assignSignal dst src =>
    rw [Cmd.wellFormed, Bool.and_eq_true] at wellFormed
    exact .of_ends (SignalBase.assign_ends hu hw calm (World.hasHandle_iff.mp wellFormed.2))
  | moveAssignSignal dst src => exact .of_ends (SignalBase.moveAssign_ends hu hw calm)
  | connect h src first move =>
    rw [Cmd.wellFormed, Bool.and_eq_true] at wellFormed
    exact (Executes.of_ends (SignalBase.connect_ends hT hw user wellFormed.1 wellFormed.2)).drop
  | emit h path =>
    exact SignalEmit.emit_ends hu hT hw calm fun i hi => World.owned_of_implOf hi
  | clear h => exact .of_ends (SignalBase.clear_ends hu hT hw calm)
  | blockSignal h b => exact .of_ends SignalBase.block_ends
  | destroySignal h => exact .of_ends (SignalBase.destroy_ends hu hw calm)
  | newConnection =>
    exact (Executes.of_ends (WeakRawPtr.construct_ends user (by simp [World.Source]))).drop
  | connectionOf s =>
    have hs := Steps.single (.weak (.refer (w := w) s))
    have user₁ : (w.record (.referenced s ((w.slots s).any (·.rep.isSome)))).UserPoint := user
    exact .of_ends (.modify (((WeakRawPtr.construct_ends user₁ (World.source_refer s)).after hs).bind
      fun _ _ h => ⟨hs.trans h.1, h.2⟩))
  | copyConnection src =>
    exact .of_ends (.load rfl fun self hself => (WeakRawPtr.construct_ends user fun s _ =>
      .inr (.inr ⟨src, self, hself, rfl⟩)).bind fun _ _ h => h)
  | assignConnection dst src =>
    rw [Cmd.wellFormed, Bool.and_eq_true] at wellFormed
    obtain ⟨self, hself, hn⟩ := World.connection_of_hasConnection wellFormed.1
    refine Executes.of_step (WeakRawPtr.assign_straight dst src) fun _ w' run =>
      ⟨.weak (.assign user ⟨hself, hn⟩ run), ?_⟩
    obtain ⟨_, _, _, _, _, -, -, rfl, -⟩ := WeakRawPtr.assign_effect run
    rfl
  | block c b => exact .of_ends Connection.block_ends
  | disconnect c => exact .of_ends (Connection.disconnect_ends hu hT hw calm)
  | destroyConnection c =>
    obtain ⟨self, hself, hn⟩ := World.connection_of_hasConnection wellFormed
    refine Executes.of_step (WeakRawPtr.destroy_straight c) fun _ w' run =>
      ⟨.weak (.destroy user ⟨hself, hn⟩ run), ?_⟩
    obtain ⟨_, _, -, rfl, -⟩ := WeakRawPtr.destroy_effect run
    rfl

/-! ## Client code -/

theorem nextCmd_ends (hs : Steps w₀ w) (user : w.UserPoint) :
    Ends T w₀ nextCmd w fun c w' => c.wellFormed w = true ∧ Steps w₀ w' ∧
      ∃ cs, w' = { w with script := cs } := by
  refine .read ?_
  cases hscript : w.script with
  | nil => exact ⟨hs, user⟩
  | cons c cs =>
    refine .read ?_
    split
    · rename_i hwf
      exact ⟨hwf, hs.tail (.command hscript hwf), cs, rfl⟩
    · exact ⟨hs, user⟩

theorem Cmd.wellFormed_script {c : Cmd V} (cs : List (Cmd V)) :
    c.wellFormed ({ w with script := cs } : World V) = c.wellFormed w := by
  cases c <;> rfl

theorem clientCode_ends [Inhabited V] (hu : u.Spec T) (hT : ∀ w, T w) {noexcept : Bool}
    (hw : Sound w) (user : w.UserPoint) :
    wp (clientCode u noexcept) (fun _ => Goes w) (fun _ w' => noexcept = false ∧ Goes w w')
      (Halts T w) w := by
  unfold clientCode
  rw [wp_bind]
  refine wp_mono (nextCmd_ends .refl user) (fun c w₁ h₁ => ?_) (fun _ _ => False.elim) fun _ _ => id
  obtain ⟨hwf, hs₁, cs, rfl⟩ := h₁
  have hgo : Goes w { w with script := cs } := ⟨hs₁, rfl⟩
  have hw₁ := hgo.sound hw
  have user₁ : World.UserPoint { w with script := cs } := user.of_frames rfl
  rw [← Cmd.wellFormed_script cs] at hwf
  split
  · exact hgo
  · split
    · exact wp_fault.mpr (.unwatched rfl)
    · rename_i hn
      exact ⟨by simpa using hn, hgo⟩
  · -- the command is executed, and client code is in control again, also after an exception
    have hexec : wp (recover (exec u c) fun _ => pure ()) (fun _ => Goes w) (fun _ _ => False)
        (Halts T w) { w with script := cs } := by
      rw [wp_recover]
      exact wp_mono (exec_executes hu hT hw₁ user₁ hwf) (fun _ _ => hgo.trans) (fun _ _ => hgo.trans)
        fun _ _ => Halts.after hs₁
    rw [wp_bind]
    refine wp_mono hexec (fun _ w₂ h₂ => ?_) (fun _ _ => False.elim) fun _ _ => id
    refine wp_mono (hu.client w₂ noexcept (h₂.sound hw) (user.of_frames h₂.2))
      (fun _ _ => h₂.trans) (fun _ _ h₃ => ⟨h₃.1, h₂.trans h₃.2⟩) fun _ _ => Halts.after h₂.1

/-- Client code in a destructor lets no exception out. -/
theorem Env.Spec.noexcept (hu : u.Spec T) (hw : Sound w) (user : w.UserPoint) :
    Ends T w (u.call (.client true)) w fun _ => Goes w :=
  wp_mono (hu.client w true hw user) (fun _ _ => id) (fun _ _ h => by cases h.1) fun _ _ => id

theorem functorDtorLoop_ends (hu : u.Spec T) {r : Addr} {below : List (Frame V)}
    (hw : Sound w₀) (f : Functor) :
    ∀ {w}, Steps w₀ w → w.frames = .functorDtor r f :: below →
      Ends T w₀ (functorDtorLoop u r f) w fun _ w' =>
        Steps w₀ w' ∧ w'.frames = .functorDtor r [] :: below := by
  -- on the targets still to be destroyed, which the frame on top lists
  induction f with
  | nil =>
    intro w hs top
    refine Ends.call hs (hu.noexcept (hs.proceeds hw).sound (.inr (.inr ⟨r, [], below, top⟩)))
      fun _ w' h => ⟨hs.trans h.1, h.2.trans top⟩
  | cons t ts ih =>
    intro w hs top
    cases t with
    | trackable t =>
      exact .modify (ih (hs.tail (.slot (.nextTarget top))) (World.setTop_frames top))
    | slot s =>
      have hadv := hs.proceeds hw
      refine Ends.call hs (hu.noexcept hadv.sound (.inr (.inr ⟨r, _, below, top⟩)))
        fun _ w₁ h₁ => .modify ?_
      have hs₁ := hs.trans h₁.1
      have top₁ := h₁.2.trans top
      have hs₂ := hs₁.tail (.slot (.nextTarget top₁))
      have hun : ¬(w₁.setTop (.functorDtor r ts)).Listed s := by
        rintro ⟨sl, i, hsl, ho⟩
        have hok := ((hs₁.proceeds hw).sound.top top₁).2.2
        obtain ⟨a, -, -, howner⟩ := hok.slot s List.mem_cons_self
        rw [howner sl hsl] at ho
        cases ho
      refine Ends.call hs₂ (SlotBase.destroy_ends hu (hs₂.proceeds hw).sound (.of_top
        (World.setTop_frames top₁) rfl) hun) fun _ w₂ h₂ => ?_
      exact ih (hs₂.trans h₂.1.1) (h₂.1.2.trans (World.setTop_frames top₁))

/-! ## Runs -/

/-- Whatever a call through a pointer does, it does step by step. -/
theorem dispatch_spec [Inhabited V] (hT : ∀ w, T w) (n : Nat) :
    Env.Spec (V := V) T { call := dispatch n, fuel := n } := by
  -- on the depth of calls: with one less, whatever is called meets the same specification
  induction n with
  | zero => exact
    { client := fun w _ _ _ => hT w
      handler := fun w _ _ _ _ _ _ => hT w
      notify := fun w _ _ _ => hT w
      functorDtor := fun w _ _ _ _ _ _ _ => hT w
      dispose := fun w _ _ _ _ _ => hT w }
  | succ n ih =>
    refine ⟨fun w b hw user => ?_, fun w r rep hw calm alive call => ?_, fun w r hw calm => ?_,
      fun w r f hw calm hr gutted functor => ?_, fun w i below hw top unowned => ?_⟩
    · exact clientCode_ends ih hT hw user
    · have hs : Steps w ((w.record (.invoked r)).push (.handler r)) :=
        .single (.slot (.pushHandler calm alive call))
      have hw₁ := (hs.proceeds hw).sound
      have hpop : ∀ w', Goes ((w.record (.invoked r)).push (.handler r)) w' → Goes w w'.pop :=
        fun w' h => by
          have top : w'.frames = .handler r :: w.frames := h.2
          exact ⟨(hs.trans h.1).tail (.slot (.popHandler top)), by simp [World.pop, top]⟩
      change wp (Prog.modify _ >>= fun _ => onExit _ _) _ _ _ w
      rw [wp_bind, wp_modify, wp_onExit]
      refine wp_mono (ih.client _ false hw₁ (.inr (.inl ⟨r, _, rfl⟩))) (fun _ => hpop)
        (fun _ w' h => hpop w' h.2) fun _ _ => Halts.after hs
    · exact (SlotRep.notifySlotRepInvalidated_ends ih
        (SignalImpl.notifySelfAndIterOfInvalidatedSlot_severs ih hT) hw calm).bind fun _ _ h => h
    · have hs : Steps w (w.push (.functorDtor r f)) :=
        .single (.slot (.pushFunctorDtor calm hr functor gutted))
      refine .modify ((functorDtorLoop_ends ih hw f hs rfl).bind fun _ w₁ h₁ => .modify ?_)
      exact ⟨h₁.1.tail (.slot (.popFunctorDtor h₁.2)), by simp [World.pop, h₁.2]⟩
    · exact (SignalImpl.destroy_ends ih hT hw top unowned).bind fun _ _ h => h

theorem run_spec [Inhabited V] (fuel : Nat) (script : List (Cmd V)) :
    wp (dispatch fuel (.client false)) (fun _ => Goes { script })
      (fun _ w => false = false ∧ Goes { script } w) (Halts (fun _ => True) { script })
        ({ script } : World V) :=
  (dispatch_spec (fun _ => trivial) fuel).client _ false (.initial script) (.inl rfl)

/-- Every world at which client code has control is reached step by step. -/
theorem Reachable.steps [Inhabited V] (h : Reachable w) :
    ∃ script, Steps ({ script } : World V) w ∧ w.UserPoint := by
  obtain ⟨fuel, script, o, hrun, hstop⟩ := h
  refine ⟨script, ?_⟩
  have hspec := run_spec (V := V) fuel script
  unfold run at hrun
  rw [wp, hrun] at hspec
  cases o with
  | ret v => exact ⟨hspec.1, .inl hspec.2⟩
  | throw e => exact ⟨hspec.2.1, .inl hspec.2.2⟩
  | halt h =>
    obtain rfl := hstop h rfl
    exact hspec

end Sigc
