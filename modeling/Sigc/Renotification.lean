import Sigc.CallbackWalk
import Sigc.Dependence

/-!
# Callbacks that turn on their trackable

`notify_callbacks()` of a trackable, whose callbacks may do anything to the trackable itself.  The
pointer to the list of callbacks is reset after the list has been deleted, so a callback that
destroys the trackable, or notifies it again, has the list deleted for the second time.
-/

namespace Sigc

open Reasoning Prog

/-- What a callback can do to the trackable. -/
inductive Reaction where
  | add (data : Addr) (func : DestroyNotify)
  | remove (data : Addr)
  /-- `notify_callbacks()`: by itself, or in an assignment to the trackable, or in a move of it -/
  | notify
  /-- `~trackable()` -/
  | destroy
  deriving DecidableEq

def Reaction.quiet : Reaction → Bool
  | add _ _ | remove _ => true
  | notify | destroy => false

/-- A trackable in the middle of a notification, or what is left of it. -/
structure Notification where
  trackable : Option Trackable
  /-- the calls of callbacks, and of `remove_callback()` -/
  history : List CallbackEvent
  /-- how often the destructor of the list has begun -/
  deletions : Nat := 0
  /-- the writes to the trackable after its end -/
  deadWrites : Nat := 0

namespace Notification

section Functions

-- what a callback does, after all that has happened before
variable (behaviour : List CallbackEvent → List Reaction)

abbrev Run := Prog Notification Nat Halt

def loadTrackable : Run Trackable := deref (.fault .deadTrackable) (·.trackable)

def loadCallbackList : Run TrackableCallbackList :=
  deref (.fault .deadCallbackList) fun c => c.trackable.bind (·.callbackList)

def react (notifyCallbacks : Run Unit) : Reaction → Run Unit
  | .add data func => do
    let tr ← loadTrackable
    modify fun c => { c with trackable := some (tr.addCallback data func) }
  | .remove data => do
    let tr ← loadTrackable
    modify fun c => { c with
      trackable := some (tr.removeCallback data)
      history := c.history ++ [.request (.remove data)] }
  | .notify => notifyCallbacks
  | .destroy => do
    notifyCallbacks
    modify fun c => { c with trackable := none }

def reactAll (notifyCallbacks : Run Unit) : List Reaction → Run Unit
  | [] => pure ()
  | r :: rs => do
    react notifyCallbacks r
    reactAll notifyCallbacks rs

/-- `if (callback.func_) callback.func_(callback.data_)`. -/
def runCallback (notifyCallbacks : Run Unit) (pos : Nat) (callback : TrackableCallback) :
    Run Unit :=
  if callback.func = none then pure ()
  else do
    modify fun c => { c with history := c.history ++ [.run pos callback] }
    let history ← read (·.history)
    reactAll notifyCallbacks (behaviour history)

/-- The loop of `~trackable_callback_list()`. -/
def callbackLoop (notifyCallbacks : Run Unit) : Nat → Nat → Run Unit
  | 0, _ => halt .fuel
  | n + 1, pos => do
    let l ← loadCallbackList
    match l.callbacks[pos]? with
    | none => pure ()
    | some callback => do
      runCallback behaviour notifyCallbacks pos callback
      callbackLoop notifyCallbacks n (pos + 1)

/-- `callback_list_ = nullptr`. -/
def reset : Run Unit :=
  modify fun c => match c.trackable with
    | some tr => { c with trackable := some { tr with callbackList := none } }
    | none => { c with deadWrites := c.deadWrites + 1 }

/-- `~trackable_callback_list()`. -/
def destroyCallbackList (notifyCallbacks : Run Unit) (tr : Trackable)
    (l : TrackableCallbackList) : Run Unit := do
  modify fun c => { c with
    trackable := some { tr with callbackList := some { l with clearing := true } } }
  callbackLoop behaviour notifyCallbacks (l.callbacks.length + 1) 0

/-- `delete callback_list_`.  To delete a list whose destructor is running is undefined. -/
def deleteCallbackList (notifyCallbacks : Run Unit) (tr : Trackable) : Run Unit :=
  match tr.callbackList with
  | none => pure ()
  | some l => do
    modify fun c => { c with deletions := c.deletions + 1 }
    if l.clearing then halt (.fault .deadCallbackList)
    else destroyCallbackList behaviour notifyCallbacks tr l

/-- `notify_callbacks()`, to this depth of notifications inside of notifications. -/
def notifyCallbacks : Nat → Run Unit
  | 0 => halt .fuel
  | n + 1 => do
    let tr ← loadTrackable
    deleteCallbackList behaviour (notifyCallbacks n) tr
    reset

/-! ## Specification -/

/-- The notification of a trackable whose list has been built by these calls. -/
def begin (calls : List ListCall) : Notification where
  trackable := some { callbackList := some (CallbackWalk.registered calls).list }
  history := (CallbackWalk.registered calls).history

structure Tolerated (r : Outcome Nat Halt Unit × Notification) : Prop where
  returns : r.1 = .ret ()
  deleted : r.2.deletions = 1
  /-- no callback of the list has been called twice -/
  once : ((CallbackWalk.runs r.2.history).map (·.1)).Nodup
  alive : r.2.deadWrites = 0

def removals (reactions : List Reaction) : List Addr :=
  reactions.filterMap fun r => match r with
    | .remove data => some data
    | _ => none

/-- What is done by the callbacks that are called in this part of a history. -/
def askedAfter (history : List CallbackEvent) : List CallbackEvent → List Reaction
  | [] => []
  | .run pos callback :: events =>
    behaviour (history ++ [.run pos callback]) ++
      askedAfter (history ++ [.run pos callback]) events
  | .request call :: events => askedAfter (history ++ [.request call]) events

def asked (history : List CallbackEvent) : List Reaction := askedAfter behaviour [] history

end Functions

/-! ## What has been asked -/

variable {behaviour : List CallbackEvent → List Reaction} {history history' : List CallbackEvent}

theorem askedAfter_append (events events' : List CallbackEvent) :
    ∀ history, askedAfter behaviour history (events ++ events') =
      askedAfter behaviour history events ++
        askedAfter behaviour (history ++ events) events' := by
  induction events with
  | nil =>
    intro history
    rw [List.append_nil]
    rfl
  | cons e events ih =>
    intro history
    cases e with
    | run pos callback =>
      show _ ++ askedAfter behaviour _ (events ++ events') = _ ++ _ ++ _
      rw [ih, List.append_assoc, List.append_assoc]
      rfl
    | request call =>
      show askedAfter behaviour _ (events ++ events') = _
      rw [ih, List.append_assoc]
      rfl

theorem asked_run (pos : Nat) (callback : TrackableCallback) :
    asked behaviour (history ++ [.run pos callback]) =
      asked behaviour history ++ behaviour (history ++ [.run pos callback]) := by
  unfold asked
  rw [askedAfter_append]
  show _ ++ (_ ++ []) = _
  rw [List.append_nil]
  rfl

theorem asked_request (call : ListCall) :
    asked behaviour (history ++ [.request call]) = asked behaviour history := by
  unfold asked
  rw [askedAfter_append]
  exact List.append_nil _

theorem asked_mono (h : history <+: history') :
    asked behaviour history ⊆ asked behaviour history' := by
  obtain ⟨events, rfl⟩ := h
  unfold asked
  rw [askedAfter_append]
  exact List.subset_append_left _ _

theorem asked_requests (ds : List Addr) : ∀ s : CallbackWalk,
    asked behaviour (s.requests (ds.map .remove)).history = asked behaviour s.history := by
  induction ds with
  | nil =>
    intro s
    rfl
  | cons d ds ih =>
    intro s
    show asked behaviour ((s.request (.remove d)).requests _).history = _
    rw [ih]
    exact asked_request _

end Notification

namespace CallbackWalk

theorem history_requests (ds : List Addr) : ∀ s : CallbackWalk,
    s.history <+: (s.requests (ds.map .remove)).history := by
  induction ds with
  | nil =>
    intro s
    exact List.prefix_refl _
  | cons d ds ih =>
    intro s
    exact (List.prefix_append _ _).trans (ih (s.request (.remove d)))

theorem clearing_requests (ds : List Addr) : ∀ s : CallbackWalk,
    (s.requests (ds.map .remove)).list.clearing = s.list.clearing := by
  induction ds with
  | nil =>
    intro s
    rfl
  | cons d ds ih =>
    intro s
    exact ih (s.request (.remove d))

variable (behaviour : List CallbackEvent → List Addr)

theorem history_runAt (pos : Nat) (callback : TrackableCallback) (s : CallbackWalk) :
    s.history <+: (s.runAt behaviour pos callback).history := by
  unfold runAt
  split
  · exact List.prefix_refl _
  · exact (List.prefix_append _ _).trans (history_requests _ { s with history := s.history ++ _ })

theorem history_run {callback : TrackableCallback} (hf : callback.func ≠ none) (pos : Nat)
    (s : CallbackWalk) :
    s.history ++ [.run pos callback] <+: (s.runAt behaviour pos callback).history := by
  unfold runAt
  rw [if_neg hf]
  exact history_requests _ { s with history := s.history ++ _ }

theorem clearing_runAt (pos : Nat) (callback : TrackableCallback) (s : CallbackWalk) :
    (s.runAt behaviour pos callback).list.clearing = s.list.clearing := by
  unfold runAt
  split
  · rfl
  · exact clearing_requests _ { s with history := s.history ++ _ }

theorem history_loop : ∀ (n : Nat) {pos : Nat} {s s' : CallbackWalk},
    loop behaviour n pos s = some s' → s.history <+: s'.history := by
  intro n
  induction n with
  | zero =>
    intro pos s s' h
    cases h
  | succ n ih =>
    intro pos s s' h
    unfold loop at h
    split at h
    · obtain rfl := Option.some.inj h
      exact List.prefix_refl _
    · exact (history_runAt _ _ _ s).trans (ih h)

end CallbackWalk

namespace Notification

/-! ## Simulation -/

variable {behaviour : List CallbackEvent → List Reaction} {s s' : CallbackWalk}

/-- The notification whose list is being walked through as in `s`. -/
def walking (s : CallbackWalk) : Notification where
  trackable := some { callbackList := some s.list }
  history := s.history
  deletions := 1

/-- The removals among the reactions, as the behaviour of the callbacks of a list. -/
abbrev removing (behaviour : List CallbackEvent → List Reaction) (history : List CallbackEvent) :
    List Addr :=
  removals (behaviour history)

theorem loadTrackable_walking (s : CallbackWalk) :
    loadTrackable (walking s) = (.ret { callbackList := some s.list }, walking s) := rfl

theorem notifyCallbacks_again (hs : s.list.clearing = true) (n : Nat) :
    notifyCallbacks behaviour (n + 1) (walking s) =
      (.halt (.fault .deadCallbackList), { walking s with deletions := 2 }) := by
  rw [notifyCallbacks, bind_of_ret (loadTrackable_walking s)]
  apply bind_of_halt
  show (ite (s.list.clearing = true) _ _ : Run Unit) _ = _
  rw [if_pos hs]
  rfl

theorem addCallback_clearing {l : TrackableCallbackList} (hl : l.clearing = true) (data : Addr)
    (func : DestroyNotify) : l.addCallback data func = l := by
  rw [TrackableCallbackList.addCallback, if_pos hl]

theorem react_quiet (notify : Run Unit) (hs : s.list.clearing = true) :
    ∀ {r : Reaction}, r.quiet = true →
      react notify r (walking s) = (.ret (), walking (s.requests ((removals [r]).map .remove))) := by
  intro r hr
  cases r with
  | add data func =>
    rw [react, bind_of_ret (loadTrackable_walking s)]
    show (Outcome.ret (), { walking s with
      trackable := some { callbackList := some (s.list.addCallback data func) } }) = _
    rw [addCallback_clearing hs]
    rfl
  | remove data => rfl
  | notify => cases hr
  | destroy => cases hr

theorem react_loud {notify : Run Unit} {c c' : Notification} {k : Halt}
    (hnotify : notify c = (.halt k, c')) {r : Reaction} (hr : r.quiet = false) :
    react notify r c = (.halt k, c') := by
  cases r with
  | add data func => cases hr
  | remove data => cases hr
  | notify => exact hnotify
  | destroy =>
    unfold react
    exact bind_of_halt hnotify

theorem requests_append (s : CallbackWalk) (calls calls' : List ListCall) :
    s.requests (calls ++ calls') = (s.requests calls).requests calls' := by
  unfold CallbackWalk.requests
  rw [List.foldl_append]

theorem removals_cons (r : Reaction) (rs : List Reaction) :
    removals (r :: rs) = removals [r] ++ removals rs := by
  show removals ([r] ++ rs) = _
  exact List.filterMap_append

theorem reactAll_quiet {notify : Run Unit} (rs : List Reaction) :
    ∀ {s : CallbackWalk}, s.list.clearing = true → (∀ r ∈ rs, r.quiet = true) →
      reactAll notify rs (walking s) =
        (.ret (), walking (s.requests ((removals rs).map .remove))) := by
  induction rs with
  | nil =>
    intro s _ _
    rfl
  | cons r rs ih =>
    intro s hs hquiet
    have hfirst := react_quiet notify hs (hquiet r List.mem_cons_self)
    have hrest : ∀ x ∈ rs, x.quiet = true := fun x hx => hquiet x (List.mem_cons_of_mem r hx)
    have hclearing := CallbackWalk.clearing_requests (removals [r]) s
    rw [reactAll, bind_of_ret hfirst, ih (hclearing.trans hs) hrest, removals_cons r rs,
      List.map_append, requests_append]

theorem reactAll_loud (n : Nat) (rs : List Reaction) :
    ∀ {s : CallbackWalk}, s.list.clearing = true → ¬(∀ r ∈ rs, r.quiet = true) →
      ∃ c : Notification, c.deletions = 2 ∧
        reactAll (notifyCallbacks behaviour (n + 1)) rs (walking s) =
          (.halt (.fault .deadCallbackList), c) := by
  induction rs with
  | nil =>
    intro s _ hloud
    exact absurd (by simp) hloud
  | cons r rs ih =>
    intro s hs hloud
    cases hr : r.quiet with
    | true =>
      have hfirst := react_quiet (notifyCallbacks behaviour (n + 1)) hs hr
      have hclearing := CallbackWalk.clearing_requests (removals [r]) s
      have hrest : ¬∀ x ∈ rs, x.quiet = true := by
        intro hrest
        apply hloud
        intro x hx
        cases List.mem_cons.mp hx with
        | inl heq => rw [heq, hr]
        | inr hx => exact hrest x hx
      obtain ⟨c, hc, hrun⟩ := ih (hclearing.trans hs) hrest
      refine ⟨c, hc, ?_⟩
      rw [reactAll, bind_of_ret hfirst, hrun]
    | false =>
      refine ⟨{ walking s with deletions := 2 }, rfl, ?_⟩
      exact bind_of_halt (react_loud (notifyCallbacks_again hs n) hr)

/-! ## The loop -/

theorem runCallback_quiet {notify : Run Unit} {pos : Nat} {cb : TrackableCallback}
    (hs : s.list.clearing = true)
    (hquiet : cb.func ≠ none → ∀ r ∈ behaviour (s.history ++ [.run pos cb]), r.quiet = true) :
    runCallback behaviour notify pos cb (walking s) =
      (.ret (), walking (s.runAt (removing behaviour) pos cb)) := by
  unfold runCallback CallbackWalk.runAt
  split
  · rfl
  · rename_i hf
    exact reactAll_quiet (s := { s with history := s.history ++ [.run pos cb] }) _ hs (hquiet hf)

theorem runCallback_loud {n pos : Nat} {cb : TrackableCallback} (hs : s.list.clearing = true)
    (hf : cb.func ≠ none)
    (hloud : ¬∀ r ∈ behaviour (s.history ++ [.run pos cb]), r.quiet = true) :
    ∃ c : Notification, c.deletions = 2 ∧
      runCallback behaviour (notifyCallbacks behaviour (n + 1)) pos cb (walking s) =
        (.halt (.fault .deadCallbackList), c) := by
  unfold runCallback
  rw [if_neg hf]
  exact reactAll_loud (s := { s with history := s.history ++ [.run pos cb] }) n _ hs hloud

theorem loadCallbackList_walking (s : CallbackWalk) :
    loadCallbackList (walking s) = (.ret s.list, walking s) := rfl

/-- As long as the callbacks do nothing but add and remove, the loop is that of the list. -/
theorem callbackLoop_quiet {notify : Run Unit} : ∀ (n : Nat) {pos : Nat} {s s' : CallbackWalk},
    s.list.clearing = true → CallbackWalk.loop (removing behaviour) n pos s = some s' →
      (∀ r ∈ asked behaviour s'.history, r.quiet = true) →
        callbackLoop behaviour notify n pos (walking s) = (.ret (), walking s') := by
  intro n
  -- on the rounds left: nothing that has been asked for so far is loud, and nothing will be
  induction n with
  | zero =>
    intro pos s s' _ h
    cases h
  | succ n ih =>
    intro pos s s' hs h hquiet
    rw [callbackLoop, bind_of_ret (loadCallbackList_walking s)]
    unfold CallbackWalk.loop at h
    cases hcb : s.list.callbacks[pos]? with
    | none =>
      simp only [hcb] at h
      obtain rfl := Option.some.inj h
      rfl
    | some cb =>
      simp only [hcb] at h
      have hclearing := CallbackWalk.clearing_runAt (removing behaviour) pos cb s
      have hrun : runCallback behaviour notify pos cb (walking s) =
          (.ret (), walking (s.runAt (removing behaviour) pos cb)) := by
        apply runCallback_quiet hs
        intro hf r hr
        have hprefix := (CallbackWalk.history_run (removing behaviour) hf pos s).trans
          (CallbackWalk.history_loop _ n h)
        apply hquiet r (asked_mono hprefix _)
        rw [asked_run]
        exact List.mem_append_right _ hr
      show (runCallback behaviour notify pos cb >>= _) _ = _
      rw [bind_of_ret hrun, ih (hclearing.trans hs) h hquiet]

/-- The first callback that does something else has the list deleted again. -/
theorem callbackLoop_loud (depth : Nat) : ∀ (n : Nat) {pos : Nat} {s s' : CallbackWalk},
    s.list.clearing = true → CallbackWalk.loop (removing behaviour) n pos s = some s' →
      (∀ r ∈ asked behaviour s.history, r.quiet = true) →
      (¬∀ r ∈ asked behaviour s'.history, r.quiet = true) →
        ∃ c : Notification, c.deletions = 2 ∧
          callbackLoop behaviour (notifyCallbacks behaviour (depth + 1)) n pos (walking s) =
            (.halt (.fault .deadCallbackList), c) := by
  intro n
  -- on the rounds left: the request that is loud is made in this round, or in a later one
  induction n with
  | zero =>
    intro pos s s' _ h
    cases h
  | succ n ih =>
    intro pos s s' hs h hbefore hloud
    rw [callbackLoop, bind_of_ret (loadCallbackList_walking s)]
    unfold CallbackWalk.loop at h
    cases hcb : s.list.callbacks[pos]? with
    | none =>
      simp only [hcb] at h
      obtain rfl := Option.some.inj h
      exact absurd hbefore hloud
    | some cb =>
      simp only [hcb] at h
      show ∃ c : Notification, _ ∧ (runCallback behaviour _ pos cb >>= _) _ = _
      by_cases hcallback : cb.func ≠ none →
          ∀ r ∈ behaviour (s.history ++ [.run pos cb]), r.quiet = true
      · have hclearing := CallbackWalk.clearing_runAt (removing behaviour) pos cb s
        have hasked : ∀ r ∈ asked behaviour (s.runAt (removing behaviour) pos cb).history,
            r.quiet = true := by
          unfold CallbackWalk.runAt
          split
          · exact hbefore
          · rename_i hf
            rw [asked_requests, asked_run]
            intro r hr
            cases List.mem_append.mp hr with
            | inl hold => exact hbefore r hold
            | inr hnew => exact hcallback hf r hnew
        obtain ⟨c, hc, hrest⟩ := ih (hclearing.trans hs) h hasked hloud
        refine ⟨c, hc, ?_⟩
        rw [bind_of_ret (runCallback_quiet hs hcallback), hrest]
      · have hf : cb.func ≠ none := fun hnull => hcallback fun hf => absurd hnull hf
        have hreacts : ¬∀ r ∈ behaviour (s.history ++ [.run pos cb]), r.quiet = true :=
          fun hall => hcallback fun _ => hall
        obtain ⟨c, hc, hrun⟩ := runCallback_loud (n := depth) hs hf hreacts
        exact ⟨c, hc, bind_of_halt hrun⟩

/-! ## Notifications -/

theorem asked_registered (calls : List ListCall) :
    asked behaviour (CallbackWalk.registered calls).history = [] := by
  induction calls using List.reverseRecOn with
  | nil => rfl
  | append_singleton calls c ih =>
    rw [CallbackWalk.registered_concat]
    cases c with
    | add data func => exact (asked_request _).trans ih
    | remove data => exact (asked_request _).trans ih

/-- The walk through the list that the destructor of the list begins. -/
def cleared (calls : List ListCall) : CallbackWalk :=
  let s := CallbackWalk.registered calls
  { s with list := { s.list with clearing := true } }

theorem notifyCallbacks_begin (depth : Nat) (calls : List ListCall) :
    notifyCallbacks behaviour (depth + 1) (begin calls) =
      (callbackLoop behaviour (notifyCallbacks behaviour depth)
        ((CallbackWalk.registered calls).list.callbacks.length + 1) 0 >>= fun _ => reset)
          (walking (cleared calls)) := by
  have hload : loadTrackable (begin calls) =
      (.ret { callbackList := some (CallbackWalk.registered calls).list }, begin calls) := rfl
  have hidle := (CallbackWalk.registers calls).clearing
  rw [notifyCallbacks, bind_of_ret hload]
  show ((Prog.modify _ >>= fun _ => (ite _ _ _ : Run Unit)) >>= fun _ => reset) _ = _
  rw [bind_assoc_run, modify_bind_run, if_neg (by simp [hidle])]
  show (((Prog.modify _ >>= fun _ => callbackLoop _ _ _ _) : Run Unit) >>= fun _ => reset) _ = _
  rw [bind_assoc_run]
  rfl

/-- A notification is tolerated just when no callback that the list calls notifies the trackable
again, or destroys it. -/
theorem tolerated_iff (calls : List ListCall) (behaviour : List CallbackEvent → List Reaction)
    (depth : Nat) :
    ∃ s, (∀ fuel, (CallbackWalk.registered calls).list.callbacks.length < fuel →
        CallbackWalk.destroy (removing behaviour) fuel (CallbackWalk.registered calls) = some s) ∧
      (Tolerated (notifyCallbacks behaviour (depth + 2) (begin calls)) ↔
        ∀ r ∈ asked behaviour s.history, r.quiet = true) := by
  have hregisters := CallbackWalk.registers calls
  obtain ⟨s, hloop, hs⟩ := CallbackWalk.Walking.loop (removing behaviour) hregisters.active
    (CallbackWalk.registered calls).list.callbacks.length (CallbackWalk.Walking.begin hregisters) rfl
    (Nat.zero_le _)
  have hwalk := hloop ((CallbackWalk.registered calls).list.callbacks.length + 1) (by omega)
  refine ⟨s, hloop, ?_⟩
  rw [notifyCallbacks_begin]
  constructor
  · intro h
    by_contra hloud
    have hbefore : ∀ r ∈ asked behaviour (cleared calls).history, r.quiet = true := by
      intro r hr
      change r ∈ asked behaviour (CallbackWalk.registered calls).history at hr
      rw [asked_registered] at hr
      cases hr
    obtain ⟨c, _, hrun⟩ := callbackLoop_loud depth _ (s := cleared calls) rfl hwalk hbefore hloud
    have hreturns := h.returns
    rw [bind_of_halt hrun] at hreturns
    cases hreturns
  · intro hquiet
    rw [bind_of_ret (callbackLoop_quiet _ (s := cleared calls) rfl hwalk hquiet)]
    constructor
    · rfl
    · rfl
    · apply List.pairwise_map.mpr
      apply hs.increasing.imp
      intro c c' hlt
      exact Nat.ne_of_lt hlt
    · rfl

/-- The functor of a slot owns the last reference to the trackable. -/
theorem destroyed_by_callback :
    ¬Tolerated (notifyCallbacks (fun _ => [.destroy]) 2 (begin [.add 1 .notifySlotRepInvalidated])) := by
  intro h
  exact absurd h.deleted (by decide)

end Notification

/-! ## Notifications in runs -/

section Runs

variable {V : Type} {w : World V} {t : Addr}

theorem Trackable.notifyCallbacks_again {u : Env V} {tr : Trackable} {l : TrackableCallbackList}
    (alive : w.trackables t = some tr) (list : tr.callbackList = some l)
    (clearing : l.clearing = true) :
    notifyCallbacks u t w = (.halt (.fault .deadCallbackList), w) := by
  have hload : loadTrackable t w = (.ret tr, w) := deref_eq_ret.mpr ⟨alive, rfl⟩
  unfold notifyCallbacks
  rw [bind_of_ret hload, read_bind_run]
  simp only [list, clearing]
  rfl

/-- As long as it is not undefined, a run notifies no trackable that is being notified already, and
those that are being notified are alive. -/
theorem Reachable.notified_once [Inhabited V] (h : Reachable w) :
    (w.frames.filterMap Frame.notified).Nodup ∧
      ∀ t pos deps, .notifying t pos deps ∈ w.frames →
        ∃ tr l, w.trackables t = some tr ∧ tr.callbackList = some l ∧ l.clearing = true := by
  obtain ⟨script, hsteps, _⟩ := h.steps
  have hregistered := hsteps.registered_initial
  constructor
  · have hsame : (loopsOf w.frames).filterMap Frame.notified =
        w.frames.filterMap Frame.notified := by
      unfold loopsOf
      rw [List.filterMap_filter]
      congr 1
      ext1 f
      cases f <;> rfl
    have honce := Registry.once hregistered
    rw [hsame] at honce
    exact honce
  · intro t pos deps hframe
    have hloop : .notifying t pos deps ∈ loopsOf w.frames := List.mem_filter.mpr ⟨hframe, rfl⟩
    obtain ⟨tr, l, htr, hl, hclearing, _⟩ := Registry.clearing hregistered t pos deps hloop
    exact ⟨tr, l, htr, hl, hclearing⟩

/-- The destructor of the functor destroys the trackable. -/
def ownedByFunctor : List (Cmd Unit) :=
  [.newTrackable, .makeSlot [.trackable 0], .notifyCallbacks 0, .destroyTrackable 0, .ret (), .ret ()]

example : (run 40 ownedByFunctor).1 matches .halt (.fault .deadCallbackList) := by
  decide +kernel

end Runs

end Sigc
