import Sigc.Linkage

/-!
# Weak pointers

A connection is a pointer that a callback on the rep of its slot resets.  Here is what that
guarantees: as long as every connection to a slot is built when the slot has a rep, and the slot is
given no other rep while the one it has is alive, the pointers to it are registered with its rep.
-/

namespace Sigc

open Reasoning Prog

variable {V : Type} {w w' : World V}

/-! ## Callbacks that are still to run -/

def callbacksOf (tks : Addr → Option Trackable) (t : Addr) : TrackableCallbackList :=
  ((tks t).map (·.callbacks)).getD {}

/-- The callback that the loop on top of the stack is at, if it is that of `t`. -/
def cursor (frames : List (Frame V)) (t : Addr) : Nat :=
  match frames with
  | .notifying t' pos _ :: _ => if t' = t then pos else 0
  | _ => 0

/-- The weak pointer `c` is going to be reset when `r` runs through its callbacks. -/
def Watches (tks : Addr → Option Trackable) (frames : List (Frame V)) (c r : Addr) : Prop :=
  ⟨c, some .notifyObjectInvalidated⟩ ∈ (callbacksOf tks r).callbacks.drop (cursor frames r)

/-- Every connection to `s` has been built when `s` had a rep, and `s` has been given no other rep
while the one it had was alive. -/
def Regular (log : List Event) (s : SlotAddr) : Prop :=
  .referenced s false ∉ log ∧ .replaced s true ∉ log

/-- A slot has the rep `r`, or an assignment is going to give it to one. -/
def Held (slots : SlotAddr → Option SlotBase) (frames : List (Frame V)) (r : Addr) : Prop :=
  (∃ s sl, slots s = some sl ∧ sl.rep = some r) ∨ ∃ dst, .assigning dst r ∈ frames

/-- No rep is running through its callbacks on top of the stack. -/
def Settled (reps : Addr → Option SlotRep) (frames : List (Frame V)) : Prop :=
  ∀ t pos deps below, frames = .notifying t pos deps :: below → reps t = none

structure Watching (weaks : Addr → Option WeakRawPtr) (tks : Addr → Option Trackable)
    (reps : Addr → Option SlotRep) (slots : SlotAddr → Option SlotBase) (frames : List (Frame V))
    (log : List Event) : Prop where
  /-- a rep runs through its callbacks on top of the stack only -/
  clearing : ∀ r rep, reps r = some rep → (callbacksOf tks r).clearing = true →
    ∃ pos deps below, frames = .notifying r pos deps :: below
  below : ∀ t pos deps, .notifying t pos deps ∈ frames.tail → reps t = none
  /-- a rep and its base are destroyed together -/
  based : ∀ r, Held slots frames r → reps r = none → tks r = none
  tracked : ∀ c self s, weaks c = some self → self.ptr = some (.slot s) → Regular log s →
    ∃ sl r, slots s = some sl ∧ sl.rep = some r ∧ Watches tks frames c r

def World.Watched (w : World V) : Prop :=
  Watching w.weaks w.trackables w.reps w.slots w.frames w.log

theorem Regular.of_subset {log log' : List Event} {s : SlotAddr} (h : Regular log' s)
    (hl : log ⊆ log') : Regular log s :=
  ⟨fun hm => h.1 (hl hm), fun hm => h.2 (hl hm)⟩

theorem World.Calm.settled (h : w.Calm) : Settled w.reps w.frames := by
  intro t pos deps below top
  rw [World.Calm, top] at h
  cases h

theorem Settled.of_top {reps : Addr → Option SlotRep} {frames below : List (Frame V)} {f : Frame V}
    (top : frames = f :: below) (hf : ∀ t pos deps, f ≠ .notifying t pos deps) :
    Settled reps frames := by
  intro t pos deps below' h
  rw [top] at h
  exact absurd (List.cons.inj h).1 (hf t pos deps)

theorem Settled.cursor {reps : Addr → Option SlotRep} {frames : List (Frame V)}
    (h : Settled reps frames) {r : Addr} {rep : SlotRep} (hr : reps r = some rep) :
    cursor frames r = 0 := by
  unfold Sigc.cursor
  split
  · rename_i t pos deps below
    split
    · rename_i ht
      rw [← ht, h t pos deps below rfl] at hr
      cases hr
    · rfl
  · rfl

theorem callbacksOf_of_eq_none {tks : Addr → Option Trackable} {t : Addr} (h : tks t = none) :
    callbacksOf tks t = {} := by
  simp [callbacksOf, h]

theorem callbacksOf_of_list_none {tks : Addr → Option Trackable} {t : Addr} {tr : Trackable}
    (h : tks t = some tr) (hl : tr.callbackList = none) : callbacksOf tks t = {} := by
  simp [callbacksOf, h, Trackable.callbacks, hl]

theorem callbacksOf_of_list {tks : Addr → Option Trackable} {t : Addr} {tr : Trackable}
    {l : TrackableCallbackList} (h : tks t = some tr) (hl : tr.callbackList = some l) :
    callbacksOf tks t = l := by
  simp [callbacksOf, h, Trackable.callbacks, hl]

theorem Watches.alive {tks : Addr → Option Trackable} {frames : List (Frame V)} {c r : Addr}
    (h : Watches tks frames c r) : ∃ tr l, tks r = some tr ∧ tr.callbackList = some l := by
  cases ht : tks r with
  | none => simp [Watches, callbacksOf_of_eq_none ht] at h
  | some tr =>
    cases hl : tr.callbackList with
    | none => simp [Watches, callbacksOf_of_list_none ht hl] at h
    | some l => exact ⟨tr, l, rfl, hl⟩

/-! ## Changes of a list of callbacks -/

/-- `remove_callback` for `c` leaves the active callbacks for other data. -/
theorem TrackableCallbackList.mem_removeFirst_of_mem {clearing : Bool} {c : Addr}
    {cb : TrackableCallback} (hc : cb.data ≠ c) {l : List TrackableCallback} (h : cb ∈ l) :
    cb ∈ removeFirst clearing c l := by
  induction l with
  | nil => cases h
  | cons x xs ih =>
    unfold removeFirst
    rcases List.mem_cons.mp h with rfl | hm
    · rw [if_neg fun hx => hc hx.1]
      exact List.mem_cons_self
    · split
      · split
        · exact List.mem_cons_of_mem _ hm
        · exact hm
      · exact List.mem_cons_of_mem x (ih hm)

theorem TrackableCallbackList.mem_addCallback {l : TrackableCallbackList} {c : Addr}
    {func : DestroyNotify} {cb : TrackableCallback} (h : cb ∈ l.callbacks) :
    cb ∈ (l.addCallback c func).callbacks := by
  unfold addCallback
  split
  · exact h
  · exact List.mem_append_left _ h

/-- What a change of the callbacks of `c` does to the lists: callbacks for others stay. -/
def Spares (c : Addr) (tr tr' : Trackable) : Prop :=
  tr'.callbacks.clearing = tr.callbacks.clearing ∧
    ∀ cb ∈ tr.callbacks.callbacks, cb.data ≠ c → cb ∈ tr'.callbacks.callbacks

theorem Changed.spares {g : Trackable → Trackable} {k : Addr → Nat} {c : Addr}
    {old new : Addr → Option Trackable} (h : Changed g k old new) (hg : ∀ tr, Spares c tr (g tr))
    (t : Addr) : (callbacksOf new t).clearing = (callbacksOf old t).clearing ∧
      ∀ cb ∈ (callbacksOf old t).callbacks, cb.data ≠ c → cb ∈ (callbacksOf new t).callbacks := by
  cases ht : new t with
  | none => simp [callbacksOf, (h.none_iff t).mp ht, ht]
  | some tr' =>
    obtain ⟨tr, htr, hs⟩ := h.preserves (P := Spares c) (fun _ => ⟨rfl, fun _ h _ => h⟩)
      (fun _ _ _ h h' => ⟨h'.1.trans h.1, fun cb hcb hc => h'.2 cb (h.2 cb hcb hc) hc⟩) hg ht
    simpa [callbacksOf, ht, htr, Spares] using hs

theorem Trackable.removeCallback_spares (c : Addr) (tr : Trackable) :
    Spares c tr (tr.removeCallback c) :=
  ⟨removeCallback_clearing, fun _ h hc => TrackableCallbackList.mem_removeFirst_of_mem hc h⟩

theorem Trackable.addCallback_spares (c : Addr) (func : DestroyNotify) (tr : Trackable) :
    Spares c tr (tr.addCallback c func) :=
  ⟨addCallback_clearing, fun _ h _ => TrackableCallbackList.mem_addCallback h⟩

/-- The callback has been added to a list that is not being cleared. -/
theorem Registered.mem {c t : Addr} {func : DestroyNotify} {k : Addr → Nat}
    {old new : Addr → Option Trackable} {ign ign' : List (Addr × Addr)}
    (h : Registered c func k old ign new ign') (hk : k t = 1)
    (idle : (callbacksOf old t).clearing = false) :
    ⟨c, some func⟩ ∈ (callbacksOf new t).callbacks := by
  obtain ⟨tr, htr⟩ := h.alive t (by omega)
  have hnew : new t = some (tr.addCallback c func) := by
    rw [h.changed t, htr, hk]
    rfl
  have hidle : tr.callbacks.clearing = false := by
    simpa [callbacksOf, htr] using idle
  simp [callbacksOf, hnew, Trackable.addCallback, Trackable.callbacks,
    TrackableCallbackList.addCallback] at hidle ⊢
  simp [hidle]

/-! ## What keeps the invariant -/

namespace Watching

variable {weaks : Addr → Option WeakRawPtr} {tks tks' : Addr → Option Trackable}
  {reps reps' : Addr → Option SlotRep} {slots slots' : SlotAddr → Option SlotBase}
  {frames below : List (Frame V)} {log log' : List Event} {f g : Frame V}

theorem setLog (h : Watching weaks tks reps slots frames log) (hl : log ⊆ log') :
    Watching weaks tks reps slots frames log' :=
  { h with tracked := fun c self s hc hs hr => h.tracked c self s hc hs (hr.of_subset hl) }

/-- A tracked slot has a rep that is alive. -/
theorem rep_of_watches (h : Watching weaks tks reps slots frames log) {s : SlotAddr} {sl : SlotBase}
    {c r : Addr} (hs : slots s = some sl) (hr : sl.rep = some r) (hw : Watches tks frames c r) :
    ∃ rep, reps r = some rep := by
  obtain ⟨tr, -, htr, -⟩ := hw.alive
  refine Option.ne_none_iff_exists'.mp fun hnone => ?_
  rw [h.based r (.inl ⟨s, sl, hs, hr⟩) hnone] at htr
  cases htr

theorem push (h : Watching weaks tks reps slots frames log) (settled : Settled reps frames)
    (hf : ∀ t pos deps, f ≠ .notifying t pos deps)
    (ha : ∀ dst r, f = .assigning dst r → reps r = none → tks r = none) :
    Watching weaks tks reps slots (f :: frames) log where
  clearing r rep hr hc := by
    obtain ⟨pos, deps, below, top⟩ := h.clearing r rep hr hc
    rw [settled r pos deps below top] at hr
    cases hr
  below t pos deps hm := by
    cases frames with
    | nil => cases hm
    | cons g rest =>
      rcases List.mem_cons.mp hm with rfl | hm
      · exact settled t pos deps rest rfl
      · exact h.below t pos deps hm
  based r hheld hr := by
    rcases hheld with hslot | ⟨dst, hm⟩
    · exact h.based r (.inl hslot) hr
    · rcases List.mem_cons.mp hm with rfl | hm
      · exact ha dst r rfl hr
      · exact h.based r (.inr ⟨dst, hm⟩) hr
  tracked c self s hc hs hr := by
    obtain ⟨sl, r, hsl, hrep, hw⟩ := h.tracked c self s hc hs hr
    refine ⟨sl, r, hsl, hrep, ?_⟩
    obtain ⟨rep, hr⟩ := h.rep_of_watches hsl hrep hw
    have hcur : cursor (f :: frames) r = 0 := by
      unfold cursor
      split
      · rename_i t pos deps _ heq
        exact absurd (List.cons.inj heq).1 (hf t pos deps)
      · rfl
    unfold Watches at hw ⊢
    rwa [hcur, ← settled.cursor hr]

theorem settled_below (h : Watching weaks tks reps slots frames log) (top : frames = f :: below) :
    Settled reps below := by
  intro t pos deps rest hrest
  exact h.below t pos deps (by rw [top, hrest]; exact List.mem_cons_self)

theorem pop (h : Watching weaks tks reps slots frames log) (top : frames = f :: below)
    (hf : ∀ t pos deps, f ≠ .notifying t pos deps) :
    Watching weaks tks reps slots below log where
  clearing r rep hr hc := by
    obtain ⟨pos, deps, rest, htop⟩ := h.clearing r rep hr hc
    rw [top] at htop
    exact absurd (List.cons.inj htop).1 (hf r pos deps)
  below t pos deps hm := h.below t pos deps (by rw [top]; exact List.mem_of_mem_tail hm)
  based r hheld := h.based r (hheld.imp_right fun ⟨dst, hm⟩ =>
    ⟨dst, by rw [top]; exact List.mem_cons_of_mem f hm⟩)
  tracked c self s hc hs hr := by
    obtain ⟨sl, r, hsl, hrep, hw⟩ := h.tracked c self s hc hs hr
    obtain ⟨rep, hr⟩ := h.rep_of_watches hsl hrep hw
    refine ⟨sl, r, hsl, hrep, ?_⟩
    unfold Watches at hw ⊢
    rwa [(h.settled_below top).cursor hr, ← (Settled.of_top top hf).cursor hr]

/-- The slots change: each keeps the rep that a pointer to it is registered with. -/
theorem setSlots (h : Watching weaks tks reps slots frames log) (hl : log ⊆ log')
    (keep : ∀ s sl r c, slots s = some sl → sl.rep = some r → Regular log' s →
      Watches tks frames c r → ∃ sl', slots' s = some sl' ∧ sl'.rep = some r)
    (held : ∀ s sl r, slots' s = some sl → sl.rep = some r → reps r = none →
      Held slots frames r ∨ tks r = none) :
    Watching weaks tks reps slots' frames log' where
  clearing := h.clearing
  below := h.below
  based r hheld hr := by
    rcases hheld with ⟨s, sl, hs, hrep⟩ | hframe
    · rcases held s sl r hs hrep hr with hold | hnone
      · exact h.based r hold hr
      · exact hnone
    · exact h.based r (.inr hframe) hr
  tracked c self s hc hs hr := by
    obtain ⟨sl, r, hsl, hrep, hw⟩ := h.tracked c self s hc hs (hr.of_subset hl)
    obtain ⟨sl', hsl', hrep'⟩ := keep s sl r c hsl hrep hr hw
    exact ⟨sl', r, hsl', hrep', hw⟩

theorem setSlot (h : Watching weaks tks reps slots frames log) {s : SlotAddr} {sl x : SlotBase}
    (hs : slots s = some sl) (hx : x.rep = sl.rep) :
    Watching weaks tks reps (Function.update slots s (some x)) frames log := by
  refine h.setSlots (fun _ => id) (fun s' sl' r c hs' hr _ _ => ?_) fun s' sl' r hs' hr _ => ?_
  · by_cases hss : s' = s
    · obtain rfl := Option.some.inj (hs.symm.trans (hss ▸ hs'))
      exact ⟨x, by rw [hss, Function.update_self], hx.trans hr⟩
    · exact ⟨sl', by rwa [Function.update_of_ne hss], hr⟩
  · obtain ⟨-, hs'⟩ | ⟨-, hs'⟩ := update_eq_some.mp hs'
    · obtain rfl := Option.some.inj hs'
      exact .inl (.inl ⟨s, sl, hs, hx.symm.trans hr⟩)
    · exact .inl (.inl ⟨s', sl', hs', hr⟩)

/-- A slot is constructed or destroyed, or gets another rep: no pointer to it is registered with
the rep that it had. -/
theorem exchange (h : Watching weaks tks reps slots frames log) (hl : log ⊆ log') {s : SlotAddr}
    {x : Option SlotBase}
    (unwatched : ∀ sl r c, slots s = some sl → sl.rep = some r → Regular log' s →
      ¬Watches tks frames c r)
    (held : ∀ y r, x = some y → y.rep = some r → reps r = none →
      Held slots frames r ∨ tks r = none) :
    Watching weaks tks reps (Function.update slots s x) frames log' := by
  refine h.setSlots hl (fun s' sl r c hs hr hreg hwatch => ?_) fun s' sl r hs hr hnone => ?_
  · refine ⟨sl, (Function.update_of_ne ?_ _ _).trans hs, hr⟩
    rintro rfl
    exact unwatched sl r c hs hr hreg hwatch
  · obtain ⟨-, hx⟩ | ⟨-, hs⟩ := update_eq_some.mp hs
    · exact held sl r hx hr hnone
    · exact .inl (.inl ⟨s', sl, hs, hr⟩)

/-- Trackables and reps change: those of the reps that there are keep their callbacks. -/
theorem heap (h : Watching weaks tks reps slots frames log)
    (keep : ∀ r rep, reps r = some rep → ∃ rep', reps' r = some rep')
    (lists : ∀ r rep, reps r = some rep → callbacksOf tks' r = callbacksOf tks r)
    (new : ∀ r rep, reps' r = some rep → reps r = none →
      (callbacksOf tks' r).clearing = false ∧ ∀ pos deps, .notifying r pos deps ∉ frames)
    (gone : ∀ r, Held slots frames r → tks r = none → tks' r = none) :
    Watching weaks tks' reps' slots frames log where
  clearing r rep hr hc := by
    cases hold : reps r with
    | none => simp [(new r rep hr hold).1] at hc
    | some rep₀ => exact h.clearing r rep₀ hold (lists r rep₀ hold ▸ hc)
  below t pos deps hm := by
    have hnone := h.below t pos deps hm
    by_contra hne
    obtain ⟨rep, hrep⟩ := Option.ne_none_iff_exists'.mp hne
    exact (new t rep hrep hnone).2 pos deps (List.mem_of_mem_tail hm)
  based r hheld hr := by
    refine gone r hheld (h.based r hheld ?_)
    by_contra hne
    obtain ⟨rep, hrep⟩ := Option.ne_none_iff_exists'.mp hne
    obtain ⟨rep', hrep'⟩ := keep r rep hrep
    rw [hr] at hrep'
    cases hrep'
  tracked c self s hc hs hr := by
    obtain ⟨sl, r, hsl, hrep, hw⟩ := h.tracked c self s hc hs hr
    obtain ⟨rep, hr⟩ := h.rep_of_watches hsl hrep hw
    exact ⟨sl, r, hsl, hrep, by rwa [Watches, lists r rep hr]⟩

theorem setReps (h : Watching weaks tks reps slots frames log)
    (hr : ∀ q, reps' q = none ↔ reps q = none) : Watching weaks tks reps' slots frames log := by
  refine h.heap (fun r rep hrep => ?_) (fun _ _ _ => rfl) (fun r rep hrep hnone => ?_)
    fun _ _ => id
  · exact Option.ne_none_iff_exists'.mp fun hnone => by rw [(hr r).mp hnone] at hrep; cases hrep
  · rw [(hr r).mpr hnone] at hrep
    cases hrep

theorem setRep (h : Watching weaks tks reps slots frames log) {r : Addr} {rep x : SlotRep}
    (hr : reps r = some rep) :
    Watching weaks tks (Function.update reps r (some x)) slots frames log := by
  refine h.setReps fun q => ?_
  by_cases hq : q = r
  · simp [hq, hr]
  · rw [Function.update_of_ne hq]

/-- A rep is created, whose base has no callbacks yet. -/
theorem newRep (h : Watching weaks tks reps slots frames log) {r : Addr} {x : SlotRep}
    (fresh : reps r = none) (unheld : ¬Held slots frames r)
    (quiet : ∀ pos deps, .notifying r pos deps ∉ frames) :
    Watching weaks (Function.update tks r (some {})) (Function.update reps r (some x)) slots
      frames log := by
  have hne {q : Addr} {rep : SlotRep} (hq : reps q = some rep) : q ≠ r := by
    rintro rfl
    rw [fresh] at hq
    cases hq
  refine h.heap (fun q rp hq => ⟨rp, ?_⟩) (fun q rp hq => ?_) (fun q rp hq hnone => ?_)
    fun q hheld hnone => ?_
  · rwa [Function.update_of_ne (hne hq)]
  · rw [callbacksOf, Function.update_of_ne (hne hq), callbacksOf]
  · obtain ⟨rfl, -⟩ | ⟨-, hq⟩ := update_eq_some.mp hq
    · rw [callbacksOf_of_list_none (Function.update_self _ _ _) rfl]
      exact ⟨rfl, quiet⟩
    · rw [hnone] at hq
      cases hq
  · rwa [Function.update_of_ne]
    rintro rfl
    exact unheld hheld

/-- Trackables of the client change. -/
theorem clients (h : Watching weaks tks reps slots frames log) {g : Trackable → Trackable}
    {k : Addr → Nat} (hch : Changed g k tks tks') (hk : ∀ r rep, reps r = some rep → k r = 0) :
    Watching weaks tks' reps slots frames log := by
  refine h.heap (fun r rep hr => ⟨rep, hr⟩) (fun r rep hr => ?_) (fun r rep hr hnone => ?_)
    fun r _ => (hch.none_iff r).mpr
  · rw [callbacksOf, hch.unchanged (hk r rep hr), callbacksOf]
  · rw [hnone] at hr
    cases hr

/-- A trackable changes, but not its list of callbacks. -/
theorem setTrackable (h : Watching weaks tks reps slots frames log) {t : Addr} {tr x : Trackable}
    (ht : tks t = some tr) (hx : x.callbackList = tr.callbackList) :
    Watching weaks (Function.update tks t (some x)) reps slots frames log := by
  refine h.heap (fun r rep hr => ⟨rep, hr⟩) (fun r rep hr => ?_) (fun r rep hr hnone => ?_)
    fun r _ hnone => ?_
  · by_cases hrt : r = t
    · simp [callbacksOf, hrt, ht, Trackable.callbacks, hx]
    · rw [callbacksOf, Function.update_of_ne hrt, callbacksOf]
  · rw [hnone] at hr
    cases hr
  · rwa [Function.update_of_ne]
    rintro rfl
    rw [ht] at hnone
    cases hnone

/-- A trackable of the client is created or destroyed. -/
theorem setClient (h : Watching weaks tks reps slots frames log) {t : Addr} {x : Option Trackable}
    (client : reps t = none) (hx : Held slots frames t → x = none) :
    Watching weaks (Function.update tks t x) reps slots frames log := by
  refine h.heap (fun r rep hr => ⟨rep, hr⟩) (fun r rep hr => ?_) (fun r rep hr hnone => ?_)
    fun r hheld hnone => ?_
  · have hne : r ≠ t := by
      rintro rfl
      rw [client] at hr
      cases hr
    rw [callbacksOf, Function.update_of_ne hne, callbacksOf]
  · rw [hnone] at hr
    cases hr
  · by_cases hr : r = t
    · subst hr
      rw [Function.update_self, hx hheld]
    · rwa [Function.update_of_ne hr]

/-- A rep is destroyed with its base, which nobody watches any more. -/
theorem eraseRep (h : Watching weaks tks reps slots frames log) {r : Addr} {base : Trackable}
    (ht : tks r = some base) (notified : base.callbackList = none) :
    Watching weaks (Function.update tks r none) (Function.update reps r none) slots frames log where
  clearing q rep hq hc := by
    obtain ⟨-, hno⟩ | ⟨hne, hq⟩ := update_eq_some.mp hq
    · cases hno
    · rw [callbacksOf, Function.update_of_ne hne] at hc
      exact h.clearing q rep hq hc
  below t pos deps hm := by
    have hnone := h.below t pos deps hm
    by_cases htr : t = r
    · rw [htr, Function.update_self]
    · rwa [Function.update_of_ne htr]
  based q hheld hq := by
    by_cases hqr : q = r
    · rw [hqr, Function.update_self]
    · rw [Function.update_of_ne hqr] at hq ⊢
      exact h.based q hheld hq
  tracked c self s hc hs hr := by
    obtain ⟨sl, q, hsl, hrep, hw⟩ := h.tracked c self s hc hs hr
    refine ⟨sl, q, hsl, hrep, ?_⟩
    have hne : q ≠ r := by
      rintro rfl
      simp [Watches, callbacksOf_of_list_none ht notified] at hw
    unfold Watches at hw ⊢
    rwa [callbacksOf, Function.update_of_ne hne]

/-! ### Weak pointers -/

/-- A weak pointer is taken off the list that it is registered with. -/
theorem unregister (h : Watching weaks tks reps slots frames log) (settled : Settled reps frames)
    {c : Addr} {k : Addr → Nat} (hch : Changed (Trackable.removeCallback c) k tks tks') :
    Watching (Function.update weaks c none) tks' reps slots frames log where
  clearing r rep hr hc := by
    rw [(hch.spares (Trackable.removeCallback_spares c) r).1] at hc
    exact h.clearing r rep hr hc
  below := h.below
  based r hheld hr := (hch.none_iff r).mpr (h.based r hheld hr)
  tracked c' self s hc hs hr := by
    obtain ⟨hne, hc⟩ : c' ≠ c ∧ weaks c' = some self := by
      obtain ⟨-, hno⟩ | h := update_eq_some.mp hc
      · cases hno
      · exact h
    obtain ⟨sl, r, hsl, hrep, hw⟩ := h.tracked c' self s hc hs hr
    obtain ⟨rep, hr⟩ := h.rep_of_watches hsl hrep hw
    refine ⟨sl, r, hsl, hrep, ?_⟩
    unfold Watches at hw ⊢
    rw [settled.cursor hr, List.drop_zero] at hw ⊢
    exact (hch.spares (Trackable.removeCallback_spares c) r).2 _ hw hne

/-- A weak pointer is registered with a slot that has a rep. -/
theorem register (h : Watching weaks tks reps slots frames log) (settled : Settled reps frames)
    {c : Addr} {x : WeakRawPtr} {ign ign' : List (Addr × Addr)}
    (hreg : Registered c .notifyObjectInvalidated (WeakRawPtr.uses slots x.ptr) tks ign tks' ign')
    (source : ∀ s, x.ptr = some (.slot s) → Regular log s →
      ∃ sl r, slots s = some sl ∧ sl.rep = some r) :
    Watching (Function.update weaks c (some x)) tks' reps slots frames log where
  clearing r rep hr hc := by
    rw [(hreg.changed.spares (Trackable.addCallback_spares c _) r).1] at hc
    exact h.clearing r rep hr hc
  below := h.below
  based r hheld hr := (hreg.changed.none_iff r).mpr (h.based r hheld hr)
  tracked c' self s hc hs hr := by
    obtain ⟨rfl, hx⟩ | ⟨hne, hc⟩ := update_eq_some.mp hc
    · obtain rfl := Option.some.inj hx
      obtain ⟨sl, r, hsl, hrep⟩ := source s hs hr
      have huse : WeakRawPtr.uses slots x.ptr r = 1 := by
        simp [WeakRawPtr.uses, hs, WeakTarget.pointee, hsl, hrep]
      obtain ⟨tr, htr⟩ := hreg.alive r (by omega)
      obtain ⟨rep, hr⟩ : ∃ rep, reps r = some rep := by
        refine Option.ne_none_iff_exists'.mp fun hnone => ?_
        rw [h.based r (.inl ⟨s, sl, hsl, hrep⟩) hnone] at htr
        cases htr
      -- A rep's list is cleared only while it is destroyed, on top of the stack.
      have hidle : (callbacksOf tks r).clearing = false := by
        by_contra hcl
        obtain ⟨pos, deps, below, top⟩ := h.clearing r rep hr (by simpa using hcl)
        rw [settled r pos deps below top] at hr
        cases hr
      refine ⟨sl, r, hsl, hrep, ?_⟩
      rw [Watches, settled.cursor hr, List.drop_zero]
      exact hreg.mem huse hidle
    · obtain ⟨sl, r, hsl, hrep, hw⟩ := h.tracked c' self s hc hs hr
      obtain ⟨rep, hr⟩ := h.rep_of_watches hsl hrep hw
      refine ⟨sl, r, hsl, hrep, ?_⟩
      unfold Watches at hw ⊢
      rw [settled.cursor hr, List.drop_zero] at hw ⊢
      exact (hreg.changed.spares (Trackable.addCallback_spares c _) r).2 _ hw hne

/-! ### Notifications -/

variable {t pos : Addr} {deps : List Dependent} {tr : Trackable} {l : TrackableCallbackList}

theorem beginNotify (h : Watching weaks tks reps slots frames log) (settled : Settled reps frames)
    (alive : tks t = some tr) (list : tr.callbackList = some l) :
    Watching weaks (Function.update tks t
      (some { tr with callbackList := some { l with clearing := true } })) reps slots
        (.notifying t 0 deps :: frames) log where
  clearing r rep hr hc := by
    by_cases ht : r = t
    · exact ⟨0, deps, frames, by rw [ht]⟩
    · rw [callbacksOf, Function.update_of_ne ht] at hc
      obtain ⟨pos, deps, below, top⟩ := h.clearing r rep hr hc
      rw [settled r pos deps below top] at hr
      cases hr
  below t' pos deps hm := by
    cases frames with
    | nil => cases hm
    | cons g rest =>
      rcases List.mem_cons.mp hm with rfl | hm
      · exact settled t' pos deps rest rfl
      · exact h.below t' pos deps hm
  based r hheld hr := by
    have hheld' : Held slots frames r := hheld.imp_right fun ⟨dst, hm⟩ =>
      ⟨dst, (List.mem_cons.mp hm).resolve_left (by simp)⟩
    have hnone := h.based r hheld' hr
    rw [Function.update_of_ne, hnone]
    rintro rfl
    rw [alive] at hnone
    cases hnone
  tracked c self s hc hs hr := by
    obtain ⟨sl, r, hsl, hrep, hw⟩ := h.tracked c self s hc hs hr
    obtain ⟨rep, hr⟩ := h.rep_of_watches hsl hrep hw
    refine ⟨sl, r, hsl, hrep, ?_⟩
    unfold Watches at hw ⊢
    rw [settled.cursor hr, List.drop_zero] at hw
    -- Nothing has been passed yet, so that every callback is still to come.
    have hcur : cursor (.notifying t 0 deps :: frames) r = 0 := by
      simp [cursor]
    rw [hcur, List.drop_zero]
    by_cases ht : r = t
    · subst ht
      rw [callbacksOf_of_list alive list] at hw
      rwa [callbacksOf_of_list (Function.update_self _ _ _) rfl]
    · rwa [callbacksOf, Function.update_of_ne ht]

/-- The loop goes past a callback: a pointer that it has reset points to nothing. -/
theorem next (h : Watching weaks tks reps slots frames log)
    (top : frames = .notifying t pos deps :: below) {weaks' : Addr → Option WeakRawPtr}
    (old : ∀ c self, weaks' c = some self → self.ptr ≠ none → weaks c = some self)
    (passed : ∀ rep c self, reps t = some rep → weaks' c = some self → self.ptr ≠ none →
      (callbacksOf tks t).callbacks[pos]? ≠ some ⟨c, some .notifyObjectInvalidated⟩) :
    Watching weaks' tks reps slots (.notifying t (pos + 1) deps :: below) log where
  clearing r rep hr hc := by
    obtain ⟨pos', deps', below', htop⟩ := h.clearing r rep hr hc
    rw [top] at htop
    cases htop
    exact ⟨pos + 1, deps, below, rfl⟩
  below t' pos' deps' hm := h.below t' pos' deps' (by rw [top]; exact hm)
  based r hheld := h.based r (hheld.imp_right fun ⟨dst, hm⟩ => ⟨dst, by
    rw [top]
    exact List.mem_cons_of_mem _ ((List.mem_cons.mp hm).resolve_left (by simp))⟩)
  tracked c self s hc hs hr := by
    have hptr : self.ptr ≠ none := by simp [hs]
    obtain ⟨sl, r, hsl, hrep, hw⟩ := h.tracked c self s (old c self hc hptr) hs hr
    obtain ⟨rep, hr⟩ := h.rep_of_watches hsl hrep hw
    refine ⟨sl, r, hsl, hrep, ?_⟩
    unfold Watches cursor at hw ⊢
    rw [top] at hw
    dsimp only at hw ⊢
    split
    · rename_i ht
      rw [if_pos ht] at hw
      subst ht
      rw [List.drop_eq_getElem?_toList_append, List.mem_append] at hw
      refine hw.resolve_left fun hm => ?_
      exact passed rep c self hr hc hptr (Option.mem_toList.mp hm)
    · rename_i ht
      rwa [if_neg ht] at hw

theorem endNotify (h : Watching weaks tks reps slots frames log)
    (top : frames = .notifying t pos deps :: below) (alive : tks t = some tr)
    (list : tr.callbackList = some l) (done : l.callbacks[pos]? = none) :
    Watching weaks (Function.update tks t (some { tr with callbackList := none })) reps slots
      below log where
  clearing r rep hr hc := by
    by_cases ht : r = t
    · subst ht
      rw [callbacksOf_of_list_none (Function.update_self _ _ _) rfl] at hc
      cases hc
    · rw [callbacksOf, Function.update_of_ne ht] at hc
      obtain ⟨pos', deps', below', htop⟩ := h.clearing r rep hr hc
      rw [top] at htop
      exact absurd (Frame.notifying.inj (List.cons.inj htop).1).1 (Ne.symm ht)
  below t' pos' deps' hm := h.below t' pos' deps' (by rw [top]; exact List.mem_of_mem_tail hm)
  based r hheld hr := by
    have hnone := h.based r (hheld.imp_right fun ⟨dst, hm⟩ =>
      ⟨dst, by rw [top]; exact List.mem_cons_of_mem _ hm⟩) hr
    rw [Function.update_of_ne, hnone]
    rintro rfl
    rw [alive] at hnone
    cases hnone
  tracked c self s hc hs hr := by
    obtain ⟨sl, r, hsl, hrep, hw⟩ := h.tracked c self s hc hs hr
    obtain ⟨rep, hr⟩ := h.rep_of_watches hsl hrep hw
    refine ⟨sl, r, hsl, hrep, ?_⟩
    have hne : r ≠ t := by
      rintro rfl
      rw [Watches, callbacksOf_of_list alive list, top] at hw
      have hlen := List.getElem?_eq_none_iff.mp done
      simp [cursor, List.drop_eq_nil_of_le hlen] at hw
    unfold Watches at hw ⊢
    rw [(h.settled_below top).cursor hr, List.drop_zero, callbacksOf, Function.update_of_ne hne]
    exact List.mem_of_mem_drop hw

end Watching

end Sigc
