import Sigc.Agreement
import Sigc.NewRep

/-!
# The silent exchange of functors

An assignment from a slot that is not empty gives the destination another rep in the place of the
one it had.  The parent of the old rep becomes that of the new one, and is told of nothing.
-/

namespace Sigc

open Reasoning Prog

variable {V : Type} {C P : Addr → Prop} {S : SlotAddr → Prop} {w w₁ w₂ w' : World V}

section Assign

variable {u : Env V} {cleanup : Addr → M V Unit} {dst src : SlotAddr} {self sl : SlotBase}
  {new : Addr} {move : Bool}

theorem World.Fresh.of_setSlot {b : Bool} (hself : w.slots dst = some self)
    (h : (w.setSlot dst (some { self with blocked := b })).Fresh dst { self with blocked := b } sl
      new w₂) : w.Fresh dst { self with blocked := b } sl new w₂ where
  prepared := by
    have hgoes := SlotBase.setBlocked_goes b hself
    exact ⟨hgoes.1.trans h.prepared.1, h.prepared.2⟩
  slot := h.slot
  rep := h.rep
  incoming := h.incoming

namespace SlotBase

/-- The new rep of either assignment, and what has become of the source. -/
theorem incoming_fresh (hw : Sound w) (calm : w.Calm) (hself : w.slots dst = some self)
    (hsl : w.slots src = some sl) (hne : src ≠ dst) (unlisted : ¬w.Listed dst)
    (source : w.Taken move sl → ¬w.Listed src) (hcalls : w.calls sl.rep = true)
    (h : incoming move u.destructors dst src w = (.ret new, w₂)) :
    w.Fresh dst (flagged move self sl) sl new w₂ ∧
      w.Leaves C (fun _ => False) (fun _ => False) w₂ ∧
      (¬w.Taken move sl → w₂.slots src = some sl ∧ ∀ q, sl.rep = some q →
        w₂.reps q = w.reps q ∧ w₂.trackables q = w.trackables q) ∧
      (w.Taken move sl → w₂.slots src = some { sl with rep := none, blocked := false }) := by
  obtain ⟨r, rep, hr, hrep, hcall⟩ := calls_eq_true hcalls
  have hgoes := setBlocked_goes (V := V) (if move then sl.blocked else self.blocked) hself
  have hself₀ : (w.setSlot dst (some (flagged move self sl))).slots dst =
      some (flagged move self sl) := World.setSlot_self _
  have hsl₀ : (w.setSlot dst (some (flagged move self sl))).slots src = some sl :=
    (Function.update_of_ne hne _ _).trans hsl
  have hw₀ := hgoes.sound hw
  have unlisted₀ := (hgoes.proceeds hw).unlisted hw hself unlisted
  have hleft : w.Leaves C (fun _ => False) (fun _ => False)
      (w.setSlot dst (some (flagged move self sl))) := .setSlot id _
  -- a clone
  have hclone (hcopy : incomingCopy u.destructors dst src
      (w.setSlot dst (some (flagged move self sl))) = (.ret new, w₂)) :
      w.Fresh dst (flagged move self sl) sl new w₂ ∧
        w.Leaves C (fun _ => False) (fun _ => False) w₂ ∧ w₂.slots src = some sl ∧
        ∀ q, sl.rep = some q → w₂.reps q = w.reps q ∧ w₂.trackables q = w.trackables q := by
    obtain ⟨hfresh, hleaves⟩ := incomingCopy_fresh (C := C) (P := (· = r)) hw₀ (hgoes.calm calm)
      hself₀ hsl₀ unlisted₀ hcalls (fun q hq => ⟨rep, hq ▸ hrep⟩) hcopy
    refine ⟨.of_setSlot hself hfresh, hleft.trans (hleaves.mono (fun _ => id) (fun _ => False.elim)
      fun _ => False.elim), (hleaves.slots src trivial (hw₀.below hsl₀)).trans hsl₀, fun q hq => ?_⟩
    obtain rfl := Option.some.inj (hr.symm.trans hq)
    have hlt : r < w.next := hw.reps r rep hrep
    exact ⟨hleaves.reps r rfl hlt, hleaves.bases r rfl hlt⟩
  cases move with
  | false =>
    have hcopy : incomingCopy u.destructors dst src w = (.ret new, w₂) := h
    obtain ⟨hfresh, hleaves, hkept⟩ := hclone (by rw [World.setBlocked_self hself]; exact hcopy)
    exact ⟨hfresh, hleaves, fun _ => hkept, fun htaken => by cases htaken.1⟩
  | true =>
    have hmove : incomingMove u.destructors dst src w = (.ret new, w₂) := h
    have hloadSelf : loadSlot dst w = (.ret self, w) := deref_of_some hself
    have hloadSource : loadSlot src w = (.ret sl, w) := deref_of_some hsl
    rw [incomingMove, bind_of_ret hloadSelf, bind_of_ret hloadSource, modify_bind_run] at hmove
    obtain ⟨r', w₁, hderef, hmove⟩ := bind_eq_ret.mp hmove
    obtain ⟨hr', rfl⟩ := deref_eq_ret.mp hderef
    obtain rfl := Option.some.inj (hr.symm.trans hr')
    obtain ⟨rep', w₁, hload, hmove⟩ := bind_eq_ret.mp hmove
    obtain ⟨hrep', rfl⟩ := deref_eq_ret.mp hload
    obtain rfl := Option.some.inj (hrep.symm.trans hrep')
    split at hmove
    · rename_i hparent
      have htaken : w.Taken true sl := by
        refine ⟨rfl, fun q rep' hq hrep' => ?_⟩
        obtain rfl := Option.some.inj (hr.symm.trans hq)
        obtain rfl := Option.some.inj (hrep.symm.trans hrep')
        exact hparent
      obtain ⟨_, w₁, hnotify, hmove⟩ := bind_eq_ret.mp hmove
      obtain ⟨hfresh, hleaves, hsrc⟩ := moveFor_fresh (C := C) hw₀ (hgoes.calm calm) hself₀ hsl₀
        unlisted₀ ((hgoes.proceeds hw).unlisted hw hsl (source htaken)) hne hr hrep hparent hcall
        hnotify hmove
      exact ⟨.of_setSlot hself hfresh, hleft.trans (hleaves.mono (fun _ => id) (fun _ => id)
        fun _ => False.elim), fun hnot => absurd htaken hnot, fun _ => hsrc⟩
    · rename_i hparent
      obtain ⟨hfresh, hleaves, hkept⟩ := hclone hmove
      exact ⟨hfresh, hleaves, fun _ => hkept,
        fun htaken => absurd (htaken.2 r rep hr hrep) hparent⟩

theorem incomingCopy_destructors : incomingCopy u dst src = incomingCopy u.destructors dst src := rfl

theorem incomingMove_destructors (hw : Sound w) (hself : w.slots dst = some self)
    (hsl : w.slots src = some sl) :
    incomingMove u dst src w = incomingMove u.destructors dst src w := by
  have hloadSelf : loadSlot dst w = (.ret self, w) := deref_of_some hself
  have hloadSource : loadSlot src w = (.ret sl, w) := deref_of_some hsl
  rw [incomingMove, incomingMove, bind_of_ret hloadSelf, bind_of_ret hloadSource,
    bind_of_ret hloadSelf, bind_of_ret hloadSource, modify_bind_run, modify_bind_run]
  apply bind_congr_right
  intro r w₁ hderef
  obtain ⟨_, rfl⟩ := deref_eq_ret.mp hderef
  apply bind_congr_right
  intro rep w₁ hload
  obtain ⟨hrep, rfl⟩ := deref_eq_ret.mp hload
  split
  · apply bind_congr_run
    exact notifyMove_destructors ((setBlocked_goes sl.blocked hself).sound hw) hrep
  · rw [incomingCopy_destructors]

/-- Whatever else the environment would do, the destructors of functors are the only other code. -/
theorem assignBy_destructors {c : Addr → M V Unit} (hu : u.destructors.Spec fun _ => True)
    (hw : Sound w) (calm : w.Calm) (hself : w.slots dst = some self) (hsl : w.slots src = some sl)
    (hne : sl.rep ≠ self.rep) (unlisted : ¬w.Listed dst)
    (source : w.Taken move sl → ¬w.Listed src) (hcalls : w.calls sl.rep = true) :
    assignBy move u cleanup dst src w = assignBy move u.destructors c dst src w := by
  have hdistinct := ne_of_rep_ne hself hsl hne
  have hexchange {new : Addr} {w₂ : World V}
      (hnew : incoming move u.destructors dst src w = (.ret new, w₂)) :
      exchangeRep u dst new w₂ = exchangeRep u.destructors dst new w₂ := by
    obtain ⟨hfresh, _⟩ := incoming_fresh (C := fun _ => True) hw calm hself hsl hdistinct unlisted
      source hcalls hnew
    obtain ⟨hsteps, htop, hlisted⟩ := hfresh.prepared
    exact exchangeRep_destructors hu (hsteps.proceeds hw).sound htop hlisted
  cases move with
  | false =>
    show assign u cleanup dst src w = assign u.destructors c dst src w
    rw [assign_of_calls hself hsl hne hcalls, assign_of_calls hself hsl hne hcalls,
      incomingCopy_destructors]
    apply bind_congr_right
    intro new w₂ hnew
    exact bind_congr_run (hexchange hnew)
  | true =>
    show moveAssign u cleanup dst src w = moveAssign u.destructors c dst src w
    rw [moveAssign_of_calls hself hsl hne hcalls, moveAssign_of_calls hself hsl hne hcalls,
      bind_congr_run (incomingMove_destructors hw hself hsl)]
    apply bind_congr_right
    intro new w₂ hnew
    exact hexchange hnew

end SlotBase

end Assign

/-! ## What an assignment leaves behind -/

/-- The parent of the rep is told, if it has one. -/
def SlotRep.tell (u : Env V) (cleanupSelfAndIter : Addr → M V Unit) (rep : SlotRep) : M V Unit :=
  match rep.parent with
  | none => pure ()
  | some data =>
    match rep.cleanup with
    | some .notifySelfAndIterOfInvalidatedSlot => cleanupSelfAndIter data
    | some .notifySlotRepInvalidated => do
      let _ ← u.call (.notify data)
    | some .notifyObjectInvalidated | none => fault .nullFunction

theorem SlotRep.disconnect_run {u : Env V} {cleanup : Addr → M V Unit} {r : Addr} {rep : SlotRep}
    (hrep : w.reps r = some rep) : disconnect u cleanup r w = rep.tell u cleanup (w.sever r rep) := by
  have hload : loadRep r w = (.ret rep, w) := deref_of_some hrep
  rw [disconnect, bind_of_ret hload]
  obtain ⟨call, cleanup', parent, functor⟩ := rep
  cases parent with
  | none => rfl
  | some data => rcases cleanup' with _ | _ | _ | _ <;> rfl

/-- When the slot with this rep is invalidated, the parent of the rep is told; and nobody is when it
is invalidated again. -/
def World.TellsOnce (w : World V) (r : Addr) (rep : SlotRep) : Prop :=
  (∀ u cleanup, SlotRep.disconnect u cleanup r w = rep.tell u cleanup (w.sever r rep)) ∧
    ∀ (v : World V) (severed : SlotRep), v.reps r = some severed → severed.parent = none →
      ∀ u cleanup, SlotRep.disconnect u cleanup r v = (.ret (), v.sever r severed)

theorem World.tellsOnce {r : Addr} {rep : SlotRep} (hrep : w.reps r = some rep) :
    w.TellsOnce r rep := by
  refine ⟨fun u cleanup => SlotRep.disconnect_run hrep, fun v severed hsevered hparent u cleanup => ?_⟩
  rw [SlotRep.disconnect_run hsevered, SlotRep.tell, hparent]
  rfl

/-- An assignment has exchanged the reps. -/
structure World.Exchanged (C : Addr → Prop) (w : World V) (move : Bool) (dst src : SlotAddr)
    (x sl : SlotBase) (w' : World V) : Prop where
  /-- the destination has a rep that can be called, with the parent of the one it had -/
  rep : ∃ new rep, w'.slots dst = some { x with rep := some new, blocked := sl.blocked } ∧
    w'.reps new = some rep ∧ rep.call = true ∧ w.Inherits x rep ∧ w'.TellsOnce new rep
  /-- it has the functor and the blocked state of the source -/
  observation : w'.observe 0 dst = w.observe 0 src
  /-- the old rep is a dependency of no trackable -/
  unregistered : ∀ r t tr, x.rep = some r → w'.trackables t = some tr →
    SlotRep.binding r ∉ tr.callbacks.callbacks
  /-- a source that has been copied is as it was -/
  kept : ¬w.Taken move sl → w'.slots src = some sl ∧ ∀ q, sl.rep = some q →
    w'.reps q = w.reps q ∧ w'.trackables q = w.trackables q
  /-- a source that has been moved is empty, and so is every connection to it -/
  taken : w.Taken move sl → w'.slots src = some { sl with rep := none, blocked := false } ∧
    ∀ c y, w'.weaks c = some y → y.ptr = some (.slot src) →
      Connection.empty c w' = (.ret true, w') ∧ ¬Regular w'.log src
  emptied : w.Taken move sl → ∀ c y y', C c → w.weaks c = some y → y.ptr = some (.slot src) →
    w'.weaks c = some y' → Connection.empty c w' = (.ret true, w')

theorem Connection.empty_of_null {c : Addr} {y : WeakRawPtr} {s : SlotAddr} {sl : SlotBase}
    (hc : w.weaks c = some y) (hptr : y.ptr = some (.slot s) ∨ y.ptr = none)
    (hsl : w.slots s = some sl) (hrep : sl.rep = none) : empty c w = (.ret true, w) := by
  have hload : loadWeak c w = (.ret y, w) := deref_of_some hc
  rw [empty, bind_of_ret hload]
  cases hptr with
  | inl hslot =>
    have hloadSlot : loadSlot s w = (.ret sl, w) := deref_of_some hsl
    rw [hslot]
    show SlotBase.empty s w = _
    rw [SlotBase.empty, bind_of_ret hloadSlot, hrep]
    rfl
  | inr hnull =>
    rw [hnull]
    rfl

/-- A rep that has been destroyed is registered nowhere. -/
theorem World.Registered.unbound (hr : w.Registered) (hw : WellAddressed w) {r t : Addr}
    {tr : Trackable} (hgone : w.reps r = none) (htr : w.trackables t = some tr) :
    SlotRep.binding r ∉ tr.callbacks.callbacks := by
  intro hmem
  cases ht : w.reps t with
  | some rep =>
    rcases hw.weakOnly t rep tr ht htr _ hmem with hf | hf <;> cases hf
  | none =>
    have hbalanced := (hr.balanced t (by rw [functorsOf, ht]; rfl) r).1
    have hbare : reaches (functorsOf w.reps) r t = 0 :=
      Registry.reaches_of_bare (by rw [Bare, functorsOf, hgone]; rfl) t
    rw [hbare] at hbalanced
    have hpos : 0 < bindings w.trackables t r := by
      unfold bindings callbacksOf
      rw [htr]
      exact List.count_pos_iff.mpr hmem
    omega

namespace SlotBase

variable {u : Env V} {cleanup : Addr → M V Unit} {dst src : SlotAddr} {self sl : SlotBase}
  {move : Bool} {script : List (Cmd V)}

/-- What holds before the flag is copied. -/
theorem exchange_leaves (hw : Sound w) (calm : w.Calm)
    (hu : u.DestroysBeside C (Incoming w sl) (fun s => s = dst ∨ s = src) w)
    (hself : w.slots dst = some self) (hsl : w.slots src = some sl) (hne : src ≠ dst)
    (outside : ¬w.StoredIn dst src) (unlisted : ¬w.Listed dst)
    (source : w.Taken move sl → ¬w.Listed src) (hcalls : w.calls sl.rep = true) {new : Addr}
    {w₃ : World V} (hnew : incoming move u.destructors dst src w = (.ret new, w₂))
    (hexchange : exchangeRep u.destructors dst new w₂ = (.ret (), w₃)) :
    w.Fresh dst (flagged move self sl) sl new w₂ ∧
      w₃.slots dst = some { flagged move self sl with rep := some new } ∧
      w₃.reps new = w₂.reps new ∧ Steps w w₃ ∧ (∀ r, self.rep = some r → w₃.reps r = none) ∧
      w.Leaves C (fun _ => False) (fun _ => False) w₃ ∧
      (¬w.Taken move sl → w₃.slots src = some sl ∧ ∀ q, sl.rep = some q →
        w₃.reps q = w.reps q ∧ w₃.trackables q = w.trackables q) ∧
      (w.Taken move sl → w₃.slots src = some { sl with rep := none, blocked := false }) := by
  obtain ⟨hfresh, hleft, hkept, htaken⟩ := incoming_fresh (C := C) hw calm hself hsl hne unlisted
    source hcalls hnew
  obtain ⟨hsteps, htop, hlisted⟩ := hfresh.prepared
  obtain ⟨rep, hrep, _⟩ := hfresh.rep
  have hadv := hsteps.proceeds hw
  have hw₂ := hadv.sound
  -- the new rep and that of a source that has been copied
  let P (q : Addr) : Prop := q = new ∨ ¬w.Taken move sl ∧ sl.rep = some q
  have hincoming : ∀ q, P q → Incoming w sl q := by
    intro q hq
    cases hq with
    | inl heq => exact heq ▸ hfresh.incoming
    | inr hsource => exact .inr hsource.2
  obtain ⟨r, srcRep, hr, hsrcRep, _⟩ := calls_eq_true hcalls
  have hexisting : w₂.Existing P := by
    intro q hq
    cases hq with
    | inl heq => exact ⟨rep, heq ▸ hrep⟩
    | inr hsource =>
      obtain rfl := Option.some.inj (hr.symm.trans hsource.2)
      exact ⟨srcRep, ((hkept hsource.1).2 r hr).1.trans hsrcRep⟩
  have hheld : ∀ q s sl', P q → w₂.slots s = some sl' → sl'.rep = some q →
      s ≠ dst ∧ ∀ f, w₂.inner dst = some f → .slot s ∉ f := by
    intro q s sl' hq hs hsq
    cases hq with
    | inl heq =>
      subst heq
      have hlink : some (Link.incoming q) ∈ w₂.links := by
        unfold World.links
        rw [htop]
        exact List.mem_cons_self
      exact absurd hsq (hw₂.linked.incomingFree q hlink s sl' hs)
    | inr hsource =>
      obtain rfl := hw₂.linked.unique _ _ _ _ _ hs hsq (hkept hsource.1).1 hsource.2
      refine ⟨hne, fun f hf hin => outside ?_⟩
      obtain ⟨x, q', hx, hq', hfunctor⟩ := World.inner_eq_some.mp hf
      obtain rfl := Option.some.inj (hfresh.slot.symm.trans hx)
      have hq₀ : self.rep = some q' := hq'
      obtain ⟨rep₂, hrep₂, hg⟩ := Option.map_eq_some_iff.mp hfunctor
      obtain ⟨rep₀, hrep₀, _, hsame⟩ := hadv.extension.reps.old (hw.slotRep dst self q' hself hq₀)
        hrep₂
      have hinner : w.inner dst = some f := by
        refine World.inner_eq_some.mpr ⟨self, q', hself, hq₀, ?_⟩
        rw [functorsOf, hrep₀]
        cases hsame with
        | inl hnone =>
          rw [hnone] at hg
          cases hg
        | inr heq => exact congrArg some (heq.symm.trans hg)
      exact ⟨f, hinner, .here hin⟩
  obtain ⟨hslot, hleaves, hsteps', hgone⟩ := exchangeRep_leaves hw₂
    (hu.mono hsteps hincoming) htop hlisted hfresh.slot (.inl rfl) hexisting hheld
    hexchange
  have hlt {q : Addr} (hq : P q) : q < w₂.next := hw₂.existing_lt hexisting hq
  have hsrc₃ : w₃.slots src = w₂.slots src := by
    apply hleaves.slots src ⟨.inr rfl, hne⟩
    intro a ha
    exact Nat.lt_of_lt_of_le (hw.below hsl a ha) hadv.extension.next
  refine ⟨hfresh, hslot, hleaves.reps new (.inl rfl) (hlt (.inl rfl)), hsteps.trans hsteps', hgone,
    hleft.trans (hleaves.mono (fun _ => id) (fun _ => False.elim) fun _ => False.elim), ?_, ?_⟩
  · intro hnot
    obtain ⟨hsrc, hreps⟩ := hkept hnot
    refine ⟨hsrc₃.trans hsrc, fun q hq => ?_⟩
    obtain ⟨hq₁, hq₂⟩ := hreps q hq
    have hPq : P q := .inr ⟨hnot, hq⟩
    exact ⟨(hleaves.reps q hPq (hlt hPq)).trans hq₁, (hleaves.bases q hPq (hlt hPq)).trans hq₂⟩
  · intro hyes
    exact hsrc₃.trans (htaken hyes)

theorem rep_ne_of_calls (hw : Sound w) (hself : w.slots dst = some self)
    (hsl : w.slots src = some sl) (hne : src ≠ dst) (hcalls : w.calls sl.rep = true) :
    sl.rep ≠ self.rep := by
  intro heq
  obtain ⟨r, _, hr, _⟩ := calls_eq_true hcalls
  exact hne (hw.linked.unique _ _ _ _ _ hsl hr hself (heq ▸ hr))

/-- The run of an assignment from a slot that is not empty exchanges the reps. -/
theorem exchanged (hs : Steps ({ script } : World V) w) (calm : w.Calm)
    (hu : u.DestroysBeside C (Incoming w sl) (fun s => s = dst ∨ s = src) w)
    (hself : w.slots dst = some self) (hsl : w.slots src = some sl) (hne : src ≠ dst)
    (outside : ¬w.StoredIn dst src) (unlisted : ¬w.Listed dst)
    (source : w.Taken move sl → ¬w.Listed src) (hcalls : w.calls sl.rep = true)
    (h : assignBy move u cleanup dst src w = (.ret (), w')) :
    w.Exchanged C move dst src self sl w' := by
  have hw := hs.sound (.initial script)
  have hnotSame := rep_ne_of_calls hw hself hsl hne hcalls
  rw [assignBy_destructors (c := cleanup) hu.spec hw calm hself hsl hnotSame unlisted source
    hcalls] at h
  obtain ⟨new, w₂, w₃, hnew, hexchange, hend⟩ := assignBy_eq_ret hself hsl hnotSame hcalls h
  obtain ⟨hfresh, hslot, hreps, hsteps, hgone, hleaves, hkept, htaken⟩ := exchange_leaves hw calm
    hu hself hsl hne outside unlisted source hcalls hnew hexchange
  obtain ⟨rep, hrep, hcall, hinherits, hobservation⟩ := hfresh.rep
  -- the flag of the destination is written once more, or not
  have hwritten : w' = w₃.setSlot dst (some { self with rep := some new, blocked := sl.blocked }) := by
    cases move with
    | true =>
      obtain ⟨_, rfl⟩ := Prod.mk.inj hend
      unfold World.setSlot
      rw [show some { self with rep := some new, blocked := sl.blocked } = w₃.slots dst from
        hslot.symm, Function.update_eq_self]
    | false =>
      obtain ⟨hsrc, _⟩ := hkept fun htaken => by cases htaken.1
      have hloadSource : loadSlot src w₃ = (.ret sl, w₃) := deref_of_some hsrc
      have hloadSelf : loadSlot dst w₃ = (.ret _, w₃) := deref_of_some hslot
      have hcopy : copyBlocked dst src w₃ = (.ret (), w') := hend
      rw [copyBlocked, bind_of_ret hloadSource, bind_of_ret hloadSelf] at hcopy
      exact (modify_eq_ret.mp hcopy).symm
  have hsteps' : Steps ({ script } : World V) w' := by
    rw [hwritten]
    exact (hs.trans hsteps).tail (.slot (.setBlocked sl.blocked hslot))
  have hlate := hsteps'.sound (.initial script)
  have hregistered := hsteps'.registered (.initial script) (.initial script) (.initial script)
  have hwatched := hsteps'.watched (.initial script) (.initial script)
  have hslots (t : SlotAddr) (ht : t ≠ dst) : w'.slots t = w₃.slots t := by
    rw [hwritten]
    exact Function.update_of_ne ht _ _
  have hrep' : w'.reps new = some rep := by
    rw [hwritten]
    exact hreps.trans hrep
  have hdst : w'.slots dst = some { self with rep := some new, blocked := sl.blocked } := by
    rw [hwritten, World.setSlot_self]
  have hweaks : w'.weaks = w₃.weaks := by rw [hwritten]; rfl
  refine ⟨⟨new, rep, hdst, hrep', hcall, hinherits, World.tellsOnce hrep'⟩, ?_, ?_, ?_, ?_, ?_⟩
  · rw [World.observe_of_slot hdst, World.observe_of_slot hsl, ← hobservation, ← hcall]
    show some (Observation.ofCore (w'.glimpse 0) sl.blocked (w'.core new)) = _
    rw [World.core_of_rep hrep']
    rfl
  · intro r t tr hr htr
    have hgone' : w'.reps r = none := by
      rw [hwritten]
      exact hgone r hr
    exact hregistered.unbound hlate.toWellAddressed hgone' htr
  · intro hnot
    obtain ⟨hsrc, hq⟩ := hkept hnot
    refine ⟨(hslots src hne).trans hsrc, fun q hrepq => ?_⟩
    rw [hwritten]
    exact hq q hrepq
  · intro hyes
    have hsrc := (hslots src hne).trans (htaken hyes)
    refine ⟨hsrc, fun c y hc hptr => ⟨Connection.empty_of_null hc (.inl hptr) hsrc rfl, ?_⟩⟩
    intro hregular
    obtain ⟨sl', r, hsl', hr, _⟩ := hwatched.tracked c y src hc hptr hregular
    obtain rfl := Option.some.inj (hsrc.symm.trans hsl')
    cases hr
  · intro hyes c y y' hc hy hptr hy'
    have hsrc := (hslots src hne).trans (htaken hyes)
    have hlt : c < w.next := hw.weaks c y hy
    obtain ⟨z, hz, hsame⟩ := hleaves.weaks c y' hc hlt (hweaks ▸ hy')
    obtain rfl := Option.some.inj (hy.symm.trans hz)
    rw [hptr] at hsame
    exact Connection.empty_of_null hy' hsame hsrc rfl

/-- Assignment from a slot that is not empty runs no other code than destructors of functors, and
exchanges the reps, as long as these leave the two slots and the incoming functor alone. -/
theorem assignment_exchanges (hs : Steps ({ script } : World V) w) (calm : w.Calm)
    (hu : u.destructors.Spec fun _ => True)
    (hself : w.slots dst = some self) (hsl : w.slots src = some sl) (hne : src ≠ dst)
    (outside : ¬w.StoredIn dst src) (unlisted : ¬w.Listed dst)
    (source : w.Taken move sl → ¬w.Listed src) (hcalls : w.calls sl.rep = true) :
    (∀ (v : Env V) (c : Addr → M V Unit), v.fuel = u.fuel →
      (∀ r f, v.call (.functorDtor r f) = u.call (.functorDtor r f)) →
        assignBy move v c dst src w = assignBy move u cleanup dst src w) ∧
      ∀ w', RunsWithin (World.Leaves C (Incoming w sl) fun s => s = dst ∨ s = src) u cleanup
          (fun u cleanup => assignBy move u cleanup dst src) w () w' →
        w.Exchanged C move dst src self sl w' := by
  have hw := hs.sound (.initial script)
  have hnotSame := rep_ne_of_calls hw hself hsl hne hcalls
  constructor
  · intro v c hfuel hcall
    have hsame : v.destructors = u.destructors := by
      unfold Env.destructors
      rw [hfuel]
      congr 1
      funext d
      cases d <;> simp only [hcall]
    have hv : v.destructors.Spec fun _ => True := hsame ▸ hu
    rw [assignBy_destructors (c := cleanup) hv hw calm hself hsl hnotSame unlisted source hcalls,
      hsame, ← assignBy_destructors hu hw calm hself hsl hnotSame unlisted source hcalls]
  · intro w' h
    exact exchanged hs calm (.within hu) hself hsl hne outside unlisted source hcalls
      h.calls

/-! ## What is stored in the functor -/

/-- A clone is made, and no slot that there is gets changed but the destination, whose flag may be. -/
theorem incoming_spares (hself : w.slots dst = some self) (hsl : w.slots src = some sl)
    (htaken : ¬w.Taken move sl) {new : Addr} (h : incoming move u dst src w = (.ret new, w₂)) :
    (w.setSlot dst (some (flagged move self sl))).Spares P S w₂ := by
  have hclone {v : World V} (h : incomingCopy u dst src v = (.ret new, w₂)) : v.Spares P S w₂ := by
    obtain ⟨init, w₁, hinit, h⟩ := bind_eq_ret.mp h
    obtain ⟨f, w₁', hderef, h⟩ := bind_eq_ret.mp h
    obtain ⟨-, rfl⟩ := deref_eq_ret.mp hderef
    exact ((copyInit_spares u.fuel src).of_ret hinit).trans (cloneFor_core h).1
  cases move with
  | false =>
    rw [World.setBlocked_self hself]
    exact hclone h
  | true =>
    obtain ⟨r, rep, hr, hrep, hnew⟩ := incomingMove_eq_ret hself hsl h
    split at hnew
    · rename_i hparent
      exact absurd (World.taken_of_parent hr hrep hparent) htaken
    · exact hclone hnew

/-- A source that has been copied is as it was, with all that is stored in it. -/
theorem assignment_keeps_source (hw : Sound w) (hself : w.slots dst = some self)
    (hsl : w.slots src = some sl) (hne : src ≠ dst) (hcalls : w.calls sl.rep = true)
    (htaken : ¬w.Taken move sl) (outside : ¬w.StoredIn src dst)
    (h : RunsWithin (World.Spares (w.RepIn src) fun t => t = dst ∨ w.Part src t) u cleanup
      (fun u cleanup => assignBy move u cleanup dst src) w () w') (n : Nat) :
    w'.observe n src = w.observe n src := by
  have hold (r : Addr) (hr : self.rep = some r) : ¬w.RepIn src r := by
    rintro ⟨t, x, ht, hx, hxr⟩
    obtain rfl := hw.linked.unique _ _ _ _ _ hx hxr hself hr
    exact ht.elim (fun heq => hne heq.symm) outside
  obtain ⟨new, w₂, w₃, hnew, hexchange, hend⟩ := assignBy_eq_ret hself hsl
    (rep_ne_of_calls hw hself hsl hne hcalls) hcalls h.calls
  have h₂ := incoming_spares (P := w.RepIn src) (S := fun _ => True) hself hsl htaken hnew
  have hbelow : dst.Below w₂.next := fun a ha => Nat.lt_of_lt_of_le (hw.below hself a ha) h₂.next
  have hself₂ := (h₂.slots dst trivial (hw.below hself)).trans (World.setSlot_self _)
  obtain ⟨-, h₃⟩ := exchangeRep_spares (fun c => guarded_within _) (.inl rfl) hself₂ hbelow hold
    hexchange
  have hflagged : w.Spares (w.RepIn src) (fun t => w.Part src t ∧ t ≠ dst)
      (w.setSlot dst (some (flagged move self sl))) := .setSlot (fun h => h.2 rfl) _
  -- the flag of the destination is copied, or has been written
  have hlast : w₃.Spares (w.RepIn src) (fun t => w.Part src t ∧ t ≠ dst) w' := by
    cases move with
    | true =>
      obtain rfl := (Prod.mk.inj hend).2
      exact .refl _
    | false =>
      obtain ⟨_, w₄, hload, hend⟩ := bind_eq_ret.mp hend
      obtain ⟨-, rfl⟩ := deref_eq_ret.mp hload
      obtain ⟨_, w₄, hload, hend⟩ := bind_eq_ret.mp hend
      obtain ⟨-, rfl⟩ := deref_eq_ret.mp hload
      obtain rfl := modify_eq_ret.mp hend
      exact .setSlot (fun h => h.2 rfl) _
  have hall := ((hflagged.trans (h₂.mono (fun _ => id) fun _ _ => trivial)).trans
    (h₃.mono (fun _ => id) fun t ht => ⟨.inr ht.1, ht.2⟩)).trans hlast
  have hsource : w'.slots src = some sl :=
    (hall.slots src ⟨.inl rfl, hne⟩ (hw.below hsl)).trans hsl
  rw [World.observe_of_slot hsource, World.observe_of_slot hsl]
  refine congrArg some (hw.seen_of_spares (K := True) hsl (hall.mono ?_ ?_) (fun _ => .inr trivial) _)
  · rintro q (hq | ⟨-, hq⟩)
    · exact ⟨src, sl, .inl rfl, hsl, hq⟩
    · exact hq
  · rintro t ⟨-, ht⟩
    exact ⟨.inr ht, fun heq => outside (heq ▸ ht)⟩

/-- The destination shows what the source has shown, to any depth. -/
theorem assignment_shows_source (hw : Sound w) (hself : w.slots dst = some self)
    (hsl : w.slots src = some sl) (hcalls : w.calls sl.rep = true)
    (h : RunsWithin (w.SparesBrought (w.Apart dst src) move dst src sl) u cleanup
      (fun u cleanup => assignBy move u cleanup dst src) w () w') {n : Nat}
    (hn : n = 0 ∨ w.Separate (w.Apart dst src) move dst src self sl) :
    w'.observe n dst = w.observe n src := by
  have hflag : w.assignedFlag self sl = sl.blocked := if_pos (.inr hcalls)
  rw [assignBy_shows hw hself hsl h hn, hflag, World.observe_of_slot hsl]

end SlotBase

/-- A slot whose functor holds a copy of another one, and a slot with a connection. -/
def nestedAndConnected : List (Cmd Unit) :=
  [.newTrackable, .makeSlot [.trackable 0], .makeSlot [.slot (.object 2)], .makeSlot [],
    .connectionOf (.object 8)]

def afterNesting : World Unit := (run 40 nestedAndConnected).2

theorem silent_spec : silent.destructors.Spec fun _ => True where
  client _ _ _ _ := trivial
  handler _ _ _ _ _ _ _ := trivial
  notify _ _ _ _ := trivial
  functorDtor w _ _ _ _ _ _ _ := Goes.refl w
  dispose _ _ _ _ _ _ := trivial

theorem unlisted_of_slot {s : SlotAddr} {sl : SlotBase} (hsl : w.slots s = some sl)
    (howner : ∀ i, sl.owner ≠ .list i) : ¬w.Listed s := by
  rintro ⟨sl', i, hsl', ho⟩
  obtain rfl := Option.some.inj (hsl.symm.trans hsl')
  exact howner i ho

theorem afterNesting_steps : ∃ script, Steps ({ script } : World Unit) afterNesting := by
  have hstops : stops (run 40 nestedAndConnected).1 = true := by decide +kernel
  obtain ⟨script, hsteps, _⟩ := (Reachable.of_run hstops).steps
  exact ⟨script, hsteps⟩

/-- The inner slot is assigned the one with the connection, which has no parent. -/
theorem assignment_exchanges_inner :
    ∃ w', SlotBase.assignBy true silent (fun _ => pure ()) (.object 4) (.object 8) afterNesting =
        (.ret (), w') ∧
      afterNesting.Exchanged (fun _ => True) true (.object 4) (.object 8)
        { rep := some 3, owner := .functor } { rep := some 7 } w' := by
  obtain ⟨script, hsteps⟩ := afterNesting_steps
  have hdst : afterNesting.slots (.object 4) = some { rep := some 3, owner := .functor } := by
    decide +kernel
  have hsrc : afterNesting.slots (.object 8) = some { rep := some 7 } := by decide +kernel
  have houtside : ¬afterNesting.StoredIn (.object 4) (.object 8) := by
    rintro ⟨f, hf, hs⟩
    have hinner : afterNesting.inner (.object 4) = some [.trackable 0] := by decide +kernel
    obtain rfl := Option.some.inj (hinner.symm.trans hf)
    cases hs with
    | here h => simp at h
    | deeper h => simp at h
  have hcalm : afterNesting.Calm := by
    unfold World.Calm
    decide +kernel
  have hcalls : afterNesting.calls (some 7) = true := by decide +kernel
  have hvalue : (SlotBase.assignBy true silent (fun _ => pure ()) (.object 4) (.object 8)
      afterNesting).1.value = some () := by decide +kernel
  exact ⟨_, run_of_value hvalue, (SlotBase.assignment_exchanges hsteps hcalm silent_spec hdst hsrc
    (by simp) houtside (unlisted_of_slot hdst (by simp)) (fun _ => unlisted_of_slot hsrc (by simp))
    hcalls).2 _ (.of_silent (run_of_value hvalue))⟩

end Sigc
