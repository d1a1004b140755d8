import Sigc.Effects
import Sigc.Reasoning.FreshMap

/-!
# What every step respects

Addresses are used once, an object keeps its owner, a rep that has lost its functor never gets
another one, and a signal that nobody shares any more is never shared again.  `Extends` states
these facts between two worlds, so that whoever was suspended in the first one can rely on them in
the second.
-/

namespace Sigc

open Reasoning Prog

variable {V : Type} {w w' w'' : World V}

/-! ## What may become of an object -/

def Trackable.Becomes (x y : Trackable) : Prop := x.dying = true → y.dying = true

def SlotRep.Becomes (x y : SlotRep) : Prop :=
  (y.call = true → x.call = true) ∧ (y.functor = none ∨ y.functor = x.functor)

/-- An element of a list keeps the rep that it has, and so does a slot under destruction. -/
def SlotBase.Becomes (x y : SlotBase) : Prop :=
  y.owner = x.owner ∧ (x.dying = true → y.dying = true ∧ y.rep = x.rep) ∧
    ∀ i r, x.owner = .list i → x.rep = some r → y.rep = some r

def WeakRawPtr.Becomes (x y : WeakRawPtr) : Prop := y.notifier = x.notifier

def SignalImpl.Becomes (_ _ : SignalImpl) : Prop := True

instance : Std.Refl Trackable.Becomes := ⟨fun _ => id⟩
instance : Std.Refl SlotRep.Becomes := ⟨fun _ => ⟨id, .inr rfl⟩⟩
instance : Std.Refl SlotBase.Becomes := ⟨fun _ => ⟨rfl, fun h => ⟨h, rfl⟩, fun _ _ _ => id⟩⟩
instance : Std.Refl WeakRawPtr.Becomes := ⟨fun _ => rfl⟩
instance : Std.Refl SignalImpl.Becomes := ⟨fun _ => trivial⟩

instance : IsTrans Trackable Trackable.Becomes := ⟨fun _ _ _ h h' hx => h' (h hx)⟩

instance : IsTrans SlotRep SlotRep.Becomes where
  trans x y z h h' := by
    refine ⟨fun hz => h.1 (h'.1 hz), ?_⟩
    rcases h'.2 with hz | hz
    · exact .inl hz
    · rw [hz]
      exact h.2

instance : IsTrans SlotBase SlotBase.Becomes where
  trans x y z h h' := by
    refine ⟨h'.1.trans h.1, fun hx => ?_, fun i r hi hr => ?_⟩
    · obtain ⟨hy, hr⟩ := h.2.1 hx
      exact ⟨(h'.2.1 hy).1, (h'.2.1 hy).2.trans hr⟩
    · exact h'.2.2 i r (h.1.trans hi) (h.2.2 i r hi hr)

instance : IsTrans WeakRawPtr WeakRawPtr.Becomes := ⟨fun _ _ _ h h' => h'.trans h⟩
instance : IsTrans SignalImpl SignalImpl.Becomes := ⟨fun _ _ _ _ _ => trivial⟩

structure Extends (w w' : World V) : Prop where
  next : w.next ≤ w'.next
  trackables : Evolves Trackable.Becomes w.next w'.next w.trackables w'.trackables
  reps : Evolves SlotRep.Becomes w.next w'.next w.reps w'.reps
  slots : Evolves SlotBase.Becomes w.next w'.next (fun a => w.slots (.object a))
    (fun a => w'.slots (.object a))
  impls : Evolves SignalImpl.Becomes w.next w'.next w.impls w'.impls
  records : Evolves Eq w.next w'.next w.records w'.records
  weaks : Evolves WeakRawPtr.Becomes w.next w'.next w.weaks w'.weaks
  /-- a rep is not destroyed before its base -/
  bases : ∀ r < w.next, ∀ rep, w.reps r = some rep →
    (∃ rep', w'.reps r = some rep') ∨ w'.trackables r = none
  unowned : ∀ i < w.next, w.owned i = false → w'.owned i = false
  log : w.log <:+ w'.log

namespace Extends

theorem refl (w : World V) : Extends w w where
  next := Nat.le_refl _
  trackables := .refl _ _ _
  reps := .refl _ _ _
  slots := .refl _ _ _
  impls := .refl _ _ _
  records := .refl _ _ _
  weaks := .refl _ _ _
  bases _ _ rep h := .inl ⟨rep, h⟩
  unowned _ _ h := h
  log := List.suffix_rfl

theorem trans (h : Extends w w') (h' : Extends w' w'') : Extends w w'' where
  next := Nat.le_trans h.next h'.next
  trackables := h.trackables.trans h.next h'.next h'.trackables
  reps := h.reps.trans h.next h'.next h'.reps
  slots := h.slots.trans h.next h'.next h'.slots
  impls := h.impls.trans h.next h'.next h'.impls
  records := h.records.trans h.next h'.next h'.records
  weaks := h.weaks.trans h.next h'.next h'.weaks
  bases r hr rep hrep := by
    have hr' := Nat.lt_of_lt_of_le hr h.next
    -- A base that has gone does not come back at the same address.
    rcases h.bases r hr rep hrep with ⟨rep', hrep'⟩ | hnone
    · exact h'.bases r hr' rep' hrep'
    · exact .inr (h'.trackables.eq_none hr' hnone)
  unowned i hi ho := h'.unowned i (Nat.lt_of_lt_of_le hi h.next) (h.unowned i hi ho)
  log := h.log.trans h'.log

theorem gutted (h : Extends w w') {r : Addr} (hr : r < w.next) (hg : w.Gutted r) :
    w'.Gutted r := by
  intro rep' hrep'
  obtain ⟨rep, hrep, hcall, hfunctor⟩ := h.reps.old hr hrep'
  obtain ⟨hcall', hfunctor'⟩ := hg rep hrep
  -- call_ is not set again, and a functor that has gone stays gone.
  refine ⟨?_, ?_⟩
  · by_contra hc
    rw [hcall (by simpa using hc)] at hcall'
    cases hcall'
  · rcases hfunctor with hf | hf
    · exact hf
    · rw [hf, hfunctor']

theorem functorOk (h : Extends w w') {f : Functor} (hf : w.FunctorOk f) : w'.FunctorOk f where
  slot s hs := by
    obtain ⟨a, rfl, ha, howner⟩ := hf.slot s hs
    refine ⟨a, rfl, Nat.lt_of_lt_of_le ha h.next, fun sl' hsl' => ?_⟩
    obtain ⟨sl, hsl, hb⟩ := h.slots.old ha hsl'
    exact hb.1.trans (howner sl hsl)
  trackable t ht := by
    obtain ⟨hlt, hnone⟩ := hf.trackable t ht
    exact ⟨Nat.lt_of_lt_of_le hlt h.next, h.reps.eq_none hlt hnone⟩

end Extends

/-! ## Callbacks of reps -/

/-- Only weak pointers are registered with this trackable. -/
def Trackable.WeakOnly (tr : Trackable) : Prop :=
  ∀ cb ∈ tr.callbacks.callbacks, cb.func = none ∨ cb.func = some .notifyObjectInvalidated

/-- `remove_callback` leaves callbacks that were there, or makes them inactive. -/
theorem TrackableCallbackList.mem_removeFirst {clearing : Bool} {data : Addr}
    {cb : TrackableCallback} {l : List TrackableCallback}
    (h : cb ∈ removeFirst clearing data l) : cb ∈ l ∨ cb.func = none := by
  induction l with
  | nil => cases h
  | cons x xs ih =>
    unfold removeFirst at h
    -- While the list is cleared, the callback is nulled; otherwise it is erased.
    split at h
    · split at h
      · rcases List.mem_cons.mp h with rfl | hm
        · exact .inr rfl
        · exact .inl (List.mem_cons_of_mem x hm)
      · exact .inl (List.mem_cons_of_mem x h)
    · rcases List.mem_cons.mp h with rfl | hm
      · exact .inl List.mem_cons_self
      · exact (ih hm).imp_left (List.mem_cons_of_mem x)

namespace Trackable.WeakOnly

variable {tr : Trackable} {c : Addr}

theorem of_callbackList {tr' : Trackable} (h : tr.WeakOnly)
    (hl : tr'.callbacks.callbacks = tr.callbacks.callbacks) : tr'.WeakOnly := by
  unfold WeakOnly
  rwa [hl]

theorem empty (h : tr.callbackList = none) : tr.WeakOnly := by
  simp [WeakOnly, callbacks, h]

theorem addCallback (h : tr.WeakOnly) : (tr.addCallback c .notifyObjectInvalidated).WeakOnly := by
  intro cb hcb
  change cb ∈ ((tr.callbacks).addCallback c .notifyObjectInvalidated).callbacks at hcb
  unfold TrackableCallbackList.addCallback at hcb
  split at hcb
  · exact h cb hcb
  · rcases List.mem_append.mp hcb with hold | hnew
    · exact h cb hold
    · exact .inr (by rw [List.mem_singleton.mp hnew])

theorem removeCallback (h : tr.WeakOnly) : (tr.removeCallback c).WeakOnly := by
  intro cb hcb
  rcases TrackableCallbackList.mem_removeFirst hcb with hold | hnone
  · exact h cb hold
  · exact .inl hnone

end Trackable.WeakOnly

theorem Changed.weakOnly {g : Trackable → Trackable} {k : Addr → Nat}
    {old new : Addr → Option Trackable} (h : Changed g k old new)
    (hg : ∀ tr, tr.WeakOnly → (g tr).WeakOnly) {t : Addr} {tr' : Trackable}
    (ht : new t = some tr') (hold : ∀ tr, old t = some tr → tr.WeakOnly) : tr'.WeakOnly := by
  obtain ⟨tr, htr, hw⟩ := h.preserves (P := fun a b => a.WeakOnly → b.WeakOnly) (fun _ => id)
    (fun _ _ _ h h' ha => h' (h ha)) hg ht
  exact hw (hold tr htr)

theorem Changed.unchanged {g : Trackable → Trackable} {k : Addr → Nat}
    {old new : Addr → Option Trackable} (h : Changed g k old new) {t : Addr} (hk : k t = 0) :
    new t = old t := by
  rw [h t, hk]
  simp

/-! ## Well-addressed worlds -/

/-- The addresses in a frame have been used, and the targets of a functor under destruction can be
destroyed. -/
def Frame.Ok (w : World V) : Frame V → Prop
  | .emission e => e.impl < w.next
  | .sweep i _ _ | .erase i _ | .clear i _ _ _ _ | .holding i | .releasing i => i < w.next
  | .cleanup d => d < w.next
  | .notifying t _ deps => t < w.next ∧ ∀ d ∈ deps, d.rep < w.next
  | .invalidating r x | .checking _ r x => r < w.next ∧ x < w.next
  | .deleting r | .handler r => r < w.next
  | .assigning _ new => new < w.next
  | .functorDtor r rest => r < w.next ∧ w.Gutted r ∧ w.FunctorOk rest

/-- Every address in use is below `next`, and every functor is one that a slot may store. -/
structure WellAddressed (w : World V) : Prop where
  trackables : Below w.next w.trackables
  reps : Below w.next w.reps
  slots : Below w.next fun a => w.slots (.object a)
  impls : Below w.next w.impls
  records : Below w.next w.records
  weaks : Below w.next w.weaks
  slotRep : ∀ s sl r, w.slots s = some sl → sl.rep = some r → r < w.next
  placeholder : ∀ d sl, w.slots (.placeholder d) = some sl → sl.rep = none ∧ ∃ i, sl.owner = .list i
  handles : ∀ h ∈ w.handles, h.1 < w.next ∧ ∀ i, h.2 = some i → i < w.next
  recordSelf : ∀ d si, w.records d = some si → si.self < w.next
  functor : ∀ r rep f, w.reps r = some rep → rep.functor = some f → w.FunctorOk f
  weakOnly : ∀ r rep tr, w.reps r = some rep → w.trackables r = some tr → tr.WeakOnly
  frames : ∀ f ∈ w.frames, f.Ok w

theorem Extends.frameOk (h : Extends w w') {f : Frame V} (hf : f.Ok w) : f.Ok w' := by
  have hle {a : Addr} (ha : a < w.next) : a < w'.next := Nat.lt_of_lt_of_le ha h.next
  cases f with
  | functorDtor r rest => exact ⟨hle hf.1, h.gutted hf.1 hf.2.1, h.functorOk hf.2.2⟩
  | notifying t pos deps => exact ⟨hle hf.1, fun d hd => hle (hf.2 d hd)⟩
  | invalidating r x => exact ⟨hle hf.1, hle hf.2⟩
  | checking s r x => exact ⟨hle hf.1, hle hf.2⟩
  | _ => exact hle hf

/-! ## Shared pointers -/

theorem World.owned_iff {i : Addr} :
    w.owned i = true ↔ (∃ h, (h, some i) ∈ w.handles) ∨ ∃ f ∈ w.frames, f.owns i = true := by
  simp only [World.owned, Bool.or_eq_true, List.any_eq_true]
  refine or_congr ⟨?_, ?_⟩ Iff.rfl
  · rintro ⟨⟨h, o⟩, hm, ho⟩
    exact ⟨h, by simpa using (of_decide_eq_true ho) ▸ hm⟩
  · rintro ⟨h, hm⟩
    exact ⟨_, hm, by simp⟩

theorem World.mem_handles_of_implOf {h i : Addr} (hi : w.implOf h = some i) :
    (h, some i) ∈ w.handles := by
  unfold World.implOf at hi
  obtain ⟨o, ho, ho'⟩ : ∃ o, w.handles.lookup h = some o ∧ o = some i := by
    cases hl : w.handles.lookup h with
    | none => simp [hl] at hi
    | some o => exact ⟨o, rfl, by simpa [hl] using hi⟩
  obtain ⟨l₁, l₂, hl, -⟩ := List.lookup_eq_some_iff.mp ho
  rw [hl, ho']
  simp

theorem World.owned_of_implOf {h i : Addr} (hi : w.implOf h = some i) : w.owned i = true :=
  World.owned_iff.mpr (.inl ⟨h, World.mem_handles_of_implOf hi⟩)

theorem World.mem_setHandle {h : Addr} {i : Option Addr} {p : Addr × Option Addr}
    (hp : p ∈ (w.setHandle h i).handles) :
    p ∈ w.handles ∨ p = (h, i) ∧ ∃ j, (h, j) ∈ w.handles := by
  simp only [World.setHandle, List.mem_map] at hp
  obtain ⟨q, hq, rfl⟩ := hp
  split
  · rename_i hqh
    exact .inr ⟨rfl, q.2, hqh ▸ hq⟩
  · exact .inl hq

/-- Nothing is shared anew between `w` and `w'`. -/
theorem World.unowned_of {i : Addr} (h : w.owned i = false)
    (hh : ∀ k, (k, some i) ∈ w'.handles → w.owned i = true)
    (hf : ∀ f ∈ w'.frames, f.owns i = true → w.owned i = true) : w'.owned i = false := by
  rw [← Bool.not_eq_true] at h ⊢
  intro ho
  obtain ⟨k, hk⟩ | ⟨f, hfm, hfo⟩ := World.owned_iff.mp ho
  · exact h (hh k hk)
  · exact h (hf f hfm hfo)

theorem World.owned_of_handle {h i : Addr} (hm : (h, some i) ∈ w.handles) : w.owned i = true :=
  World.owned_iff.mpr (.inl ⟨h, hm⟩)

theorem World.owned_of_frame {f : Frame V} {i : Addr} (hm : f ∈ w.frames)
    (hf : f.owns i = true) : w.owned i = true :=
  World.owned_iff.mpr (.inr ⟨f, hm, hf⟩)

/-! ## Extensions of well-addressed worlds -/

/-- A world is well addressed if it extends one that is, and what is new in it is. -/
theorem Extends.wellAddressed (h : Extends w w') (hw : WellAddressed w)
    (slotRep : ∀ s sl, w'.slots s = some sl →
      w.slots s = some sl ∨ ∀ r, sl.rep = some r → r < w'.next)
    (placeholder : ∀ d sl, w'.slots (.placeholder d) = some sl →
      w.slots (.placeholder d) = some sl ∨ sl.rep = none ∧ ∃ i, sl.owner = .list i)
    (handles : ∀ h ∈ w'.handles, h ∈ w.handles ∨
      (h.1 < w'.next ∧ ∀ i, h.2 = some i → i < w'.next))
    (recordSelf : ∀ d si, w'.records d = some si → w.records d = some si ∨ si.self < w'.next)
    (functor : ∀ r rep, w'.reps r = some rep →
      r < w.next ∨ ∀ f, rep.functor = some f → w.FunctorOk f)
    (weakOnly : ∀ r rep tr, w'.reps r = some rep → w'.trackables r = some tr → tr.WeakOnly)
    (frames : ∀ f ∈ w'.frames, f ∈ w.frames ∨ f.Ok w') : WellAddressed w' where
  trackables := hw.trackables.evolves h.next h.trackables
  reps := hw.reps.evolves h.next h.reps
  slots := hw.slots.evolves h.next h.slots
  impls := hw.impls.evolves h.next h.impls
  records := hw.records.evolves h.next h.records
  weaks := hw.weaks.evolves h.next h.weaks
  -- In each field: what is old is addressed as before, what is new by hypothesis.
  slotRep s sl r hsl hr := by
    rcases slotRep s sl hsl with hold | hnew
    · exact Nat.lt_of_lt_of_le (hw.slotRep s sl r hold hr) h.next
    · exact hnew r hr
  placeholder d sl hsl := by
    rcases placeholder d sl hsl with hold | hnew
    · exact hw.placeholder d sl hold
    · exact hnew
  handles p hp := by
    rcases handles p hp with hold | hnew
    · obtain ⟨hlt, himpl⟩ := hw.handles p hold
      exact ⟨Nat.lt_of_lt_of_le hlt h.next, fun i hi => Nat.lt_of_lt_of_le (himpl i hi) h.next⟩
    · exact hnew
  recordSelf d si hd := by
    rcases recordSelf d si hd with hold | hnew
    · exact Nat.lt_of_lt_of_le (hw.recordSelf d si hold) h.next
    · exact hnew
  functor r rep f hrep hf := by
    rcases functor r rep hrep with hold | hnew
    · obtain ⟨rep₀, hrep₀, -, hnone | hsame⟩ := h.reps.old hold hrep
      · rw [hnone] at hf
        cases hf
      · exact h.functorOk (hw.functor r rep₀ f hrep₀ (hsame ▸ hf))
    · exact h.functorOk (hnew f hf)
  weakOnly := weakOnly
  frames f hf := by
    rcases frames f hf with hold | hnew
    · exact h.frameOk (hw.frames f hold)
    · exact hnew

/-- A step from a well-addressed world leads to `w'`. -/
structure Advances (w w' : World V) : Prop where
  extension : Extends w w'
  addressed : WellAddressed w'

theorem Advances.refl (hw : WellAddressed w) : Advances w w := ⟨.refl w, hw⟩

theorem Advances.trans (h : Advances w w') (h' : Advances w' w'') : Advances w w'' :=
  ⟨h.extension.trans h'.extension, h'.addressed⟩

/-! ## Changes to one part of the world -/

section Parts

variable {n : Addr}

/-- Slots, signals, records, handles and frames stay as they are. -/
theorem Advances.heap {tks : Addr → Option Trackable} {reps : Addr → Option SlotRep}
    {weaks : Addr → Option WeakRawPtr} {ign : List (Addr × Addr)} {log : List Event}
    {script : List (Cmd V)} (hw : WellAddressed w) (hn : w.next ≤ n)
    (htks : Evolves Trackable.Becomes w.next n w.trackables tks)
    (hreps : Evolves SlotRep.Becomes w.next n w.reps reps)
    (hweaks : Evolves WeakRawPtr.Becomes w.next n w.weaks weaks) (hlog : w.log <:+ log)
    (hf : ∀ r rep, reps r = some rep → r < w.next ∨ ∀ f, rep.functor = some f → w.FunctorOk f)
    (hwk : ∀ r rep tr, reps r = some rep → tks r = some tr → tr.WeakOnly)
    (hbases : ∀ r < w.next, ∀ rep, w.reps r = some rep →
      (∃ rep', reps r = some rep') ∨ tks r = none) :
    Advances w { w with next := n, trackables := tks, reps, weaks, ignored := ign, log, script } :=
  have h : Extends w
      { w with next := n, trackables := tks, reps, weaks, ignored := ign, log, script } :=
    { next := hn, trackables := htks, reps := hreps, slots := .refl _ _ _, impls := .refl _ _ _
      records := .refl _ _ _, weaks := hweaks, bases := hbases, unowned := fun _ _ ho => ho
      log := hlog }
  ⟨h, h.wellAddressed hw (fun _ _ => .inl) (fun _ _ => .inl) (fun _ => .inl) (fun _ _ => .inl) hf
    hwk (fun _ => .inl)⟩

theorem WellAddressed.oldReps (hw : WellAddressed w) {new : Addr → Option SlotRep}
    (h : Evolves SlotRep.Becomes w.next w.next w.reps new) {P : SlotRep → Prop} :
    ∀ r rep, new r = some rep → r < w.next ∨ P rep := by
  intro r rep hrep
  obtain ⟨hn, hlt⟩ | ⟨rep₀, hrep₀, -⟩ := h r rep hrep
  · exact .inl hlt
  · exact .inl (hw.reps r rep₀ hrep₀)

theorem Advances.trackables {tks : Addr → Option Trackable} {weaks : Addr → Option WeakRawPtr}
    {ign : List (Addr × Addr)} (hw : WellAddressed w) (hn : w.next ≤ n)
    (htks : Evolves Trackable.Becomes w.next n w.trackables tks)
    (hweaks : Evolves WeakRawPtr.Becomes w.next n w.weaks weaks)
    (hwk : ∀ r rep tr, w.reps r = some rep → tks r = some tr → tr.WeakOnly) :
    Advances w { w with next := n, trackables := tks, weaks, ignored := ign } :=
  .heap hw hn htks (.refl _ _ _) hweaks List.suffix_rfl (fun r rep h => .inl (hw.reps r rep h)) hwk
    fun _ _ rep h => .inl ⟨rep, h⟩

theorem Advances.reps {tks : Addr → Option Trackable} {reps : Addr → Option SlotRep}
    (hw : WellAddressed w)
    (htks : Evolves Trackable.Becomes w.next w.next w.trackables tks)
    (hreps : Evolves SlotRep.Becomes w.next w.next w.reps reps)
    (hwk : ∀ r rep tr, w.reps r = some rep → tks r = some tr → tr.WeakOnly)
    (hbases : ∀ r rep, w.reps r = some rep → (∃ rep', reps r = some rep') ∨ tks r = none) :
    Advances w { w with trackables := tks, reps } :=
  .heap hw (Nat.le_refl _) htks hreps (.refl _ _ _) List.suffix_rfl (hw.oldReps hreps)
    (fun r rep' tr hrep' htr => by
      obtain ⟨hn, hlt⟩ | ⟨rep, hrep, -⟩ := hreps r rep' hrep'
      · omega
      · exact hwk r rep tr hrep htr)
    fun r _ rep hrep => hbases r rep hrep

theorem Advances.record (hw : WellAddressed w) (e : Event) : Advances w (w.record e) :=
  .heap hw (Nat.le_refl _) (.refl _ _ _) (.refl _ _ _) (.refl _ _ _) (List.suffix_cons _ _)
    (fun r rep h => .inl (hw.reps r rep h)) hw.weakOnly fun _ _ rep h => .inl ⟨rep, h⟩

theorem Advances.setTrackable {t : Addr} {tr x : Trackable} (hw : WellAddressed w)
    (h : w.trackables t = some tr) (hb : Trackable.Becomes tr x)
    (hwk : tr.WeakOnly → x.WeakOnly) : Advances w (w.setTrackable t (some x)) :=
  .trackables hw (Nat.le_refl _) (.update h hb) (.refl _ _ _) fun r rep y hrep hx => by
    by_cases hr : r = t
    · subst hr
      rw [Function.update_self] at hx
      exact Option.some.inj hx ▸ hwk (hw.weakOnly r rep tr hrep h)
    · rw [Function.update_of_ne hr] at hx
      exact hw.weakOnly r rep y hrep hx

theorem Advances.setRep {r : Addr} {rep x : SlotRep} (hw : WellAddressed w)
    (h : w.reps r = some rep) (hb : SlotRep.Becomes rep x) :
    Advances w (w.setRep r (some x)) :=
  .reps hw (.refl _ _ _) (.update h hb) hw.weakOnly fun q rep hq => .inl <| by
    by_cases hqr : q = r
    · exact ⟨x, by simp [hqr]⟩
    · exact ⟨rep, by rwa [Function.update_of_ne hqr]⟩

theorem Advances.setRecords {rec : Addr → Option SelfAndIter} (hw : WellAddressed w)
    (hn : w.next ≤ n) (hrec : Evolves Eq w.next n w.records rec)
    (hself : ∀ d si, rec d = some si → w.records d = some si ∨ si.self < n) :
    Advances w { w with next := n, records := rec } :=
  have h : Extends w { w with next := n, records := rec } :=
    { next := hn, trackables := .refl _ _ _, reps := .refl _ _ _, slots := .refl _ _ _
      impls := .refl _ _ _, records := hrec, weaks := .refl _ _ _
      bases := fun _ _ rep h => .inl ⟨rep, h⟩, unowned := fun _ _ ho => ho
      log := List.suffix_rfl }
  ⟨h, h.wellAddressed hw (fun _ _ => .inl) (fun _ _ => .inl) (fun _ => .inl) hself
    (fun r rep hrep => .inl (hw.reps r rep hrep)) hw.weakOnly (fun _ => .inl)⟩

theorem Advances.sever {r : Addr} {rep : SlotRep} (hw : WellAddressed w)
    (h : w.reps r = some rep) : Advances w (w.sever r rep) :=
  have h₁ := Advances.setRep hw h (x := { rep with call := false, parent := none })
    ⟨by simp, .inr rfl⟩
  h₁.trans (.record h₁.addressed _)

theorem Advances.slots {slots : SlotAddr → Option SlotBase} (hw : WellAddressed w)
    (hn : w.next ≤ n)
    (hslots : Evolves SlotBase.Becomes w.next n (fun a => w.slots (.object a))
      (fun a => slots (.object a)))
    (slotRep : ∀ s sl, slots s = some sl → w.slots s = some sl ∨ ∀ r, sl.rep = some r → r < n)
    (placeholder : ∀ d sl, slots (.placeholder d) = some sl →
      w.slots (.placeholder d) = some sl ∨ sl.rep = none ∧ ∃ i, sl.owner = .list i) :
    Advances w { w with next := n, slots } :=
  have h : Extends w { w with next := n, slots } :=
    { next := hn, trackables := .refl _ _ _, reps := .refl _ _ _, slots := hslots
      impls := .refl _ _ _, records := .refl _ _ _, weaks := .refl _ _ _
      bases := fun _ _ rep h => .inl ⟨rep, h⟩, unowned := fun _ _ ho => ho
      log := List.suffix_rfl }
  ⟨h, h.wellAddressed hw slotRep placeholder (fun _ => .inl) (fun _ _ => .inl)
    (fun r rep hrep => .inl (hw.reps r rep hrep)) hw.weakOnly (fun _ => .inl)⟩

theorem Advances.signals {impls : Addr → Option SignalImpl}
    {handles : List (Addr × Option Addr)} (hw : WellAddressed w) (hn : w.next ≤ n)
    (himpls : Evolves SignalImpl.Becomes w.next n w.impls impls)
    (hhandles : ∀ h ∈ handles, h ∈ w.handles ∨
      (h.1 < n ∧ ∀ i, h.2 = some i → i < n ∧ (i < w.next → w.owned i = true))) :
    Advances w { w with next := n, impls, handles } :=
  have h : Extends w { w with next := n, impls, handles } :=
    { next := hn, trackables := .refl _ _ _, reps := .refl _ _ _, slots := .refl _ _ _
      impls := himpls, records := .refl _ _ _, weaks := .refl _ _ _
      bases := fun _ _ rep h => .inl ⟨rep, h⟩
      unowned := fun i hi ho => World.unowned_of ho
        (fun _ hk => (hhandles _ hk).elim World.owned_of_handle fun hnew => (hnew.2 i rfl).2 hi)
        (fun _ hf => World.owned_of_frame hf)
      log := List.suffix_rfl }
  ⟨h, h.wellAddressed hw (fun _ _ => .inl) (fun _ _ => .inl)
    (fun p hp => (hhandles p hp).imp_right fun hnew => ⟨hnew.1, fun i hi => (hnew.2 i hi).1⟩)
    (fun _ _ => .inl) (fun r rep hrep => .inl (hw.reps r rep hrep)) hw.weakOnly (fun _ => .inl)⟩

theorem Advances.setImpl {i : Addr} {x y : SignalImpl} (hw : WellAddressed w)
    (h : w.impls i = some x) : Advances w (w.setImpl i (some y)) :=
  .signals hw (Nat.le_refl _) (.update h trivial) fun _ => .inl

theorem Advances.setRecord (hw : WellAddressed w) (d : Addr) : Advances w (w.setRecord d none) :=
  .setRecords hw (Nat.le_refl _) (.erase _) fun k si hk => .inl <| by
    by_cases hkd : k = d
    · simp [hkd] at hk
    · rwa [Function.update_of_ne hkd] at hk

theorem Advances.handles {handles : List (Addr × Option Addr)} (hw : WellAddressed w)
    (hn : w.next ≤ n)
    (hhandles : ∀ h ∈ handles, h ∈ w.handles ∨
      (h.1 < n ∧ ∀ i, h.2 = some i → i < n ∧ (i < w.next → w.owned i = true))) :
    Advances w { w with next := n, handles } :=
  .signals hw hn (.refl _ _ _) hhandles

theorem Advances.frames {frames : List (Frame V)} {finished : List (Emission V × Bool)}
    (hw : WellAddressed w) (ho : ∀ f ∈ frames, ∀ i, f.owns i = true → w.owned i = true)
    (hf : ∀ f ∈ frames, f ∈ w.frames ∨ f.Ok w) : Advances w { w with frames, finished } :=
  have h : Extends w { w with frames, finished } :=
    { Extends.refl w with
      unowned := fun i _ hi => World.unowned_of hi (fun _ hk => World.owned_of_handle (w := w) hk)
        fun f hf => ho f hf i }
  ⟨h, h.wellAddressed hw (fun _ _ => .inl) (fun _ _ => .inl) (fun _ => .inl) (fun _ _ => .inl)
    (fun r rep hrep => .inl (hw.reps r rep hrep)) hw.weakOnly
      fun f hm => (hf f hm).imp_right h.frameOk⟩

/-- A frame is pushed, which may only share a signal that is shared already. -/
theorem Advances.push {f : Frame V} (hw : WellAddressed w) (hf : f.Ok w)
    (ho : ∀ i, f.owns i = true → w.owned i = true) : Advances w (w.push f) :=
  .frames hw
    (fun _ hg => (List.mem_cons.mp hg).elim (fun h => h ▸ ho) fun hg _ => World.owned_of_frame hg)
    (fun _ hg => (List.mem_cons.mp hg).elim (fun h => .inr (h ▸ hf)) .inl)

theorem Advances.pop (hw : WellAddressed w) : Advances w w.pop :=
  .frames hw (fun _ hg _ => World.owned_of_frame (List.mem_of_mem_tail hg))
    (fun _ hg => .inl (List.mem_of_mem_tail hg))

theorem Advances.setTop {f : Frame V} (hw : WellAddressed w) (hf : f.Ok w)
    (ho : ∀ i, f.owns i = true → w.owned i = true) : Advances w (w.setTop f) :=
  .frames hw
    (fun _ hg => (List.mem_cons.mp hg).elim (fun h => h ▸ ho) fun hg _ =>
      World.owned_of_frame (List.mem_of_mem_tail hg))
    (fun _ hg => (List.mem_cons.mp hg).elim (fun h => .inr (h ▸ hf)) fun hg =>
      .inl (List.mem_of_mem_tail hg))

end Parts

/-! ## Functions -/

theorem Changed.evolves {n n' : Addr} {g : Trackable → Trackable} {k : Addr → Nat}
    {old new : Addr → Option Trackable} (h : Changed g k old new)
    (hg : ∀ tr, (g tr).dying = tr.dying) : Evolves Trackable.Becomes n n' old new :=
  fun _ _ ht => .inr (h.preserves (fun _ => id) (fun _ _ _ h h' hd => h' (h hd))
    (fun tr hd => (hg tr).trans hd) ht)

section Reps

variable {n n' r : Addr} {f : Functor} {slots : SlotAddr → Option SlotBase}
  {old new : Addr → Option SlotRep}

theorem RepsBound.evolves (h : RepsBound slots r f old new) :
    Evolves SlotRep.Becomes n n' old new := by
  intro q rep' hrep'
  rcases h q with hq | ⟨_, _, rep, _, _, _, hrep, _, hq⟩
  · exact .inr ⟨rep', hq ▸ hrep', Std.Refl.refl _⟩
  · rw [hq] at hrep'
    obtain rfl := Option.some.inj hrep'
    exact .inr ⟨rep, hrep, id, .inr rfl⟩

theorem RepsBound.alive (h : RepsBound slots r f old new) {q : Addr} {rep : SlotRep}
    (hq : old q = some rep) : ∃ rep', new q = some rep' := by
  rcases h q with hsame | ⟨_, _, rep', _, _, _, _, _, hnew⟩
  · exact ⟨rep, hsame.trans hq⟩
  · exact ⟨_, hnew⟩

theorem RepsBound.none_iff (h : RepsBound slots r f old new) (q : Addr) :
    new q = none ↔ old q = none := by
  obtain hq | ⟨_, _, rep, -, -, -, hold, -, hnew⟩ := h q
  · rw [hq]
  · simp [hold, hnew]

theorem RepsUnbound.none_iff (h : RepsUnbound slots r f old new) (q : Addr) :
    new q = none ↔ old q = none := by
  obtain hq | ⟨_, _, rep, -, -, -, hold, -, hnew⟩ := h q
  · rw [hq]
  · simp [hold, hnew]

theorem RepsUnbound.alive (h : RepsUnbound slots r f old new) {q : Addr} {rep : SlotRep}
    (hq : old q = some rep) : ∃ rep', new q = some rep' := by
  rcases h q with hsame | ⟨_, _, rep', _, _, _, _, _, hnew⟩
  · exact ⟨rep, hsame.trans hq⟩
  · exact ⟨_, hnew⟩

theorem RepsUnbound.evolves (h : RepsUnbound slots r f old new) :
    Evolves SlotRep.Becomes n n' old new := by
  intro q rep' hrep'
  rcases h q with hq | ⟨_, _, rep, _, _, _, hrep, _, hq⟩
  · exact .inr ⟨rep', hq ▸ hrep', Std.Refl.refl _⟩
  · rw [hq] at hrep'
    obtain rfl := Option.some.inj hrep'
    exact .inr ⟨rep, hrep, id, .inr rfl⟩

end Reps

theorem RepConstructed.trackables_evolve {f : Functor} {tks : Addr → Option Trackable}
    {ign : List (Addr × Addr)} {rps : Addr → Option SlotRep} {n' : Addr}
    (h : RepConstructed w f tks ign rps) (hn : w.next < n') :
    Evolves Trackable.Becomes w.next n' w.trackables tks :=
  (Evolves.create (Nat.le_refl _) hn).trans (Nat.le_of_lt hn) (Nat.le_refl _)
    (h.registered.changed.evolves fun _ => rfl)

theorem RepConstructed.reps_evolve {f : Functor} {tks : Addr → Option Trackable}
    {ign : List (Addr × Addr)} {rps : Addr → Option SlotRep} {n' : Addr}
    (h : RepConstructed w f tks ign rps) (hn : w.next < n') :
    Evolves SlotRep.Becomes w.next n' w.reps rps :=
  (Evolves.create (Nat.le_refl _) hn).trans (Nat.le_of_lt hn) (Nat.le_refl _) h.bound.evolves

/-- The new rep holds the functor it was constructed for; the others are older. -/
theorem RepConstructed.functor {f : Functor} {tks : Addr → Option Trackable}
    {ign : List (Addr × Addr)} {rps : Addr → Option SlotRep} (h : RepConstructed w f tks ign rps)
    (hw : WellAddressed w) {r : Addr} {rep : SlotRep} (hrep : rps r = some rep) :
    r < w.next ∨ rep.functor = some f := by
  have hold {rep₀} (hrep₀ : Function.update w.reps w.next (some { call := true, functor := some f })
      r = some rep₀) (hf : rep.functor = rep₀.functor) : r < w.next ∨ rep.functor = some f := by
    by_cases hr : r = w.next
    · subst hr
      rw [Function.update_self] at hrep₀
      exact .inr (hf.trans (congrArg SlotRep.functor (Option.some.inj hrep₀).symm))
    · rw [Function.update_of_ne hr] at hrep₀
      exact .inl (hw.reps r rep₀ hrep₀)
  rcases h.bound r with hr | ⟨_, _, rep₀, _, _, _, hrep₀, _, hr⟩
  · exact hold (hr ▸ hrep) rfl
  · rw [hr] at hrep
    exact hold hrep₀ (by rw [← Option.some.inj hrep])

section Slots

variable {n n' : Addr} {slots : SlotAddr → Option SlotBase} {s : SlotAddr} {sl sl' : SlotBase}

theorem slots_update (h : slots s = some sl) (hb : SlotBase.Becomes sl sl') :
    Evolves SlotBase.Becomes n n' (fun a => slots (.object a))
      (fun a => Function.update slots s (some sl') (.object a)) := by
  intro a y hy
  by_cases ha : SlotAddr.object a = s
  · subst ha
    simp only [Function.update_self, Option.some.injEq] at hy
    exact .inr ⟨sl, h, hy ▸ hb⟩
  · simp only [Function.update_of_ne ha] at hy
    exact .inr ⟨y, hy, Std.Refl.refl _⟩

theorem slots_erase : Evolves SlotBase.Becomes n n' (fun a => slots (.object a))
    (fun a => Function.update slots s none (.object a)) := by
  intro a y hy
  by_cases ha : SlotAddr.object a = s
  · subst ha
    simp at hy
  · simp only [Function.update_of_ne ha] at hy
    exact .inr ⟨y, hy, Std.Refl.refl _⟩

theorem slots_create {a : Addr} (ha : n ≤ a) (ha' : a < n') :
    Evolves SlotBase.Becomes n n' (fun a => slots (.object a))
      (fun b => Function.update slots (.object a) (some sl') (.object b)) := by
  intro b y hy
  by_cases hb : b = a
  · exact .inl ⟨hb ▸ ha, hb ▸ ha'⟩
  · have hne : SlotAddr.object b ≠ .object a := by simpa using hb
    simp only [Function.update_of_ne hne] at hy
    exact .inr ⟨y, hy, Std.Refl.refl _⟩

theorem slots_placeholder (d : Nat) {x : Option SlotBase} :
    (fun a => Function.update slots (.placeholder d) x (.object a)) =
      fun a => slots (.object a) := by
  funext a
  simp [Function.update]

theorem slotRep_update {P : Prop} (h : ∀ r, sl'.rep = some r → r < n') {s' : SlotAddr}
    {y : SlotBase} (hy : Function.update slots s (some sl') s' = some y)
    (hold : slots s' = some y → P) : P ∨ ∀ r, y.rep = some r → r < n' := by
  by_cases hs : s' = s
  · subst hs
    rw [Function.update_self] at hy
    exact .inr (Option.some.inj hy ▸ h)
  · rw [Function.update_of_ne hs] at hy
    exact .inl (hold hy)

end Slots

/-- A slot changes: a placeholder takes no rep. -/
theorem Advances.setSlot {s : SlotAddr} {sl x : SlotBase} (hw : WellAddressed w)
    (h : w.slots s = some sl) (hb : SlotBase.Becomes sl x)
    (hr : ∀ r, x.rep = some r → sl.rep = some r ∨ (r < w.next ∧ ∀ d, s ≠ .placeholder d)) :
    Advances w (w.setSlot s (some x)) := by
  refine .slots hw (Nat.le_refl _) (slots_update h hb) (fun s' y hy =>
    slotRep_update (fun r hs => (hr r hs).elim (hw.slotRep s sl r h) (·.1)) hy id)
    fun d y hy => ?_
  by_cases hs : SlotAddr.placeholder d = s
  · subst hs
    rw [Function.update_self] at hy
    obtain rfl := Option.some.inj hy
    obtain ⟨hrep, i, hi⟩ := hw.placeholder d sl h
    refine .inr ⟨?_, i, hb.1.trans hi⟩
    cases hsr : x.rep with
    | none => rfl
    | some r =>
      rcases hr r hsr with hold | ⟨-, hnot⟩
      · rw [hrep] at hold
        cases hold
      · exact absurd rfl (hnot d)
  · rw [Function.update_of_ne hs] at hy
    exact .inl hy

theorem Advances.eraseSlot (hw : WellAddressed w) (s : SlotAddr) :
    Advances w (w.setSlot s none) := by
  have hold {s' sl} (hs : Function.update w.slots s none s' = some sl) : w.slots s' = some sl := by
    by_cases hss : s' = s
    · simp [hss] at hs
    · rwa [Function.update_of_ne hss] at hs
  exact .slots hw (Nat.le_refl _) slots_erase (fun s' sl hs => .inl (hold hs))
    (fun d sl hs => .inl (hold hs))

theorem Advances.setPlaceholder (hw : WellAddressed w) (d : Nat) (i : Addr) :
    Advances w (w.setSlot (.placeholder d) (some { owner := .list i })) := by
  refine .slots hw (Nat.le_refl _) ?_ (fun s sl hs => slotRep_update (by simp) hs id)
    fun d' sl hs => ?_
  · rw [slots_placeholder]
    exact .refl _ _ _
  · by_cases hd : SlotAddr.placeholder d' = .placeholder d
    · rw [hd, Function.update_self] at hs
      obtain rfl := Option.some.inj hs
      exact .inr ⟨rfl, i, rfl⟩
    · rw [Function.update_of_ne hd] at hs
      exact .inl hs

theorem Advances.unlinkDying {i : Addr} {self y : SignalImpl} {n : SlotAddr} {sl : SlotBase}
    (hw : WellAddressed w) (h : w.impls i = some self) (hn : w.slots n = some sl) :
    Advances w (w.unlinkDying i y n sl) :=
  have h₁ := Advances.setImpl hw h
  h₁.trans (.setSlot h₁.addressed hn ⟨rfl, fun _ => ⟨rfl, rfl⟩, fun _ _ _ => id⟩ fun _ => .inl)

theorem WeakRawPtr.construct_advances {p : Option WeakTarget} {b : Bool} {c : Addr}
    (hw : WellAddressed w) (run : WeakRawPtr.construct p b w = (.ret c, w')) :
    Advances w w' := by
  obtain ⟨-, tks, ign, rfl, hreg⟩ := construct_effect run
  exact .trackables hw (Nat.le_succ _) (hreg.changed.evolves fun _ => rfl)
    (.create (Nat.le_refl _) (Nat.lt_succ_self _)) fun r rep tr hrep htr =>
      hreg.changed.weakOnly (fun _ => .addCallback) htr (hw.weakOnly r rep · hrep)

theorem WeakRawPtr.destroy_advances {c : Addr} (hw : WellAddressed w)
    (run : WeakRawPtr.destroy c w = (.ret (), w')) : Advances w w' := by
  obtain ⟨tks, _, -, rfl, hch⟩ := destroy_effect run
  exact .trackables hw (Nat.le_refl _) (hch.evolves fun _ => rfl) (.erase _)
    fun r rep tr hrep htr => hch.weakOnly (fun _ => .removeCallback) htr (hw.weakOnly r rep · hrep)

theorem SlotRep.construct_advances {f : Functor} {r : Addr} (hw : WellAddressed w)
    (functor : w.FunctorOk f) (run : SlotRep.construct f w = (.ret r, w')) : Advances w w' := by
  obtain ⟨rfl, tks, ign, rps, rfl, hcons⟩ := construct_effect run
  have hn : w.next < w.next + 1 := Nat.lt_succ_self _
  refine .heap hw (Nat.le_succ _) (hcons.trackables_evolve hn) (hcons.reps_evolve hn)
    (.refl _ _ _) List.suffix_rfl (fun r rep hrep => ?_) (fun r rep tr hrep htr => ?_)
    fun r hr rep hrep => .inl (hcons.bound.alive
      ((Function.update_of_ne (Nat.ne_of_lt hr) _ _).trans hrep))
  · refine (hcons.functor hw hrep).imp_right fun hr f' hf' => ?_
    obtain rfl := Option.some.inj (hr.symm.trans hf')
    exact functor
  · have hcount : f.count (.trackable r) = 0 := by
      refine List.count_eq_zero.mpr fun hm => ?_
      obtain ⟨hlt, hnone⟩ := functor.trackable r hm
      obtain ⟨hle, -⟩ | ⟨rep₀, hrep₀, -⟩ := hcons.reps_evolve hn r rep hrep
      · exact absurd hlt (Nat.not_lt.mpr hle)
      · rw [hnone] at hrep₀
        cases hrep₀
    rw [hcons.registered.changed.unchanged hcount] at htr
    by_cases hr : r = w.next
    · subst hr
      rw [Function.update_self] at htr
      exact .empty (by rw [← Option.some.inj htr])
    · rw [Function.update_of_ne hr] at htr
      obtain ⟨hle, hlt⟩ | ⟨rep₀, hrep₀, -⟩ := hcons.reps_evolve hn r rep hrep
      · exact absurd (Nat.le_antisymm (Nat.le_of_lt_succ hlt) hle) hr
      · exact hw.weakOnly r rep₀ tr hrep₀ htr

theorem SlotRep.detachFunctor_advances {r : Addr} {fo : Option Functor} (hw : WellAddressed w)
    (run : SlotRep.detachFunctor r w = (.ret fo, w')) : Advances w w' := by
  obtain ⟨rep, tks, rps, hrep, -, rfl, hch, rps₁, rep', hun, hrep', rfl⟩ :=
    detachFunctor_effect run
  have hcall : Evolves SlotRep.Becomes w.next w.next w.reps
      (Function.update w.reps r (some { rep with call := false })) :=
    .update hrep ⟨by simp, .inr rfl⟩
  have hdetached : Evolves SlotRep.Becomes w.next w.next rps₁
      (Function.update rps₁ r (some { rep' with functor := none })) :=
    .update hrep' ⟨id, .inl rfl⟩
  refine .reps hw (hch.evolves fun _ => rfl) ((hcall.trans (Nat.le_refl _) (Nat.le_refl _)
    hun.evolves).trans (Nat.le_refl _) (Nat.le_refl _) hdetached) (fun r rep tr hrep htr => ?_)
    fun q rep₀ hq => .inl ?_
  · exact hch.weakOnly (fun _ => .removeCallback) htr (hw.weakOnly r rep · hrep)
  · by_cases hqr : q = r
    · exact ⟨{ rep' with functor := none }, by simp [hqr]⟩
    · rw [Function.update_of_ne hqr]
      exact hun.alive ((Function.update_of_ne hqr _ _).trans hq)

theorem SlotBase.new_advances {sl : SlotBase} {s : SlotAddr} (hw : WellAddressed w)
    (hr : ∀ r, sl.rep = some r → r < w.next) (run : SlotBase.new sl w = (.ret s, w')) :
    Advances w w' := by
  obtain ⟨rfl, rfl⟩ := new_effect run
  exact .slots hw (Nat.le_succ _) (slots_create (Nat.le_refl _) (Nat.lt_succ_self _))
    (fun s' y hy => slotRep_update (fun r hs => Nat.lt_succ_of_lt (hr r hs)) hy id)
    (fun d y hy => .inl hy)

theorem SlotBase.construct_advances {owner : Owner} {init : SlotInit} {s : SlotAddr}
    (hw : WellAddressed w) (functor : ∀ f, init.functor = some f → w.FunctorOk f)
    (run : SlotBase.construct owner init w = (.ret s, w')) : Advances w w' := by
  unfold SlotBase.construct at run
  cases hf : init.functor with
  | none =>
    simp only [hf] at run
    exact new_advances hw (by simp) run
  | some f =>
    simp only [hf, bind_eq_ret] at run
    obtain ⟨r, _, hrep, hnew⟩ := run
    have h₁ := SlotRep.construct_advances hw (functor f hf) hrep
    refine h₁.trans (new_advances h₁.addressed ?_ hnew)
    obtain ⟨rfl, tks, ign, rps, rfl, -⟩ := SlotRep.construct_effect hrep
    rintro _ ⟨⟩
    exact Nat.lt_succ_self _

theorem SlotBase.takeRep_advances {owner : Owner} {src s : SlotAddr} {blocked : Bool}
    (hw : WellAddressed w) (source : ¬w.Listed src)
    (run : SlotBase.takeRep owner src blocked w = (.ret s, w')) : Advances w w' := by
  unfold SlotBase.takeRep at run
  simp only [bind_eq_ret, loadIntact_eq_ret, modify_eq_ret] at run
  obtain ⟨sl, _, ⟨⟨hsl, hd⟩, rfl⟩, _, _, rfl, hnew⟩ := run
  have hb : SlotBase.Becomes sl { sl with rep := none, blocked := false } :=
    ⟨rfl, fun h => by simp [hd] at h, fun i _ hi => absurd ⟨sl, i, hsl, hi⟩ source⟩
  have h₁ := Advances.setSlot hw hsl hb (by simp)
  refine h₁.trans (new_advances h₁.addressed ?_ hnew)
  exact fun r hr => hw.slotRep src sl r hsl hr

/-- Passing the parent on changes neither a functor nor `call_`. -/
theorem SlotBase.passParent_advances {new : Addr} {old : Option Addr} (hw : WellAddressed w)
    (run : SlotBase.passParent new old w = (.ret (), w')) : Advances w w' := by
  obtain ⟨-, rfl⟩ | ⟨r, oldRep, newRep, -, -, hnew, rfl⟩ := passParent_effect run
  · exact .refl hw
  · exact .setRep hw hnew ⟨id, .inr rfl⟩

theorem SlotBase.cloneFor_advances {dst : SlotAddr} {f : Functor} {new : Addr}
    (hw : WellAddressed w) (functor : w.FunctorOk f)
    (run : SlotBase.cloneFor dst f w = (.ret new, w')) : Advances w w' := by
  unfold SlotBase.cloneFor loadSlot at run
  simp only [bind_eq_ret, deref_eq_ret, modify_eq_ret, pure_eq_ret] at run
  obtain ⟨r, w₁, hrep, sl, _, ⟨hsl, rfl⟩, _, w₂, hpass, _, _, rfl, rfl, rfl⟩ := run
  have h₁ := SlotRep.construct_advances hw functor hrep
  have h₂ := passParent_advances h₁.addressed hpass
  have hlt : r < w₂.next := by
    obtain ⟨rfl, tks, ign, rps, rfl, -⟩ := SlotRep.construct_effect hrep
    exact Nat.lt_of_lt_of_le (Nat.lt_succ_self _) h₂.extension.next
  exact (h₁.trans h₂).trans (.push h₂.addressed hlt (by simp [Frame.owns]))

theorem SlotBase.moveFor_advances {dst src : SlotAddr} {new : Addr} (hw : WellAddressed w)
    (source : ¬w.Listed src) (run : SlotBase.moveFor dst src w = (.ret new, w')) :
    Advances w w' := by
  obtain ⟨from_, sl, w₁, ⟨hfrom, hd⟩, hnew, -, hpass, rfl⟩ := moveFor_effect run
  have hb : SlotBase.Becomes from_ { from_ with rep := none, blocked := false } :=
    ⟨rfl, fun h => by simp [hd] at h, fun i _ hi => absurd ⟨from_, i, hfrom, hi⟩ source⟩
  have h₁ := Advances.setSlot hw hfrom hb (by simp)
  have h₂ := passParent_advances h₁.addressed hpass
  have hlt : new < w₁.next :=
    Nat.lt_of_lt_of_le (hw.slotRep src from_ new hfrom hnew) h₂.extension.next
  exact (h₁.trans h₂).trans (.push h₂.addressed hlt (by simp [Frame.owns]))

theorem SignalImpl.enterSweep_advances {i : Addr} {it : Option SlotAddr} (hw : WellAddressed w)
    (owned : w.owned i = true) (run : SignalImpl.enterSweep i w = (.ret it, w')) :
    Advances w w' := by
  obtain ⟨self, himpl, rfl, rfl⟩ := enterSweep_effect run
  have h₁ := Advances.setImpl hw himpl (y := { self with
    execCount := self.execCount + 1, deferred := false })
  refine h₁.trans (.push h₁.addressed (hw.impls i self himpl) fun j hj => ?_)
  obtain rfl : i = j := of_decide_eq_true hj
  exact owned

theorem SignalImpl.enterClear_advances {i : Addr} {o : Bool × Bool × Option SlotAddr}
    (hw : WellAddressed w) (run : SignalImpl.enterClear i w = (.ret o, w')) :
    Advances w w' := by
  obtain ⟨self, himpl, -, -, -, -, rfl⟩ := enterClear_effect run
  have h₁ := Advances.setImpl hw himpl (y := { self with execCount := self.execCount + 1 })
  exact h₁.trans (.push h₁.addressed (hw.impls i self himpl) (by simp [Frame.owns]))

theorem World.letGo_advances {i : Addr} (hw : WellAddressed w) (hi : i < w.next) :
    Advances w (w.letGo i) := by
  unfold World.letGo
  split
  · exact .push hw hi (by simp [Frame.owns])
  · have h₁ := Advances.record hw (.expired i (w.frames.any (Frame.execOn i)))
    exact h₁.trans (.push h₁.addressed hi (by simp [Frame.owns]))

end Sigc
