import Sigc.ClientRuns
import Sigc.WatchSteps

/-!
# Connections to slots

A connection never uses a slot that has been destroyed, as long as it can be registered with the
rep of the slot.  A slot without a rep ignores the registration.
-/

namespace Sigc

open Reasoning Prog

variable {V : Type} {w w' : World V} {c r : Addr} {s : SlotAddr} {self : WeakRawPtr} {sl : SlotBase}
  {rep : SlotRep}

/-! ## What a connection to a living slot does -/

namespace Connection

theorem empty_ret (weak : w.weaks c = some self) (ptr : self.ptr = some (.slot s))
    (slot : w.slots s = some sl) (hr : sl.rep = some r) (alive : w.reps r = some rep) :
    empty c w = (.ret (!rep.call), w) := by
  have hweak : loadWeak c w = (.ret self, w) := deref_eq_ret.mpr ⟨weak, rfl⟩
  have hslot : loadSlot s w = (.ret sl, w) := deref_eq_ret.mpr ⟨slot, rfl⟩
  have hrep : loadRep r w = (.ret rep, w) := deref_eq_ret.mpr ⟨alive, rfl⟩
  unfold empty
  rw [bind_of_ret hweak, ptr]
  change SlotBase.empty s w = _
  unfold SlotBase.empty
  rw [bind_of_ret hslot, hr]
  exact bind_of_ret hrep

theorem block_ret (weak : w.weaks c = some self) (ptr : self.ptr = some (.slot s))
    (slot : w.slots s = some sl) (b : Bool) :
    block c b w = (.ret (), w.setSlot s (some { sl with blocked := b })) := by
  have hweak : loadWeak c w = (.ret self, w) := deref_eq_ret.mpr ⟨weak, rfl⟩
  have hslot : loadSlot s w = (.ret sl, w) := deref_eq_ret.mpr ⟨slot, rfl⟩
  unfold block
  rw [bind_of_ret hweak, ptr]
  change SlotBase.block s b w = _
  unfold SlotBase.block
  rw [bind_of_ret hslot]
  rfl

theorem disconnect_run (weak : w.weaks c = some self) (ptr : self.ptr = some (.slot s))
    (slot : w.slots s = some sl) (hr : sl.rep = some r) (u : Env V) :
    disconnect u c w =
      SlotRep.disconnect u (SignalImpl.notifySelfAndIterOfInvalidatedSlot u) r w := by
  have hweak : loadWeak c w = (.ret self, w) := deref_eq_ret.mpr ⟨weak, rfl⟩
  have hslot : loadSlot s w = (.ret sl, w) := deref_eq_ret.mpr ⟨slot, rfl⟩
  unfold disconnect
  rw [bind_of_ret hweak, ptr]
  change SlotBase.disconnect u _ s w = _
  unfold SlotBase.disconnect
  rw [bind_of_ret hslot, hr]

end Connection

/-! ## Connections do not dangle -/

/-- The connection `c` points to the slot `s`, which is alive and has a rep that is alive: what the
connection is asked for is asked of them. -/
def World.PointsTo (w : World V) (c : Addr) (s : SlotAddr) : Prop :=
  ∃ sl r rep, w.slots s = some sl ∧ sl.rep = some r ∧ w.reps r = some rep ∧
    Connection.empty c w = (.ret (!rep.call), w) ∧
    (∀ b, Connection.block c b w = (.ret (), w.setSlot s (some { sl with blocked := b }))) ∧
    ∀ u, Connection.disconnect u c w =
      SlotRep.disconnect u (SignalImpl.notifySelfAndIterOfInvalidatedSlot u) r w

theorem World.Watched.pointsTo (h : w.Watched) (weak : w.weaks c = some self)
    (ptr : self.ptr = some (.slot s)) (regular : Regular w.log s) : w.PointsTo c s := by
  obtain ⟨sl, r, hsl, hr, hwatch⟩ := h.tracked c self s weak ptr regular
  obtain ⟨rep, hrep⟩ := Watching.rep_of_watches h hsl hr hwatch
  exact ⟨sl, r, rep, hsl, hr, hrep, Connection.empty_ret weak ptr hsl hr hrep,
    Connection.block_ret weak ptr hsl, Connection.disconnect_run weak ptr hsl hr⟩

/-- In every state of every run, a connection that is not null points to a living slot, if every
connection to this slot was built when it had a rep, and the slot has not been given another rep
while the one it had was alive. -/
theorem Reachable.connection_points [Inhabited V] (h : Reachable w) (weak : w.weaks c = some self)
    (ptr : self.ptr = some (.slot s)) (regular : Regular w.log s) : w.PointsTo c s := by
  obtain ⟨script, hs, -⟩ := h.steps
  exact (hs.watched (.initial script) (.initial script)).pointsTo weak ptr regular

/-- A connection to a slot constructed from a functor. -/
theorem connection_points_made :
    ((run 20 [.makeSlot [], .connectionOf (.object 1)]).2 : World Unit).PointsTo 2 (.object 1) := by
  have h : Reachable (run (V := Unit) 20 [.makeSlot [], .connectionOf (.object 1)]).2 :=
    .of_run (by decide +kernel)
  have weak : (run (V := Unit) 20 [.makeSlot [], .connectionOf (.object 1)]).2.weaks 2 =
      some { ptr := some (.slot (.object 1)) } := by decide +kernel
  exact h.connection_points weak rfl ⟨by decide +kernel, by decide +kernel⟩

/-- A connection to a slot without a rep keeps pointing to it when it is destroyed. -/
theorem connection_to_unregistered_dangles :
    ∃ (w : World Unit) (c : Addr) (self : WeakRawPtr) (s : SlotAddr), Reachable w ∧
      w.weaks c = some self ∧ self.ptr = some (.slot s) ∧ w.slots s = none :=
  ⟨(run 20 [.newSlot, .connectionOf (.object 0), .destroySlot (.object 0)]).2, 1,
    { ptr := some (.slot (.object 0)) }, .object 0, .of_run (by decide +kernel),
    by decide +kernel, rfl, by decide +kernel⟩

end Sigc
