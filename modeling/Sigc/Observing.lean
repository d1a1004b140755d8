import Sigc.Connections
import Sigc.Observers
import Sigc.Guarantees

/-!
# What connections and signals tell of their slots

A connection and its signal agree on which slots are connected, and blocking a signal blocks each
of the slots that it has then.
-/

namespace Sigc

open Reasoning Prog

variable {V : Type} {w w' : World V} {c h i r : Addr} {n : SlotAddr} {self : WeakRawPtr}
  {impl : SignalImpl} {script : List (Cmd V)}

/-! ## Connections -/

/-- The rep in an element of the list can be called just where it is one of those that have been
connected and not disconnected since. -/
theorem World.Tracked.call_iff (ht : w.Tracked i) (himpl : w.impls i = some impl)
    (hn : n ∈ impl.slots) {sl : SlotBase} {rep : SlotRep} (hsl : w.slots n = some sl)
    (hr : sl.rep = some r) (hrep : w.reps r = some rep) :
    rep.call = true ↔ r ∈ w.subscribed i := by
  rw [← ht.register, World.callables, himpl]
  show _ ↔ r ∈ impl.slots.filterMap w.live
  rw [List.mem_filterMap]
  constructor
  · intro hcall
    exact ⟨n, hn, World.live_eq_some.mpr ⟨sl, rep, hsl, hr, hrep, hcall⟩⟩
  · rintro ⟨m, -, hlive⟩
    obtain ⟨-, q, -, -, hq, hcall⟩ := World.live_eq_some.mp hlive
    rw [hrep] at hq
    rwa [Option.some.inj hq]

/-- A connection to a slot of the signal answers that it is connected just where the slot has not
been disconnected since `connect()`. -/
theorem Steps.connected_subscribed (h : Steps ({ script } : World V) w) (hs : w.Shallow i)
    (weak : w.weaks c = some self) (ptr : self.ptr = some (.slot n)) (regular : Regular w.log n)
    (himpl : w.impls i = some impl) (hn : n ∈ impl.slots) :
    ∃ sl r, w.slots n = some sl ∧ sl.rep = some r ∧
      Connection.connected c w = (.ret (decide (r ∈ w.subscribed i)), w) := by
  have ht := h.tracked_initial hs
  obtain ⟨sl, r, rep, hsl, hr, hrep, hempty, -⟩ :=
    (h.watched (.initial script) (.initial script)).pointsTo weak ptr regular
  refine ⟨sl, r, hsl, hr, ?_⟩
  have hcall : decide (r ∈ w.subscribed i) = rep.call := by
    rw [Bool.eq_iff_iff, decide_eq_true_iff]
    exact (ht.call_iff himpl hn hsl hr hrep).symm
  unfold Connection.connected
  rw [bind_of_ret hempty, hcall, Bool.not_not]
  rfl

/-- In the middle of an emission, the first slot has disconnected the other one, which is still in
the list. -/
theorem connected_subscribed_disconnected :
    Connection.connected 7 duringEmission = (.ret false, duringEmission) ∧
      Connection.connected 11 duringEmission = (.ret true, duringEmission) := by
  obtain ⟨script, h⟩ := duringEmission_steps
  have shallow : duringEmission.Shallow 3 := by decide +kernel
  have himpl : duringEmission.impls 3 = some
      { slots := [.object 9, .object 5, .placeholder 0], execCount := 1, deferred := true } := by
    decide +kernel
  constructor
  · have weak : duringEmission.weaks 7 = some { ptr := some (.slot (.object 5)) } := by
      decide +kernel
    obtain ⟨sl, r, hsl, hr, hrun⟩ := h.connected_subscribed shallow weak rfl
      ⟨by decide +kernel, by decide +kernel⟩ himpl (by decide)
    have hslot : duringEmission.slots (.object 5) = some { rep := some 4, owner := .list 3 } := by
      decide +kernel
    obtain rfl := Option.some.inj (hslot.symm.trans hsl)
    obtain rfl : 4 = r := Option.some.inj hr
    have hnot : decide (4 ∈ duringEmission.subscribed 3) = false := by decide +kernel
    rw [hrun, hnot]
  · have weak : duringEmission.weaks 11 = some { ptr := some (.slot (.object 9)) } := by
      decide +kernel
    obtain ⟨sl, r, hsl, hr, hrun⟩ := h.connected_subscribed shallow weak rfl
      ⟨by decide +kernel, by decide +kernel⟩ himpl (by decide)
    have hslot : duringEmission.slots (.object 9) = some { rep := some 8, owner := .list 3 } := by
      decide +kernel
    obtain rfl := Option.some.inj (hslot.symm.trans hsl)
    obtain rfl : 8 = r := Option.some.inj hr
    have hmem : decide (8 ∈ duringEmission.subscribed 3) = true := by decide +kernel
    rw [hrun, hmem]

/-! ## Blocking -/

/-- The slots in `l` are blocked, or are not any more. -/
def World.setAllBlocked (w : World V) (l : List SlotAddr) (b : Bool) : World V :=
  { w with slots := fun n =>
      if n ∈ l then (w.slots n).map fun sl => { sl with blocked := b } else w.slots n }

theorem World.setAllBlocked_nil (w : World V) (b : Bool) : w.setAllBlocked [] b = w := by
  simp [World.setAllBlocked]

/-- One slot is blocked before the others, perhaps a second time. -/
theorem World.setAllBlocked_cons {sl : SlotBase} (hsl : w.slots n = some sl) (l : List SlotAddr)
    (b : Bool) : (w.setSlot n (some { sl with blocked := b })).setAllBlocked l b =
      w.setAllBlocked (n :: l) b := by
  unfold World.setAllBlocked World.setSlot
  congr 1
  funext m
  show (if m ∈ l then (Function.update w.slots n _ m).map _ else Function.update w.slots n _ m) = _
  by_cases heq : m = n
  · subst heq
    rw [Function.update_self, if_pos List.mem_cons_self, hsl]
    split
    · rfl
    · rfl
  · rw [Function.update_of_ne heq]
    simp only [List.mem_cons, heq, false_or]

theorem SignalImpl.blockLoop_ret (b : Bool) (l : List SlotAddr)
    (alive : ∀ n ∈ l, ∃ sl, w.slots n = some sl) :
    blockLoop b l w = (.ret (), w.setAllBlocked l b) := by
  -- on the list, in a world where the slots before it have their flags
  induction l generalizing w with
  | nil =>
    rw [World.setAllBlocked_nil]
    rfl
  | cons n ns ih =>
    obtain ⟨sl, hsl⟩ := alive n List.mem_cons_self
    have hload : loadSlot n w = (.ret sl, w) := deref_eq_ret.mpr ⟨hsl, rfl⟩
    have hblock : SlotBase.block n b w = (.ret (), w.setSlot n (some { sl with blocked := b })) := by
      unfold SlotBase.block
      rw [bind_of_ret hload]
      rfl
    unfold blockLoop
    rw [bind_of_ret hblock, ih, World.setAllBlocked_cons hsl]
    intro m hm
    by_cases heq : m = n
    · exact ⟨_, by rw [World.setSlot, heq]; exact Function.update_self _ _ _⟩
    · obtain ⟨y, hy⟩ := alive m (List.mem_cons_of_mem n hm)
      refine ⟨y, ?_⟩
      show Function.update w.slots n _ m = some y
      rwa [Function.update_of_ne heq]

namespace World

theorem blocks_setAllBlocked {l : List SlotAddr} {b : Bool} {sl : SlotBase} (hn : n ∈ l)
    (hsl : w.slots n = some sl) : (w.setAllBlocked l b).blocks n = b := by
  show (if n ∈ l then (w.slots n).map _ else w.slots n).any (·.blocked) = b
  rw [if_pos hn, hsl]
  rfl

theorem connects_setAllBlocked (w : World V) (l : List SlotAddr) (b : Bool) (n : SlotAddr) :
    (w.setAllBlocked l b).connects n = w.connects n := by
  unfold connects
  have hrep : ((w.setAllBlocked l b).slots n).bind (·.rep) = (w.slots n).bind (·.rep) := by
    show (if n ∈ l then (w.slots n).map _ else w.slots n).bind _ = _
    split
    · cases w.slots n with
      | none => rfl
      | some sl => rfl
    · rfl
  rw [hrep]
  rfl

/-- `!it->empty() && !it->blocked()` -/
theorem callable_iff : (∃ r, w.Callable n r) ↔ w.connects n = true ∧ w.blocks n = false := by
  constructor
  · rintro ⟨r, sl, rep, hsl, hr, hrep, hcall, hblocked⟩
    constructor
    · simp [connects, hsl, hr, hrep, hcall]
    · simp [blocks, hsl, hblocked]
  · rintro ⟨hconnects, hblocks⟩
    rw [connects, Option.any_eq_true] at hconnects
    obtain ⟨rep, hrep, hcall⟩ := hconnects
    obtain ⟨r, hr, hrep⟩ := Option.bind_eq_some_iff.mp hrep
    obtain ⟨sl, hsl, hr⟩ := Option.bind_eq_some_iff.mp hr
    refine ⟨r, sl, rep, hsl, hr, hrep, hcall, ?_⟩
    rw [blocks, hsl] at hblocks
    exact hblocks

end World

/-- `block()` changes the flags of the slots that are in the list, placeholders included, and
nothing else.  Then `blocked()` tells of the change, an emission finds no slot to be called, or just
those that are connected, and every slot is as connected as before. -/
theorem Steps.block_blocks (h : Steps ({ script } : World V) w) {k : Addr} (b : Bool)
    (handle : w.implOf k = some i) (himpl : w.impls i = some impl)
    (idle : w.frames.any (Frame.destroys i) = false) :
    SignalBase.block k b w = (.ret (), w.setAllBlocked impl.slots b) ∧
      SignalBase.blocked k (w.setAllBlocked impl.slots b) =
        (.ret (b || impl.slots.isEmpty), w.setAllBlocked impl.slots b) ∧
      ∀ n ∈ impl.slots, (∃ r, (w.setAllBlocked impl.slots b).Callable n r) ↔
        b = false ∧ w.connects n = true := by
  have hlinked := (h.sound (.initial script)).linked
  have halive (n : SlotAddr) (hn : n ∈ impl.slots) : ∃ sl, w.slots n = some sl := by
    obtain ⟨sl, hsl, -⟩ := hlinked.element i impl n himpl hn
    exact ⟨sl, hsl⟩
  refine ⟨?_, ?_, fun n hn => ?_⟩
  · unfold SignalBase.block
    rw [read_bind_run, handle]
    show SignalImpl.block i b w = _
    unfold SignalImpl.block
    rw [bind_of_ret (SignalImpl.loadSlots_ret himpl idle)]
    exact SignalImpl.blockLoop_ret b impl.slots halive
  · have hidle : (w.setAllBlocked impl.slots b).frames.any (Frame.destroys i) = false := idle
    unfold SignalBase.blocked
    rw [read_bind_run, show (w.setAllBlocked impl.slots b).implOf k = some i from handle]
    show SignalImpl.blocked i _ = _
    unfold SignalImpl.blocked
    have hload : SignalImpl.loadSlots i (w.setAllBlocked impl.slots b) =
        (.ret impl.slots, w.setAllBlocked impl.slots b) :=
      SignalImpl.loadSlots_eq_ret.mpr ⟨impl, himpl, rfl, hidle, rfl⟩
    rw [bind_of_ret hload, SignalImpl.blockedLoop_ret impl.slots fun n hn => ?_]
    · have hall : impl.slots.all (w.setAllBlocked impl.slots b).blocks =
          impl.slots.all fun _ => b := by
        rw [Bool.eq_iff_iff, List.all_eq_true, List.all_eq_true]
        refine forall₂_congr fun n hn => ?_
        obtain ⟨sl, hsl⟩ := halive n hn
        rw [World.blocks_setAllBlocked hn hsl]
      rw [hall]
      cases impl.slots with
      | nil => cases b <;> rfl
      | cons n ns => cases b <;> simp
    · obtain ⟨sl, hsl⟩ := halive n hn
      refine ⟨{ sl with blocked := b }, ?_⟩
      show (if n ∈ impl.slots then (w.slots n).map _ else w.slots n) = _
      rw [if_pos hn, hsl]
      rfl
  · obtain ⟨sl, hsl⟩ := halive n hn
    rw [World.callable_iff, World.connects_setAllBlocked, World.blocks_setAllBlocked hn hsl,
      and_comm]

/-- In the middle of an emission, the placeholder is blocked with the slots. -/
theorem block_blocks_emission :
    SignalBase.blocked 0 (duringEmission.setAllBlocked
      [.object 9, .object 5, .placeholder 0] true) =
        (.ret true, duringEmission.setAllBlocked [.object 9, .object 5, .placeholder 0] true) := by
  obtain ⟨script, h⟩ := duringEmission_steps
  have himpl : duringEmission.impls 3 = some
      { slots := [.object 9, .object 5, .placeholder 0], execCount := 1, deferred := true } := by
    decide +kernel
  exact (h.block_blocks true (by decide +kernel) himpl (by decide +kernel)).2.1

end Sigc
