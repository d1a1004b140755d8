import Sigc.ClientRuns

/-!
# The observers of a signal

`size()`, `empty()` and `blocked()` read the raw list, in which there is a placeholder for every
active emission, and every disconnected slot that has not been swept yet.
-/

namespace Sigc

open Reasoning Prog

variable {V : Type} {w w' : World V} {h i : Addr} {self : SignalImpl}

namespace World

/-- The element `n` of a list is a slot that has been connected, and not disconnected since: its
functor can still be called. -/
def connects (w : World V) (n : SlotAddr) : Bool :=
  (((w.slots n).bind (·.rep)).bind w.reps).any (·.call)

def blocks (w : World V) (n : SlotAddr) : Bool := (w.slots n).any (·.blocked)

end World

/-- The observers describe the connected slots in the list `self` of the handle `h`. -/
structure Describes (w : World V) (h : Addr) (impl : SignalImpl) : Prop where
  size : SignalBase.size h w = (.ret (impl.slots.countP w.connects), w)
  empty : SignalBase.empty h w = (.ret (decide (impl.slots.countP w.connects = 0)), w)
  blocked : SignalBase.blocked h w =
    (.ret (impl.slots.all fun n => !w.connects n || w.blocks n), w)

/-! ## What the observers read -/

namespace SignalImpl

theorem loadSlots_ret (impl : w.impls i = some self)
    (idle : w.frames.any (Frame.destroys i) = false) :
    loadSlots i w = (.ret self.slots, w) :=
  loadSlots_eq_ret.mpr ⟨self, impl, rfl, idle, rfl⟩

theorem blockedLoop_ret (l : List SlotAddr) (alive : ∀ n ∈ l, ∃ sl, w.slots n = some sl) :
    blockedLoop l w = (.ret (l.all w.blocks), w) := by
  induction l with
  | nil => rfl
  | cons n ns ih =>
    obtain ⟨sl, hsl⟩ := alive n List.mem_cons_self
    have hload : loadSlot n w = (.ret sl, w) := deref_eq_ret.mpr ⟨hsl, rfl⟩
    unfold blockedLoop
    rw [bind_of_ret hload, List.all_cons]
    have hblocks : w.blocks n = sl.blocked := by simp [World.blocks, hsl]
    rw [hblocks]
    cases sl.blocked with
    | false => rfl
    | true => exact ih fun m hm => alive m (List.mem_cons_of_mem n hm)

end SignalImpl

namespace SignalBase

theorem size_ret (handle : w.implOf h = some i) (impl : w.impls i = some self)
    (idle : w.frames.any (Frame.destroys i) = false) :
    size h w = (.ret self.slots.length, w) := by
  unfold size
  rw [read_bind_run, handle]
  exact bind_of_ret (SignalImpl.loadSlots_ret impl idle)

theorem empty_ret (handle : w.implOf h = some i) (impl : w.impls i = some self)
    (idle : w.frames.any (Frame.destroys i) = false) :
    empty h w = (.ret self.slots.isEmpty, w) := by
  unfold empty
  rw [read_bind_run, handle]
  exact bind_of_ret (SignalImpl.loadSlots_ret impl idle)

theorem blocked_ret (hl : w.Linked) (handle : w.implOf h = some i) (impl : w.impls i = some self)
    (idle : w.frames.any (Frame.destroys i) = false) :
    blocked h w = (.ret (self.slots.all w.blocks), w) := by
  unfold blocked
  rw [read_bind_run, handle]
  refine (bind_of_ret (SignalImpl.loadSlots_ret impl idle)).trans
    (SignalImpl.blockedLoop_ret _ fun n hn => ?_)
  obtain ⟨sl, hsl, -⟩ := Linkage.element hl i self n impl hn
  exact ⟨sl, hsl⟩

/-- While `slots_.clear()` destroys the elements, the list cannot be read. -/
theorem size_reentered (handle : w.implOf h = some i)
    (busy : w.frames.any (Frame.destroys i) = true) {n : Nat} : size h w ≠ (.ret n, w) := by
  intro hrun
  unfold size SignalImpl.size at hrun
  rw [read_bind_run, handle] at hrun
  obtain ⟨l, w₁, hl, -⟩ := bind_eq_ret.mp hrun
  obtain ⟨self, -, -, hidle, -⟩ := SignalImpl.loadSlots_eq_ret.mp hl
  rw [busy] at hidle
  cases hidle

end SignalBase

/-! ## When they are right -/

theorem describes_iff (hl : w.Linked) (handle : w.implOf h = some i)
    (impl : w.impls i = some self) : Describes w h self ↔
      w.frames.any (Frame.destroys i) = false ∧ ∀ n ∈ self.slots, w.connects n = true := by
  constructor
  · intro hd
    have hidle : w.frames.any (Frame.destroys i) = false := by
      by_contra hbusy
      exact SignalBase.size_reentered handle (by simpa using hbusy) hd.size
    refine ⟨hidle, List.countP_eq_length.mp ?_⟩
    have hsize := (SignalBase.size_ret handle impl hidle).symm.trans hd.size
    simpa using hsize.symm
  · rintro ⟨hidle, hall⟩
    have hcount : self.slots.countP w.connects = self.slots.length := List.countP_eq_length.mpr hall
    refine ⟨?_, ?_, ?_⟩
    · rw [SignalBase.size_ret handle impl hidle, hcount]
    · rw [SignalBase.empty_ret handle impl hidle, hcount]
      cases self.slots <;> rfl
    · rw [SignalBase.blocked_ret hl handle impl hidle]
      have hsame : self.slots.all w.blocks =
          self.slots.all fun n => !w.connects n || w.blocks n := by
        rw [Bool.eq_iff_iff, List.all_eq_true, List.all_eq_true]
        refine forall₂_congr fun n hn => ?_
        simp [hall n hn]
      rw [hsame]

/-- As long as a signal has no list, it is described as one without slots. -/
theorem describes_null (handle : w.implOf h = none) : Describes w h {} := by
  refine ⟨?_, ?_, ?_⟩
  · unfold SignalBase.size
    rw [read_bind_run, handle]
    rfl
  · unfold SignalBase.empty
    rw [read_bind_run, handle]
    rfl
  · unfold SignalBase.blocked
    rw [read_bind_run, handle]
    rfl

/-- The observers of a signal are right as long as it has no list; and then just where its list, not
being destroyed, consists of connected slots: there is no placeholder in it, and no slot that has
been disconnected. -/
theorem Reachable.describes [Inhabited V] (hw : Reachable w) :
    (w.implOf h = none → Describes w h {}) ∧
      ∀ i self, w.implOf h = some i → w.impls i = some self → (Describes w h self ↔
        w.frames.any (Frame.destroys i) = false ∧ ∀ n ∈ self.slots, w.connects n = true) := by
  obtain ⟨script, hs, -⟩ := hw.steps
  exact ⟨describes_null, fun i self handle impl =>
    describes_iff (hs.sound (.initial script)).linked handle impl⟩

/-- A signal with one slot, which is being invoked. -/
def observedWorld : World Unit :=
  (run 8 [.newSignal, .makeSlot [], .connect 0 (.object 2) false false, .emit 0 .void]).2

/-- The slot sees its signal with two slots, the second of which is the placeholder. -/
theorem size_in_handler : Reachable observedWorld ∧
    SignalBase.size 0 observedWorld = (.ret 2, observedWorld) ∧
      ∃ impl, observedWorld.implOf 0 = some 3 ∧ observedWorld.impls 3 = some impl ∧
        impl.slots.countP observedWorld.connects = 1 ∧ ¬Describes observedWorld 0 impl := by
  have hreach : Reachable observedWorld := .of_run (by decide +kernel)
  have handle : observedWorld.implOf 0 = some 3 := by decide +kernel
  have himpl : observedWorld.impls 3 = some
      { slots := [.object 5, .placeholder 0], execCount := 1, deferred := false } := by
    decide +kernel
  have hsize := SignalBase.size_ret handle himpl (by decide +kernel)
  refine ⟨hreach, hsize, _, handle, himpl, by decide +kernel, fun h => ?_⟩
  have hcount := hsize.symm.trans h.size
  simp only [Prod.mk.injEq, Outcome.ret.injEq] at hcount
  exact absurd hcount.1 (by decide +kernel)

/-- A signal with one slot, in no emission. -/
def idleWorld : World Unit :=
  (run 8 [.newSignal, .makeSlot [], .connect 0 (.object 2) false false]).2

theorem idleWorld_describes : Describes idleWorld 0 { slots := [.object 5] } ↔
    idleWorld.frames.any (Frame.destroys 3) = false ∧
      ∀ n ∈ [SlotAddr.object 5], idleWorld.connects n = true :=
  (Reachable.describes (.of_run (by decide +kernel))).2 3 _ (by decide +kernel) (by decide +kernel)

end Sigc
