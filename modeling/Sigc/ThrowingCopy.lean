import Sigc.ClientRuns
import Sigc.Sharing

/-!
# Functors whose copy constructor throws

The functions that clone the functor of a slot, for any outcome of the clone.  A copy constructor
that throws has destroyed what it had built, so that the objects are as they were before.
-/

namespace Sigc

open Reasoning Prog

variable {V : Type}

/-! ## The clone as a parameter -/

namespace SlotBase

/-- What the copy constructor takes from `src`, where `copyFunctor` copies a functor. -/
def copyInitWith (copyFunctor : Functor → M V Functor) (src : SlotAddr) : M V SlotInit := do
  let sl ← loadSlot src
  match sl.rep with
  | none => pure { functor := none, blocked := sl.blocked }
  | some r => do
    let rep ← loadRep r
    if rep.call then do
      let f ← deref (.fault .nullFunction) fun _ => rep.functor
      let f' ← copyFunctor f
      pure { functor := some f', blocked := sl.blocked }
    else pure { functor := none, blocked := false }

theorem copyInit_succ (n : Nat) (src : SlotAddr) :
    copyInit (n + 1) src = (copyInitWith
      (copyFunctor fun s => copyInit n s >>= construct .functor) src : M V SlotInit) := rfl

section Clone

variable (u : Env V) (cleanupSelfAndIter : Addr → M V Unit) (clone : M V SlotInit)

def moveConstructFrom (build : SlotInit → M V SlotAddr) (take : SlotAddr → Bool → M V SlotAddr)
    (src : SlotAddr) : M V SlotAddr := do
  let sl ← loadSlot src
  match sl.rep with
  | none => build { functor := none, blocked := sl.blocked }
  | some r => do
    let rep ← loadRep r
    if rep.parent = none then do
      notifyMove u r
      take src sl.blocked
    else do
      let init ← clone
      build init

def assignFrom (dst src : SlotAddr) : M V Unit := do
  let self ← loadSlot dst
  let from_ ← loadSlot src
  if from_.rep = self.rep then
    modify (·.setSlot dst (some { self with blocked := from_.blocked }))
  else if ← empty src then deleteRepWithCheck u cleanupSelfAndIter dst
  else do
    let init ← clone
    let f ← deref (.fault .nullFunction) fun _ => init.functor
    let new ← cloneFor dst f
    deleteOld u dst
    let self ← loadIntact dst
    modify fun w => (w.replaceRep dst self (some new)).pop
    let from_ ← loadSlot src
    let self ← loadSlot dst
    modify (·.setSlot dst (some { self with blocked := from_.blocked }))

def moveAssignFrom (dst src : SlotAddr) : M V Unit := do
  let self ← loadSlot dst
  let from_ ← loadSlot src
  if from_.rep = self.rep then
    modify (·.setSlot dst (some { self with blocked := from_.blocked }))
  else if ← empty src then deleteRepWithCheck u cleanupSelfAndIter dst
  else do
    modify (·.setSlot dst (some { self with blocked := from_.blocked }))
    let r ← deref (.fault .deadRep) fun _ => from_.rep
    let rep ← loadRep r
    let new ← (if rep.parent = none then do
        notifyMove u r
        moveFor dst src
      else do
        let init ← clone
        let f ← deref (.fault .nullFunction) fun _ => init.functor
        cloneFor dst f)
    deleteOld u dst
    let self ← loadIntact dst
    modify fun w => (w.replaceRep dst self (some new)).pop

end Clone

theorem moveConstructWith_eq (u : Env V) (build : SlotInit → M V SlotAddr)
    (take : SlotAddr → Bool → M V SlotAddr) (src : SlotAddr) :
    moveConstructWith u build take src =
      moveConstructFrom u (copyInit u.fuel src) build take src := rfl

theorem assign_eq (u : Env V) (cleanupSelfAndIter : Addr → M V Unit) (dst src : SlotAddr) :
    assign u cleanupSelfAndIter dst src =
      assignFrom u cleanupSelfAndIter (copyInit u.fuel src) dst src := rfl

theorem moveAssign_eq (u : Env V) (cleanupSelfAndIter : Addr → M V Unit) (dst src : SlotAddr) :
    moveAssign u cleanupSelfAndIter dst src =
      moveAssignFrom u cleanupSelfAndIter (copyInit u.fuel src) dst src := rfl

end SlotBase

/-! ## The operations -/

/-- The operations that may have to clone a functor. -/
inductive CloneOp where
  | copyConstruct (owner : Owner)
  | moveConstruct (owner : Owner)
  | assign (dst : SlotAddr)
  | moveAssign (dst : SlotAddr)
  | connect (h : Addr) (first move : Bool)

namespace CloneOp

/-- `connect()` and `connect_first()`, of a slot to be copied or to be moved. -/
def insert (u : Env V) (clone : M V SlotInit) (src : SlotAddr) (h : Addr) (first move : Bool) :
    M V Unit := do
  let i ← SignalBase.impl h
  let n ← (if move then SlotBase.moveConstructFrom u clone (SignalImpl.insertBuilt i first)
      (SignalImpl.insertTaken i first) src
    else do
      let init ← clone
      SignalImpl.insertBuilt i first init)
  let _ ← WeakRawPtr.construct (some (.slot n)) false

def exec (u : Env V) (cleanupSelfAndIter : Addr → M V Unit) (clone : M V SlotInit)
    (src : SlotAddr) : CloneOp → M V Unit
  | copyConstruct owner => do
    let init ← clone
    let _ ← SlotBase.construct owner init
  | moveConstruct owner => do
    let _ ← SlotBase.moveConstructFrom u clone (SlotBase.construct owner) (SlotBase.takeRep owner) src
  | assign dst => SlotBase.assignFrom u cleanupSelfAndIter clone dst src
  | moveAssign dst => SlotBase.moveAssignFrom u cleanupSelfAndIter clone dst src
  | connect h first move => insert u clone src h first move

/-- `SignalBase.connect`, whose connection is left alone here. -/
theorem insert_eq (u : Env V) (src : SlotAddr) (h : Addr) (first move : Bool) :
    (do let _ ← SignalBase.connect u h src first move) =
      insert u (SlotBase.copyInit u.fuel src) src h first move := by
  funext w
  unfold SignalBase.connect insert
  rw [bind_assoc_run]
  exact bind_congr_right fun i v _ => bind_assoc_run

/-- The source, with the rep whose functor is to be cloned.  A move clones it for the sake of its
parent only, and an assignment of the rep that is there already does not. -/
structure Clones (w : World V) (src : SlotAddr) (f : Functor) (op : CloneOp) : Prop where
  source : ∃ sl r rep, w.slots src = some sl ∧ sl.rep = some r ∧ w.reps r = some rep ∧
    rep.call = true ∧ rep.functor = some f ∧
      ((∃ owner, op = .moveConstruct owner) ∨ (∃ dst, op = .moveAssign dst) ∨
        (∃ h first, op = .connect h first true) → rep.parent ≠ none)
  destination : ∀ dst, op = .assign dst ∨ op = .moveAssign dst →
    ∃ self sl, w.slots dst = some self ∧ w.slots src = some sl ∧ sl.rep ≠ self.rep
  signal : ∀ h first move, op = .connect h first move → w.hasHandle h = true

end CloneOp

/-! ## What is as it was -/

/-- The list of slots of a signal, which is empty as long as it has not been allocated. -/
def World.slotsOf (w : World V) (h : Addr) : List SlotAddr :=
  ((w.implOf h).bind w.impls).elim [] (·.slots)

/-- The objects are the same, apart from lists that have been allocated since. -/
structure World.Unchanged (w w' : World V) : Prop where
  slots : w'.slots = w.slots
  reps : w'.reps = w.reps
  trackables : w'.trackables = w.trackables
  slotsOf : ∀ h, w'.slotsOf h = w.slotsOf h

variable {w w' v : World V} {src dst : SlotAddr} {sl self : SlotBase} {r : Addr} {rep : SlotRep}
  {f : Functor} {e : Nat} {copy : Functor → M V Functor}

namespace World.Unchanged

theorem refl (w : World V) : w.Unchanged w := ⟨rfl, rfl, rfl, fun _ => rfl⟩

theorem trans (h : w.Unchanged v) (h' : v.Unchanged w') : w.Unchanged w' where
  slots := h'.slots.trans h.slots
  reps := h'.reps.trans h.reps
  trackables := h'.trackables.trans h.trackables
  slotsOf x := (h'.slotsOf x).trans (h.slotsOf x)

end World.Unchanged

/-- A list is allocated where a signal has none. -/
theorem SignalBase.impl_unchanged {h : Addr} (below : w.HandlesBelow) (hh : w.hasHandle h = true) :
    ∃ i w', impl h w = (.ret i, w') ∧ w.Unchanged w' := by
  cases hi : w.implOf h with
  | some i =>
    refine ⟨i, w, ?_, .refl w⟩
    unfold impl
    rw [read_bind_run, hi]
    rfl
  | none =>
    refine ⟨w.next,
      ({ w with next := w.next + 1 }.setImpl w.next (some {})).setHandle h (some w.next), ?_,
      ⟨rfl, rfl, rfl, ?_⟩⟩
    · unfold impl
      rw [read_bind_run, hi]
      rfl
    · intro x
      have himpl := World.implOf_setHandle
        (w := { w with next := w.next + 1 }.setImpl w.next (some {}))
        hh (some w.next)
      unfold World.slotsOf
      rw [himpl, Function.update_apply]
      split
      · rename_i hx
        rw [hx, hi]
        show (Function.update w.impls w.next (some {}) w.next).elim [] (·.slots) = []
        rw [Function.update_self]
        rfl
      · show ((w.implOf x).bind (Function.update w.impls w.next (some {}))).elim [] (·.slots) = _
        cases hx : w.implOf x with
        | none => rfl
        | some j =>
          have hne : j ≠ w.next := Nat.ne_of_lt (below.impl x j hx)
          show (Function.update w.impls w.next (some {}) j).elim [] (·.slots) = _
          rw [Function.update_of_ne hne]
          rfl

namespace SlotBase

theorem copyInitWith_throws (hsl : v.slots src = some sl) (hr : sl.rep = some r)
    (hrep : v.reps r = some rep) (hcall : rep.call = true) (hf : rep.functor = some f)
    (throws : ∃ v', copy f v = (.throw e, v') ∧ v.Unchanged v') :
    ∃ v', copyInitWith copy src v = (.throw e, v') ∧ v.Unchanged v' := by
  obtain ⟨v', hcopy, hv'⟩ := throws
  refine ⟨v', ?_, hv'⟩
  have hload : loadSlot src v = (.ret sl, v) := deref_of_some hsl
  have hloadRep : loadRep r v = (.ret rep, v) := deref_of_some hrep
  have hfunctor : (deref (.fault .nullFunction) fun _ => rep.functor : M V Functor) v = (.ret f, v) :=
    deref_of_some hf
  rw [copyInitWith, bind_of_ret hload]
  simp only [hr]
  rw [bind_of_ret hloadRep, if_pos hcall, bind_of_ret hfunctor]
  exact bind_of_throw hcopy

theorem moveConstructFrom_throws {u : Env V} {clone : M V SlotInit}
    {build : SlotInit → M V SlotAddr} {take : SlotAddr → Bool → M V SlotAddr}
    (hsl : v.slots src = some sl) (hr : sl.rep = some r) (hrep : v.reps r = some rep)
    (hparent : rep.parent ≠ none) (hclone : clone v = (.throw e, w')) :
    moveConstructFrom u clone build take src v = (.throw e, w') := by
  have hload : loadSlot src v = (.ret sl, v) := deref_of_some hsl
  have hloadRep : loadRep r v = (.ret rep, v) := deref_of_some hrep
  rw [moveConstructFrom, bind_of_ret hload]
  simp only [hr]
  rw [bind_of_ret hloadRep, if_neg hparent]
  exact bind_of_throw hclone

theorem empty_of_call (hsl : v.slots src = some sl) (hr : sl.rep = some r)
    (hrep : v.reps r = some rep) (hcall : rep.call = true) : empty src v = (.ret false, v) := by
  have hload : loadSlot src v = (.ret sl, v) := deref_of_some hsl
  have hloadRep : loadRep r v = (.ret rep, v) := deref_of_some hrep
  rw [empty, bind_of_ret hload]
  simp only [hr]
  rw [bind_of_ret hloadRep, hcall]
  rfl

theorem assignFrom_throws {u : Env V} {cleanup : Addr → M V Unit} {clone : M V SlotInit}
    (hself : w.slots dst = some self) (hsl : w.slots src = some sl) (hr : sl.rep = some r)
    (hrep : w.reps r = some rep) (hcall : rep.call = true) (hne : sl.rep ≠ self.rep)
    (hclone : clone w = (.throw e, w')) :
    assignFrom u cleanup clone dst src w = (.throw e, w') := by
  have hload : loadSlot src w = (.ret sl, w) := deref_of_some hsl
  have hloadDst : loadSlot dst w = (.ret self, w) := deref_of_some hself
  rw [assignFrom, bind_of_ret hloadDst, bind_of_ret hload, if_neg hne,
    bind_of_ret (empty_of_call hsl hr hrep hcall), if_neg (by simp)]
  exact bind_of_throw hclone

/-- The blocked flag has been written by the time the functor is copied. -/
theorem moveAssignFrom_throws {u : Env V} {cleanup : Addr → M V Unit} {clone : M V SlotInit}
    (hself : w.slots dst = some self) (hsl : w.slots src = some sl) (hr : sl.rep = some r)
    (hrep : w.reps r = some rep) (hcall : rep.call = true) (hne : sl.rep ≠ self.rep)
    (hparent : rep.parent ≠ none)
    (hclone : clone (w.setSlot dst (some { self with blocked := sl.blocked })) = (.throw e, w')) :
    moveAssignFrom u cleanup clone dst src w = (.throw e, w') := by
  have hload : loadSlot src w = (.ret sl, w) := deref_of_some hsl
  have hloadDst : loadSlot dst w = (.ret self, w) := deref_of_some hself
  have hfrom : (deref (.fault .deadRep) fun _ => sl.rep : M V Addr)
      (w.setSlot dst (some { self with blocked := sl.blocked })) =
        (.ret r, w.setSlot dst (some { self with blocked := sl.blocked })) := deref_of_some hr
  have hloadRep : loadRep r (w.setSlot dst (some { self with blocked := sl.blocked })) =
      (.ret rep, w.setSlot dst (some { self with blocked := sl.blocked })) := deref_of_some hrep
  rw [moveAssignFrom, bind_of_ret hloadDst, bind_of_ret hload, if_neg hne,
    bind_of_ret (empty_of_call hsl hr hrep hcall), if_neg (by simp), modify_bind_run,
    bind_of_ret hfrom, bind_of_ret hloadRep]
  apply bind_of_throw
  rw [if_neg hparent]
  exact bind_of_throw hclone

end SlotBase

namespace CloneOp

/-- A flag that an operation writes before it clones the functor is what it was. -/
def KeepsFlag (w : World V) (src : SlotAddr) (op : CloneOp) : Prop :=
  ∀ dst self sl, op = .moveAssign dst → w.slots dst = some self → w.slots src = some sl →
    self.blocked = sl.blocked

theorem insert_throws {u : Env V} {clone : M V SlotInit} {h : Addr} {first move : Bool} {i : Addr}
    (himpl : SignalBase.impl h w = (.ret i, v)) (hsl : v.slots src = some sl)
    (hr : sl.rep = some r) (hrep : v.reps r = some rep) (hparent : move = true → rep.parent ≠ none)
    (hclone : clone v = (.throw e, w')) : insert u clone src h first move w = (.throw e, w') := by
  unfold insert
  rw [bind_of_ret himpl]
  apply bind_of_throw
  split
  · rename_i hmove
    exact SlotBase.moveConstructFrom_throws hsl hr hrep (hparent hmove) hclone
  · exact bind_of_throw hclone

/-- The exception is passed on, and everything is as it was, unless a blocked flag was written
before. -/
theorem exec_throws {u : Env V} {cleanup : Addr → M V Unit} {op : CloneOp} (below : w.HandlesBelow)
    (clones : op.Clones w src f)
    (throws : ∀ v : World V, ∃ v', copy f v = (.throw e, v') ∧ v.Unchanged v') :
    ∃ w', op.exec u cleanup (SlotBase.copyInitWith copy src) src w = (.throw e, w') ∧
      (w.Unchanged w' ↔ op.KeepsFlag w src) := by
  obtain ⟨sl, r, rep, hsl, hr, hrep, hcall, hf, hparent⟩ := clones.source
  obtain ⟨w', hclone, hw'⟩ := SlotBase.copyInitWith_throws hsl hr hrep hcall hf (throws w)
  cases op with
  | copyConstruct owner =>
    refine ⟨w', bind_of_throw hclone, fun _ => ?_, fun _ => hw'⟩
    intro dst self sl hop
    cases hop
  | moveConstruct owner =>
    have hp := hparent (.inl ⟨owner, rfl⟩)
    refine ⟨w', bind_of_throw (SlotBase.moveConstructFrom_throws hsl hr hrep hp hclone),
      fun _ => ?_, fun _ => hw'⟩
    intro dst self sl hop
    cases hop
  | assign dst =>
    obtain ⟨self, sl', hself, hsl', hne⟩ := clones.destination dst (.inl rfl)
    obtain rfl := Option.some.inj (hsl.symm.trans hsl')
    refine ⟨w', SlotBase.assignFrom_throws hself hsl hr hrep hcall hne hclone, fun _ => ?_,
      fun _ => hw'⟩
    intro dst self sl hop
    cases hop
  | moveAssign dst =>
    obtain ⟨self, sl', hself, hsl', hne⟩ := clones.destination dst (.inr rfl)
    obtain rfl := Option.some.inj (hsl.symm.trans hsl')
    have hp := hparent (.inr (.inl ⟨dst, rfl⟩))
    have hdistinct : src ≠ dst := by
      intro heq
      subst heq
      obtain rfl := Option.some.inj (hsl.symm.trans hself)
      exact hne rfl
    have hkept : (w.setSlot dst (some { self with blocked := sl.blocked })).slots src = some sl :=
      (Function.update_of_ne hdistinct _ _).trans hsl
    obtain ⟨w₁, hclone₁, hw₁⟩ := SlotBase.copyInitWith_throws hkept hr hrep hcall hf (throws _)
    refine ⟨w₁, SlotBase.moveAssignFrom_throws hself hsl hr hrep hcall hne hp hclone₁, ?_, ?_⟩
    · intro hunchanged dst' self' sl' hop hself' hsl'
      cases hop
      obtain rfl := Option.some.inj (hself.symm.trans hself')
      obtain rfl := Option.some.inj (hsl.symm.trans hsl')
      have hslot : w₁.slots dst = some self := by rw [hunchanged.slots, hself]
      rw [hw₁.slots] at hslot
      change Function.update w.slots dst _ dst = some self at hslot
      rw [Function.update_self] at hslot
      exact (congrArg SlotBase.blocked (Option.some.inj hslot)).symm
    · intro hkeeps
      -- what has been written is what was there before
      have hflag := hkeeps dst self sl rfl hself hsl
      have hsame : w.setSlot dst (some { self with blocked := sl.blocked }) = w := by
        rw [← hflag]
        show { w with slots := Function.update w.slots dst (some self) } = w
        rw [← hself, Function.update_eq_self]
      rw [hsame] at hw₁
      exact hw₁
  | connect h first move =>
    obtain ⟨i, w₁, himpl, hw₁⟩ := SignalBase.impl_unchanged below (clones.signal h first move rfl)
    obtain ⟨w₂, hclone₁, hw₂⟩ := SlotBase.copyInitWith_throws (hw₁.slots ▸ hsl) hr (hw₁.reps ▸ hrep)
      hcall hf (throws w₁)
    have hp : move = true → rep.parent ≠ none := by
      intro hmove
      exact hparent (.inr (.inr ⟨h, first, hmove ▸ rfl⟩))
    refine ⟨w₂, insert_throws himpl (hw₁.slots ▸ hsl) hr (hw₁.reps ▸ hrep) hp hclone₁, fun _ => ?_,
      fun _ => hw₁.trans hw₂⟩
    intro dst self sl hop
    cases hop

/-- A slot has been stored in the functor of another one, and has been blocked there. -/
def innerBlocked : World Unit :=
  (run 60 [.makeSlot [], .makeSlot [.slot (.object 1)], .blockSlot (.object 3) true, .newSlot]).2

def shallowCalls : Env Unit where
  call := dispatch 4
  fuel := 4

theorem throw_unchanged (e : Nat) (v : World V) :
    ∃ v', (Prog.throw e : M V Functor) v = (.throw e, v') ∧ v.Unchanged v' :=
  ⟨v, rfl, .refl v⟩

theorem innerBlocked_below : innerBlocked.HandlesBelow where
  handle h hh := by
    have hnone : innerBlocked.handles = [] := by decide +kernel
    rw [World.hasHandle, hnone] at hh
    cases hh
  impl h i hi := by
    have hnone : innerBlocked.handles = [] := by decide +kernel
    rw [World.implOf, hnone] at hi
    cases hi

theorem innerBlocked_clones {op : CloneOp}
    (hop : op = .assign (.object 6) ∨ op = .moveAssign (.object 6)) :
    op.Clones innerBlocked (.object 3) [] where
  source := ⟨{ rep := some 2, blocked := true, owner := .functor }, 2,
    { call := true, cleanup := some .notifySlotRepInvalidated, parent := some 4, functor := some [] },
    by decide +kernel, rfl, by decide +kernel, rfl, rfl, fun _ => by simp⟩
  destination := by
    intro dst hdst
    obtain rfl : dst = .object 6 := by
      obtain rfl | rfl := hop <;> simpa [eq_comm] using hdst
    exact ⟨{}, { rep := some 2, blocked := true, owner := .functor }, by decide +kernel,
      by decide +kernel, by simp⟩
  signal := by
    intro h first move hconnect
    obtain rfl | rfl := hop <;> cases hconnect

/-- The copy assignment from a blocked slot. -/
theorem exec_throws_assign : Reachable innerBlocked ∧
    ∃ w', (CloneOp.assign (.object 6)).exec shallowCalls (fun _ => pure ())
      (SlotBase.copyInitWith (fun _ => Prog.throw 7) (.object 3)) (.object 3) innerBlocked =
        (.throw 7, w') ∧ (innerBlocked.Unchanged w' ↔
          (CloneOp.assign (.object 6)).KeepsFlag innerBlocked (.object 3)) :=
  ⟨.of_run (by decide +kernel),
    exec_throws innerBlocked_below (innerBlocked_clones (.inl rfl)) (throw_unchanged 7)⟩

/-- A move assignment leaves the destination blocked. -/
theorem moveAssign_throws : Reachable innerBlocked ∧
    (∃ w', (CloneOp.moveAssign (.object 6)).exec shallowCalls (fun _ => pure ())
      (SlotBase.copyInitWith (fun _ => Prog.throw 7) (.object 3)) (.object 3) innerBlocked =
        (.throw 7, w') ∧ w'.slots (.object 6) = some { blocked := true }) ∧
    innerBlocked.slots (.object 6) = some {} :=
  ⟨.of_run (by decide +kernel), ⟨_, rfl, by decide +kernel⟩, by decide +kernel⟩

end CloneOp

end Sigc
