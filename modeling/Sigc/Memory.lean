import Sigc.Reasoning.Program
import Mathlib.Logic.Function.Basic

/-!
# The objects of the library and the state of a running program

Every object has an address of its own that is never used twice, so an address that is absent from
its map belongs to an object that has been destroyed.  Beside the heap, a `World` holds the
activation records of the library functions that are suspended while client code runs
(`World.frames`, the innermost call first), and the commands the client code is still going to
issue (`World.script`).  `V` is the type of the values that slots return.
-/

namespace Sigc

open Reasoning

abbrev Addr := Nat

/-- Where a `slot_base` lives.  The placeholder that `temp_slot_list` puts into the list of slots
is told apart by the depth of the call stack, so an emission leaves the other addresses alone. -/
inductive SlotAddr where
  | object (a : Addr)
  | placeholder (depth : Nat)
  deriving DecidableEq, Repr

/-- The functions that the library registers as `func_destroy_notify`. -/
inductive DestroyNotify where
  | notifySlotRepInvalidated
  | notifySelfAndIterOfInvalidatedSlot
  | notifyObjectInvalidated
  deriving DecidableEq, Repr

structure TrackableCallback where
  data : Addr
  func : Option DestroyNotify
  deriving DecidableEq, Repr

structure TrackableCallbackList where
  callbacks : List TrackableCallback := []
  clearing : Bool := false
  deriving DecidableEq, Repr

/-- A `trackable`: an object of the client, or the base part of the `slot_rep` at the same address.
`dying` is set when its destructor has begun. -/
structure Trackable where
  callbackList : Option TrackableCallbackList := none
  dying : Bool := false
  deriving DecidableEq, Repr

/-- What `visit_each` reaches in a functor: a trackable it refers to, or a slot stored in it. -/
inductive Target where
  | trackable (t : Addr)
  | slot (s : SlotAddr)
  deriving DecidableEq, Repr

/-- A functor, as far as the library looks into it: its targets in the order of `visit_each`. -/
abbrev Functor := List Target

/-- A `slot_rep`.  `call` tells whether `call_` is set.  A `typed_slot_rep` holds a functor until
`destroy()`; a `dummy_slot_rep` never holds one. -/
structure SlotRep where
  call : Bool
  cleanup : Option DestroyNotify := none
  parent : Option Addr := none
  functor : Option Functor := none
  deriving DecidableEq, Repr

/-- Who destroys a `slot_base`: the client, the functor it is stored in, or a list of slots. -/
inductive Owner where
  | client
  | functor
  | list (impl : Addr)
  deriving DecidableEq, Repr

structure SlotBase where
  rep : Option Addr := none
  blocked : Bool := false
  owner : Owner := .client
  dying : Bool := false
  deriving DecidableEq, Repr

structure SignalImpl where
  slots : List SlotAddr := []
  execCount : BitVec 16 := 0
  deferred : Bool := false
  deriving DecidableEq, Repr

structure SelfAndIter where
  self : Addr
  iter : SlotAddr
  deriving DecidableEq, Repr

inductive WeakTarget where
  | slot (s : SlotAddr)
  | rep (r : Addr)
  deriving DecidableEq, Repr

/-- A `weak_raw_ptr`: the member of a connection, or a local variable `notifier` of the library. -/
structure WeakRawPtr where
  ptr : Option WeakTarget := none
  notifier : Bool := false
  deriving DecidableEq, Repr

/-! ## Client code -/

/-- The three bodies of `signal_emit`.  An accumulator walks from the first position to the last
and dereferences each one `1 + again ys` times, `ys` being the values it has seen so far. -/
inductive Path (V : Type) where
  | void
  | value
  | accumulated (again : List (Option V) → Nat)

/-- What client code can ask of the library, and the two ways in which it gives control back. -/
inductive Cmd (V : Type) where
  | ret (v : V)
  | throw (e : Nat)
  | newTrackable
  | moveTrackable (src : Addr)
  | assignTrackable (dst src : Addr)
  | moveAssignTrackable (dst src : Addr)
  | notifyCallbacks (t : Addr)
  | destroyTrackable (t : Addr)
  | newSlot
  | makeSlot (f : Functor)
  | copySlot (src : SlotAddr)
  | moveSlot (src : SlotAddr)
  | assignSlot (dst src : SlotAddr)
  | moveAssignSlot (dst src : SlotAddr)
  | blockSlot (s : SlotAddr) (b : Bool)
  | disconnectSlot (s : SlotAddr)
  | callSlot (s : SlotAddr)
  | destroySlot (s : SlotAddr)
  | newSignal
  | copySignal (src : Addr)
  | moveSignal (src : Addr)
  | assignSignal (dst src : Addr)
  | moveAssignSignal (dst src : Addr)
  | connect (h : Addr) (src : SlotAddr) (first move : Bool)
  | emit (h : Addr) (path : Path V)
  | clear (h : Addr)
  | blockSignal (h : Addr) (b : Bool)
  | destroySignal (h : Addr)
  | newConnection
  | connectionOf (s : SlotAddr)
  | copyConnection (src : Addr)
  | assignConnection (dst src : Addr)
  | block (c : Addr) (b : Bool)
  | disconnect (c : Addr)
  | destroyConnection (c : Addr)

/-! ## Activation records -/

/-- What an emission is doing with the slot under its cursor. -/
inductive Phase where
  | arrived
  | invoking
  | invoked
  deriving DecidableEq, Repr

/-- One running emission.  `it` and `placeholder` are the iterators it holds; the other fields
record its history: the list when it started, the positions it has left or is invoking, each with
whether its slot was callable then, the slots it has invoked, and the values they have returned. -/
structure Emission (V : Type) where
  impl : Addr
  placeholder : SlotAddr
  it : SlotAddr
  snapshot : List SlotAddr
  reached : List (SlotAddr × Bool) := []
  called : List SlotAddr := []
  results : List V := []
  phase : Phase := .arrived

/-- A slot that depends on a trackable: its rep, and its entry in a signal if it is connected. -/
structure Dependent where
  rep : Addr
  entry : Option SelfAndIter
  deriving DecidableEq, Repr

inductive Frame (V : Type) where
  /-- an emission, with its `signal_impl_holder` and its `temp_slot_list` -/
  | emission (e : Emission V)
  /-- `sweep()`, at `it` (`none` is `end()`), while it destroys the slot `erasing` -/
  | sweep (impl : Addr) (it erasing : Option SlotAddr)
  /-- `notify_self_and_iter_of_invalidated_slot()` with its local `si` -/
  | cleanup (si : Addr)
  /-- the erasure in that function, while it destroys the slot `iter` -/
  | erase (impl : Addr) (iter : SlotAddr)
  /-- `signal_impl::clear()` with its locals, at `it` of its first loop (`none` is `end()`), or
  while `slots_.clear()` destroys the slot `erasing` -/
  | clear (impl : Addr) (it erasing : Option SlotAddr) (duringEmission savedDeferred : Bool)
  /-- the end of a `signal_impl_holder`: the execution count is released, the pointer is not -/
  | holding (impl : Addr)
  /-- a `shared_ptr` has let go of the `signal_impl` -/
  | releasing (impl : Addr)
  /-- the loop over the callbacks of a trackable, `next` being the first not yet looked at;
  `dependents` are the slots that depended on it when the loop began -/
  | notifying (t : Addr) (next : Nat) (dependents : List Dependent)
  /-- `notify_slot_rep_invalidated()` with its local `notifier` -/
  | invalidating (rep notifier : Addr)
  /-- `delete_rep_with_check()` with its local `notifier` -/
  | checking (slot : SlotAddr) (rep notifier : Addr)
  /-- `delete rep_` -/
  | deleting (rep : Addr)
  /-- an assignment operator of `slot_base` that holds `newRep` and deletes the old one -/
  | assigning (dst : SlotAddr) (newRep : Addr)
  /-- the functor of a slot is running -/
  | handler (rep : Addr)
  /-- the destructor of a functor is running, with these targets still to be destroyed -/
  | functorDtor (rep : Addr) (rest : Functor)

/-- Does this frame hold the execution count of `i`? -/
def Frame.execOn {V : Type} (i : Addr) : Frame V → Bool
  | .emission e => e.impl = i
  | .sweep j _ _ | .erase j _ | .clear j _ _ _ _ => j = i
  | _ => false

/-- Does this frame hold a `shared_ptr` to `i`? -/
def Frame.owns {V : Type} (i : Addr) : Frame V → Bool
  | .emission e => e.impl = i
  | .sweep j _ _ | .erase j _ | .holding j => j = i
  | _ => false

/-- What has happened in a run, as far as the statements about runs need to know. -/
inductive Event where
  /-- `connect()` or `connect_first()`, of a slot that could be called, or not -/
  | connected (impl : Addr) (rep : Option Addr) (first nonEmpty : Bool)
  /-- `slot_rep::disconnect()` or `notify_slot_rep_invalidated()` -/
  | disconnected (rep : Addr)
  /-- `signal_impl::clear()` -/
  | cleared (impl : Addr)
  /-- an emission has started: the active emissions of the signal, and the functions that hold its
  execution count -/
  | started (impl : Addr) (emissions holders : Nat)
  /-- the functor of the rep is invoked -/
  | invoked (rep : Addr)
  /-- the trackable has run through its callbacks -/
  | notified (t : Addr) (dependents : List Dependent)
  /-- a slot with this rep is being moved, possibly while the rep is being invalidated -/
  | moved (rep : Addr) (invalidating : Bool)
  /-- a connection to a slot has been built, which possibly had a rep -/
  | referenced (slot : SlotAddr) (rep : Bool)
  /-- a slot has been given another rep, or none, when the one it had was possibly still alive -/
  | replaced (slot : SlotAddr) (alive : Bool)
  /-- the last handle of the signal has gone, possibly while a function was running on it -/
  | expired (impl : Addr) (running : Bool)
  deriving DecidableEq, Repr

/-- Is this frame an emission of `i`? -/
def Frame.emissionOf {V : Type} (i : Addr) : Frame V → Bool
  | .emission e => e.impl = i
  | _ => false

/-- Is this frame a `slots_.clear()` of `i`, in the middle of which an element is destroyed? -/
def Frame.destroys {V : Type} (i : Addr) : Frame V → Bool
  | .clear j _ (some _) _ _ => j = i
  | _ => false

/-- Is this frame an invalidation of `r`? -/
def Frame.invalidates {V : Type} (r : Addr) : Frame V → Bool
  | .invalidating q _ => q = r
  | _ => false

structure World (V : Type) where
  next : Addr := 0
  trackables : Addr → Option Trackable := fun _ => none
  reps : Addr → Option SlotRep := fun _ => none
  slots : SlotAddr → Option SlotBase := fun _ => none
  impls : Addr → Option SignalImpl := fun _ => none
  records : Addr → Option SelfAndIter := fun _ => none
  weaks : Addr → Option WeakRawPtr := fun _ => none
  /-- the live `signal_base` objects with their `impl_` -/
  handles : List (Addr × Option Addr) := []
  frames : List (Frame V) := []
  /-- the emissions that are over, and whether each ran to its end -/
  finished : List (Emission V × Bool) := []
  /-- the dependencies that `add_callback()` has ignored: the trackable and the data -/
  ignored : List (Addr × Addr) := []
  /-- the history of the run, the last event first -/
  log : List Event := []
  script : List (Cmd V) := []

/-! ## Halts -/

/-- Undefined behaviour, by the access that runs into it. -/
inductive Fault where
  /-- an iterator of an emission, of `sweep()` or of `clear()` points to no element -/
  | cursor
  /-- `self_and_iter::iter_` points to no element -/
  | iter
  /-- a `signal_impl` is destroyed while a function still runs on it -/
  | implInUse
  /-- the destructor of an element uses the list that `slots_.clear()` is destroying -/
  | reentered
  | deadImpl
  | deadSlot
  | deadRep
  | deadTrackable
  | deadCallbackList
  | deadRecord
  | deadWeak
  | deadSignal
  /-- a call through a null function pointer or a read through a null `functor_` -/
  | nullFunction
  /-- `shared_from_this()` throws in a destructor -/
  | badWeakPtr
  /-- an exception leaves a destructor -/
  | terminate
  deriving DecidableEq, Repr

/-- Why a run ends before its program does: the client issues no further command, the run is cut
off at a given depth, or its behaviour is undefined from here on. -/
inductive Halt where
  | stop
  | fuel
  | fault (f : Fault)
  deriving DecidableEq, Repr

abbrev M (V : Type) := Prog (World V) Nat Halt

/-- The calls that go through a pointer, so that their callee is not fixed by the caller: client
code (`noexcept` in a destructor), the functor of a slot, `notify_slot_rep_invalidated()` as the
callback of a trackable or of an inner slot, the destructor of a functor, and the deleter of the
last `shared_ptr`. -/
inductive Call where
  | client (noexcept : Bool)
  | handler (rep : Addr)
  | notify (rep : Addr)
  | functorDtor (rep : Addr) (f : Functor)
  | dispose (impl : Addr)

/-- How indirect calls are answered, and how often a loop or a recursion of the library may go
round before the run is cut off. -/
structure Env (V : Type) where
  call : Call → M V V
  fuel : Nat

/-! ## Reading and writing objects -/

variable {V : Type}

namespace World

def setTrackable (w : World V) (t : Addr) (x : Option Trackable) : World V :=
  { w with trackables := Function.update w.trackables t x }

def setRep (w : World V) (r : Addr) (x : Option SlotRep) : World V :=
  { w with reps := Function.update w.reps r x }

def setSlot (w : World V) (s : SlotAddr) (x : Option SlotBase) : World V :=
  { w with slots := Function.update w.slots s x }

def setImpl (w : World V) (i : Addr) (x : Option SignalImpl) : World V :=
  { w with impls := Function.update w.impls i x }

def setRecord (w : World V) (k : Addr) (x : Option SelfAndIter) : World V :=
  { w with records := Function.update w.records k x }

def setWeak (w : World V) (c : Addr) (x : Option WeakRawPtr) : World V :=
  { w with weaks := Function.update w.weaks c x }

def push (w : World V) (f : Frame V) : World V := { w with frames := f :: w.frames }

def pop (w : World V) : World V := { w with frames := w.frames.tail }

def setTop (w : World V) (f : Frame V) : World V := { w with frames := f :: w.frames.tail }

def record (w : World V) (e : Event) : World V := { w with log := e :: w.log }

/-- The slots whose functor refers to `t`. -/
def dependents (w : World V) (t : Addr) : List Dependent :=
  (List.range w.next).filterMap fun r =>
    match w.reps r with
    | none => none
    | some rep =>
      if rep.functor.any (.trackable t ∈ ·) then
        some { rep := r
               entry := if rep.cleanup = some .notifySelfAndIterOfInvalidatedSlot then
                   rep.parent.bind w.records
                 else none }
      else none

/-- The number of functions that hold the execution count of `i`: its emissions, a `sweep()`, an
erasure, the calls of `clear()`. -/
def execs (w : World V) (i : Addr) : Nat := w.frames.countP (Frame.execOn i)

def hasHandle (w : World V) (h : Addr) : Bool := w.handles.any (·.1 = h)

/-- `use_count() > 0`: some handle or some holder still shares `i`. -/
def owned (w : World V) (i : Addr) : Bool :=
  w.handles.any (fun h => h.2 = some i) || w.frames.any (Frame.owns i)

end World

section Access

open Prog

def fault {α : Type} (f : Fault) : M V α := halt (.fault f)

def loadTrackable (t : Addr) : M V Trackable := deref (.fault .deadTrackable) (·.trackables t)

def loadRep (r : Addr) : M V SlotRep := deref (.fault .deadRep) (·.reps r)

def loadSlot (s : SlotAddr) : M V SlotBase := deref (.fault .deadSlot) (·.slots s)

/-- A slot whose rep is exchanged: its destructor has not begun. -/
def loadIntact (s : SlotAddr) : M V SlotBase :=
  deref (.fault .deadSlot) fun w => (w.slots s).filter (!·.dying)

def loadImpl (i : Addr) : M V SignalImpl := deref (.fault .deadImpl) (·.impls i)

def loadRecord (k : Addr) : M V SelfAndIter := deref (.fault .deadRecord) (·.records k)

def loadWeak (c : Addr) : M V WeakRawPtr := deref (.fault .deadWeak) (·.weaks c)

/-- A fresh address. -/
def alloc : M V Addr := do
  let a ← read (·.next)
  modify fun w => { w with next := w.next + 1 }
  pure a

end Access

end Sigc
