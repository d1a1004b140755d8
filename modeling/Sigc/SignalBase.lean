import Sigc.SlotBase

/-!
# Signals

`signal_impl`, its holders and `signal_base`, from `signal_base.cc` and `signal_base.h`.

A `shared_ptr` is modelled by what it guarantees: the `signal_impl` is destroyed when the last
handle or holder that shares it lets go of it.
-/

namespace Sigc

open Reasoning Prog

variable {V : Type}

/-! ## Lists of slots -/

/-- `++it`: the element after `x`, or `none` for `end()`.  There is no answer where `x` is not in
the list. -/
def following (x : SlotAddr) : List SlotAddr → Option (Option SlotAddr)
  | [] => none
  | y :: ys => if y = x then some ys.head? else following x ys

namespace SignalImpl

/-- `slots_`.  A `std::list` must not be used while its `clear()` destroys the elements. -/
def loadSlots (i : Addr) : M V (List SlotAddr) := do
  let self ← loadImpl i
  if ← read (·.frames.any (Frame.destroys i)) then fault .reentered else pure self.slots

def setSlots (i : Addr) (slots : List SlotAddr) : M V Unit := do
  let self ← loadImpl i
  modify (·.setImpl i (some { self with slots }))

/-- The part of `slots_.erase(n)` before the element is destroyed. -/
def unlink (f : Fault) (i : Addr) (n : SlotAddr) : M V Unit := do
  let slots ← loadSlots i
  -- to erase what is not in the list is undefined
  if n ∈ slots then setSlots i (slots.erase n) else fault f

def next (i : Addr) (n : SlotAddr) : M V (Option SlotAddr) := do
  let slots ← loadSlots i
  deref (.fault .cursor) fun _ => following n slots

def setDeferred (i : Addr) (deferred : Bool) : M V Unit := do
  let self ← loadImpl i
  modify (·.setImpl i (some { self with deferred }))

def referenceExec (i : Addr) : M V Unit := do
  let self ← loadImpl i
  modify (·.setImpl i (some { self with execCount := self.execCount + 1 }))

/-- `--exec_count_`. -/
def decrementExec (i : Addr) : M V Unit := do
  let self ← loadImpl i
  modify (·.setImpl i (some { self with execCount := self.execCount - 1 }))

/-- The condition under which `unreference_exec()` calls `sweep()`. -/
def mustSweep (i : Addr) : M V Bool := do
  let self ← loadImpl i
  pure (self.execCount = 0 && self.deferred)

/-- A `shared_ptr` to `i` has been reset, and `.releasing i` is on top of the stack: the object is
destroyed where that was the last one. -/
def release (u : Env V) (i : Addr) : M V Unit := do
  let owned ← read (·.owned i)
  (if owned then pure () else do
    let _ ← u.call (.dispose i))
  modify (·.pop)

/-- The end of a `signal_impl_holder`, whose frame is on top: first `exec_holder_` is destroyed,
then the pointer `sig_`. -/
def leaveHolder (u : Env V) (sweep : Addr → M V Unit) (i : Addr) : M V Unit := do
  -- `unreference_exec()`: `if (!(--exec_count_) && deferred_) sweep();`
  decrementExec i
  modify (·.setTop (.holding i))
  let must ← mustSweep i
  (if must then sweep i else pure ())
  -- `sig_` goes last
  modify (·.setTop (.releasing i))
  release u i

/-- The loop of `sweep()`, its iterator being in the frame on top. -/
def sweepLoop (u : Env V) (i : Addr) : Nat → Option SlotAddr → M V Unit
  | 0, _ => halt .fuel
  | _ + 1, none => pure ()
  | n + 1, some it => do
    let it' ← next i it
    if ← SlotBase.empty it then do
      -- `i = slots_.erase(i)`: the element is out of the list before it is destroyed
      unlink .cursor i it
      modify (·.setTop (.sweep i it' (some it)))
      SlotBase.destroy u it
      modify (·.setTop (.sweep i it' none))
      sweepLoop u i n it'
    else do
      modify (·.setTop (.sweep i it' none))
      sweepLoop u i n it'

/-- The holder of `sweep()` and the reset of `deferred_`. -/
def enterSweep (i : Addr) : M V (Option SlotAddr) := do
  referenceExec i
  setDeferred i false
  let slots ← loadSlots i
  modify (·.push (.sweep i slots.head? none))
  pure slots.head?

def sweep (u : Env V) : Nat → Addr → M V Unit
  | 0, _ => halt .fuel
  | n + 1, i => do
    -- `shared_from_this()` throws where no `shared_ptr` is left
    if ← read (·.owned i) then do
      let it ← enterSweep i
      sweepLoop u i u.fuel it
      leaveHolder u (sweep u n) i
    else fault .badWeakPtr

/-- What is done about a disconnected slot of a living list. -/
def eraseOrDefer (u : Env V) (si : SelfAndIter) : M V Unit := do
  let self ← loadImpl si.self
  if self.execCount = 0 then do
    -- nobody iterates over the list: the element is erased at once
    referenceExec si.self
    modify (·.push (.erase si.self si.iter))
    unlink .iter si.self si.iter
    SlotBase.destroy u si.iter
    leaveHolder u (sweep u u.fuel) si.self
  -- during an emission, a `clear()` or another erasure, `sweep()` will do it
  else setDeferred si.self true

/-- `notify_self_and_iter_of_invalidated_slot()`. -/
def notifySelfAndIterOfInvalidatedSlot (u : Env V) (d : Addr) : M V Unit := do
  let si ← loadRecord d
  modify (·.push (.cleanup d))
  -- `si->self_.lock()`, which is null once the last `shared_ptr` is gone
  let owned ← read (·.owned si.self)
  (if owned then eraseOrDefer u si else pure ())
  modify fun w => (w.setRecord d none).pop

/-- The first loop of `clear()`. -/
def disconnectLoop (u : Env V) (i : Addr) (during saved : Bool) :
    Nat → Option SlotAddr → M V Unit
  | 0, _ => halt .fuel
  | _ + 1, none => pure ()
  | n + 1, some it => do
    SlotBase.disconnect u (notifySelfAndIterOfInvalidatedSlot u) it
    -- `++it`: the holder has kept the element in the list
    let it' ← next i it
    modify (·.setTop (.clear i it' none during saved))
    disconnectLoop u i during saved n it'

/-- `slots_.clear()`: the elements are destroyed one after the other, and none is left. -/
def clearSlots (u : Env V) (i : Addr) (saved : Bool) : Nat → M V Unit
  | 0 => halt .fuel
  | n + 1 => do
    match ← loadSlots i with
    | [] => pure ()
    | s :: slots => do
      -- the list is in an unspecified state until all of the elements are gone
      setSlots i slots
      modify (·.setTop (.clear i none (some s) false saved))
      SlotBase.destroy u s
      modify (·.setTop (.clear i none none false saved))
      clearSlots u i saved n

/-- What `clear()` reads before its holder, which shares no pointer, and the holder. -/
def enterClear (i : Addr) : M V (Bool × Bool × Option SlotAddr) := do
  let self ← loadImpl i
  -- `exec_count_ > 0`, of a `short`
  let during := decide (0 < self.execCount.toInt)
  referenceExec i
  let slots ← loadSlots i
  modify (·.push (.clear i slots.head? none during self.deferred))
  pure (during, self.deferred, slots.head?)

def clear (u : Env V) (i : Addr) : M V Unit := do
  let (during, saved, it) ← enterClear i
  disconnectLoop u i during saved u.fuel it
  modify (·.record (.cleared i))
  -- during an emission the disconnected elements are left to `sweep()`
  (if during then pure () else do
    setDeferred i saved
    clearSlots u i saved u.fuel)
  decrementExec i
  modify (·.pop)
  let must ← mustSweep i
  if must then sweep u u.fuel i else pure ()

/-- `~signal_impl()`, and the end of `slots_`. -/
def destroy (u : Env V) (i : Addr) : M V Unit := do
  if ← read (·.frames.any (Frame.execOn i)) then fault .implInUse else do
  clear u i
  -- `clear()` has left no element for the destructor of `slots_`
  let slots ← loadSlots i
  if slots = [] then modify (·.setImpl i none) else fault .implInUse

/-! ## Connecting -/

def link (i : Addr) (first : Bool) (n : SlotAddr) : M V Unit := do
  let slots ← loadSlots i
  setSlots i (if first then n :: slots else slots ++ [n])

def addNotificationToIter (i : Addr) (n : SlotAddr) : M V Unit := do
  let si ← alloc
  modify (·.setRecord si (some { self := i, iter := n }))
  -- an element without a rep is given a `dummy_slot_rep`
  SlotBase.setParent n si .notifySelfAndIterOfInvalidatedSlot

def recordConnected (i : Addr) (first : Bool) (n : SlotAddr) (w : World V) : World V :=
  let rep := (w.slots n).bind (·.rep)
  w.record (.connected i rep first ((rep.bind w.reps).any (·.call)))

/-- The element `n` takes its place in the list, and is told its parent. -/
def place (i : Addr) (first : Bool) (n : SlotAddr) : M V Unit := do
  link i first n
  addNotificationToIter i n
  modify (recordConnected i first n)

/-- `slots_.insert()` of an element constructed from `init`, and the notification. -/
def insertBuilt (i : Addr) (first : Bool) (init : SlotInit) : M V SlotAddr := do
  let n ← SlotBase.construct (.list i) init
  place i first n
  pure n

/-- `slots_.insert()` of an element that takes the rep of `src`, and the notification. -/
def insertTaken (i : Addr) (first : Bool) (src : SlotAddr) (blocked : Bool) : M V SlotAddr := do
  let n ← SlotBase.takeRep (.list i) src blocked
  place i first n
  pure n

/-- `connect()` and `connect_first()`, for a slot to be copied or to be moved. -/
def insert (u : Env V) (i : Addr) (first move : Bool) (src : SlotAddr) : M V SlotAddr :=
  if move then SlotBase.moveConstructWith u (insertBuilt i first) (insertTaken i first) src
  else do
    -- the element is built by the copy constructor
    let init ← SlotBase.copyInit u.fuel src
    insertBuilt i first init

def blockLoop (shouldBlock : Bool) : List SlotAddr → M V Unit
  | [] => pure ()
  | s :: ss => do
    SlotBase.block s shouldBlock
    blockLoop shouldBlock ss

def block (i : Addr) (shouldBlock : Bool) : M V Unit := do
  let slots ← loadSlots i
  blockLoop shouldBlock slots

/-! ## Observers -/

def empty (i : Addr) : M V Bool := do
  let slots ← loadSlots i
  pure slots.isEmpty

def size (i : Addr) : M V Nat := do
  let slots ← loadSlots i
  pure slots.length

/-- The loop of `blocked()`: is there no slot that is not blocked? -/
def blockedLoop : List SlotAddr → M V Bool
  | [] => pure true
  | s :: ss => do
    let sl ← loadSlot s
    if sl.blocked then blockedLoop ss else pure false

def blocked (i : Addr) : M V Bool := do
  let slots ← loadSlots i
  blockedLoop slots

end SignalImpl

/-! ## Handles -/

/-- `impl_` of the handle `h`. -/
def World.implOf (w : World V) (h : Addr) : Option Addr := (w.handles.lookup h).join

/-- `impl_` of `h` becomes `i`. -/
def World.setHandle (w : World V) (h : Addr) (i : Option Addr) : World V :=
  { w with handles := w.handles.map fun p => if p.1 = h then (h, i) else p }

namespace SignalBase

def new (i : Option Addr) : M V Addr := do
  let h ← alloc
  modify fun w => { w with handles := (h, i) :: w.handles }
  pure h

/-- `impl()`: the `signal_impl` is allocated when it is first needed. -/
def impl (h : Addr) : M V Addr := do
  match ← read (·.implOf h) with
  | some i => pure i
  | none => do
    let i ← alloc
    modify fun w => (w.setImpl i (some {})).setHandle h (some i)
    pure i

def copyConstruct (src : Addr) : M V Addr := do
  -- the source gets a list of its own first, so that there is one to share
  let i ← impl src
  new (some i)

def moveConstruct (src : Addr) : M V Addr := do
  let i ← read (·.implOf src)
  modify (·.setHandle src none)
  new i

/-- The `shared_ptr` that has been replaced lets go of its object, whose frame is on top. -/
def releaseOld (u : Env V) : Option Addr → M V Unit
  | none => pure ()
  | some i => SignalImpl.release u i

/-- A handle has let go of `i`, which is going to be destroyed if that was the last one. -/
def letGo (i : Option Addr) : M V (Option Addr) := do
  match i with
  | none => pure none
  | some i => do
    modify fun w => (if w.owned i then w
      else w.record (.expired i (w.frames.any (Frame.execOn i)))).push (.releasing i)
    pure (some i)

/-- A new value for `impl_` of `h`; the frame for the release of the old one is pushed with it. -/
def replaceImpl (h : Addr) (i : Option Addr) : M V (Option Addr) := do
  let old ← read (·.implOf h)
  modify (·.setHandle h i)
  letGo old

def assign (u : Env V) (dst src : Addr) : M V Unit := do
  let i ← read (·.implOf src)
  let j ← read (·.implOf dst)
  -- also where neither has been used: nothing is shared then
  if i = j then pure () else do
    let i ← impl src
    let old ← replaceImpl dst (some i)
    releaseOld u old

/-- What the old object destroys may destroy `src`, which is written after it. -/
def moveAssign (u : Env V) (dst src : Addr) : M V Unit := do
  let i ← read (·.implOf src)
  let j ← read (·.implOf dst)
  if i = j then pure () else do
    -- `impl_ = src.impl_`, with the release of the old object
    let old ← replaceImpl dst i
    releaseOld u old
    if ← read (·.hasHandle src) then do
      let old ← replaceImpl src none
      releaseOld u old
    else fault .deadSignal

/-- The end of a handle: its `impl_` lets go of the object. -/
def dropHandle (h : Addr) : M V (Option Addr) := do
  let old ← read (·.implOf h)
  modify fun w => { w with handles := w.handles.filter (·.1 ≠ h) }
  letGo old

def destroy (u : Env V) (h : Addr) : M V Unit := do
  let old ← dropHandle h
  releaseOld u old

def clear (u : Env V) (h : Addr) : M V Unit := do
  match ← read (·.implOf h) with
  | none => pure ()
  | some i => SignalImpl.clear u i

def block (h : Addr) (shouldBlock : Bool) : M V Unit := do
  match ← read (·.implOf h) with
  | none => pure ()
  | some i => SignalImpl.block i shouldBlock

def empty (h : Addr) : M V Bool := do
  match ← read (·.implOf h) with
  | none => pure true
  | some i => SignalImpl.empty i

def size (h : Addr) : M V Nat := do
  match ← read (·.implOf h) with
  | none => pure 0
  | some i => SignalImpl.size i

def blocked (h : Addr) : M V Bool := do
  match ← read (·.implOf h) with
  | none => pure true
  | some i => SignalImpl.blocked i

end SignalBase

end Sigc
