import Sigc.SignalBase

/-!
# Emission

The three bodies of `signal_emit` and `slot_iterator_buf`, from `signal.h`.  The iterators of an
emission are kept in its frame on top of the stack, together with its history; the parts that all
bodies share are the construction of holder and placeholder, the step past a slot, and their
destruction.
-/

namespace Sigc

open Reasoning Prog

variable {V : Type}

namespace Emission

/-- `++it`, recorded in the frame. -/
def advance (e : Emission V) : M V (Emission V) := do
  match ← SignalImpl.next e.impl e.it with
  | some it => do
    let e := { e with it, phase := .arrived }
    modify (·.setTop (.emission e))
    pure e
  | none => fault .cursor

/-- `!it->empty() && !it->blocked()`, the iterator being dereferenced. -/
def callable (it : SlotAddr) : M V Bool := do
  let sl ← deref (.fault .cursor) (·.slots it)
  match sl.rep with
  | none => pure false
  | some r => do
    let rep ← loadRep r
    pure (rep.call && !sl.blocked)

/-- `signal_impl_holder exec(impl)`, `temp_slot_list slots(impl->slots_)` and `slots.begin()`. -/
def start (i : Addr) : M V (Emission V) := do
  -- the holder comes first: from here on, slots that are disconnected stay in the list
  SignalImpl.referenceExec i
  let snapshot ← SignalImpl.loadSlots i
  let depth ← read (·.frames.length)
  let placeholder := SlotAddr.placeholder depth
  let e : Emission V :=
    { impl := i, placeholder, it := snapshot.headD placeholder, snapshot }
  -- an empty slot at the end, where the emission is going to stop
  modify (·.setSlot placeholder (some { owner := .list i }))
  SignalImpl.setSlots i (snapshot ++ [placeholder])
  modify (·.push (.emission e))
  modify fun w => w.record
    (.started i (w.frames.countP (Frame.emissionOf i)) (w.execs i))
  pure e

/-- The slot at `it` is not callable: the loop goes past it. -/
def skip (e : Emission V) : M V (Emission V) :=
  advance { e with reached := e.reached ++ [(e.it, false)] }

/-- The slot at `it` is invoked: its rep is read, and the invocation is recorded. -/
def beginCall (e : Emission V) : M V (Emission V × Addr) := do
  let sl ← deref (.fault .cursor) (·.slots e.it)
  let r ← deref (.fault .cursor) fun _ => sl.rep
  let e := { e with reached := e.reached ++ [(e.it, true)], called := e.called ++ [e.it],
                    phase := .invoking }
  modify (·.setTop (.emission e))
  pure (e, r)

/-- The invoked slot has returned `v`. -/
def endCall (e : Emission V) (v : V) : M V (Emission V) := do
  let e := { e with results := e.results ++ [v], phase := .invoked }
  modify (·.setTop (.emission e))
  pure e

/-- The destructors of `slots` and `exec`, at the end of the emission or when a slot throws. -/
def finish (u : Env V) (completed : Bool) : M V Unit := do
  match ← read (·.frames.head?) with
  | some (.emission e) => do
    -- `~temp_slot_list()`
    SignalImpl.unlink .cursor e.impl e.placeholder
    modify fun w => { w.setSlot e.placeholder none with
      finished := (e, completed) :: w.finished }
    -- `~signal_impl_holder()`
    SignalImpl.leaveHolder u (SignalImpl.sweep u u.fuel) e.impl
  | _ => pure ()

/-- `call_(rep_, a...)` at the slot under the cursor. -/
def invoke (u : Env V) (e : Emission V) : M V (Emission V × V) := do
  let (e, r) ← beginCall e
  let v ← u.call (.handler r)
  let e ← endCall e v
  pure (e, v)

end Emission

namespace SignalEmit

/-! ## `signal_emit<void, void>` -/

def voidLoop (u : Env V) : Nat → Emission V → M V Unit
  | 0, _ => halt .fuel
  | n + 1, e => do
    if e.it = e.placeholder then pure ()
    else if ← Emission.callable e.it then do
      let (e, _) ← Emission.invoke u e
      let e ← Emission.advance e
      voidLoop u n e
    else do
      let e ← Emission.skip e
      voidLoop u n e

def emitVoid (u : Env V) (impl : Option Addr) : M V Unit := do
  match impl with
  | none => pure ()
  | some i => do
    let slots ← SignalImpl.loadSlots i
    -- `if (!impl || impl->slots_.empty()) return;`
    if slots = [] then pure () else
    onExit (do
      let e ← Emission.start i
      voidLoop u u.fuel e) (Emission.finish u)

/-! ## `signal_emit<T_return, void>` -/

variable [Inhabited V]

/-- The second loop, after the first slot has been invoked; `r_` is the last value returned. -/
def valueLoop (u : Env V) : Nat → Emission V → V → M V V
  | 0, _, _ => halt .fuel
  | n + 1, e, r_ => do
    if e.it = e.placeholder then pure r_
    else if ← Emission.callable e.it then do
      let (e, v) ← Emission.invoke u e
      let e ← Emission.advance e
      valueLoop u n e v
    else do
      let e ← Emission.skip e
      valueLoop u n e r_

/-- The first loop, which looks for a callable slot, and the invocation of that slot. -/
def valueSearch (u : Env V) : Nat → Emission V → M V V
  | 0, _ => halt .fuel
  | n + 1, e => do
    -- no slot can be called: `return T_return();`
    if e.it = e.placeholder then pure default
    else if ← Emission.callable e.it then do
      let (e, v) ← Emission.invoke u e
      let e ← Emission.advance e
      valueLoop u n e v
    else do
      let e ← Emission.skip e
      valueSearch u n e

def emitValue (u : Env V) (impl : Option Addr) : M V V := do
  match impl with
  | none => pure default
  | some i => do
    let slots ← SignalImpl.loadSlots i
    if slots = [] then pure default else
    onExit (do
      let e ← Emission.start i
      valueSearch u u.fuel e) (Emission.finish u)

/-! ## `signal_emit` with an accumulator -/

/-- `slot::operator()`, which tests once more whether the slot can be called. -/
def callSlotAt (u : Env V) (e : Emission V) : M V (Emission V × V) := do
  if ← Emission.callable e.it then Emission.invoke u e else pure (e, default)

/-- A `slot_iterator_buf`: its position is in the frame of the emission.  `r_` is `none` as long as
nothing has been written to it. -/
structure IteratorBuf (V : Type) where
  r_ : Option V := none
  invoked : Bool := false

/-- `slot_iterator_buf::operator*`. -/
def dereference (u : Env V) (e : Emission V) (buf : IteratorBuf V) :
    M V (Emission V × IteratorBuf V) := do
  if (← Emission.callable e.it) && !buf.invoked then do
    let (e, v) ← callSlotAt u e
    pure (e, { r_ := some v, invoked := true })
  -- `r_` is returned as it is, even if nothing has been written to it
  else pure (e, buf)

/-- The dereferences of one position after the first, each with the value that it yields. -/
def dereferenceAgain (u : Env V) :
    Nat → Emission V → IteratorBuf V → List (Option V) →
      M V (Emission V × IteratorBuf V × List (Option V))
  | 0, e, buf, ys => pure (e, buf, ys)
  | k + 1, e, buf, ys => do
    let (e, buf) ← dereference u e buf
    dereferenceAgain u k e buf (ys ++ [buf.r_])

/-- `++first`: the frame learns that a position was left without its slot having been invoked. -/
def increment (e : Emission V) (buf : IteratorBuf V) : M V (Emission V × IteratorBuf V) := do
  -- `++i_`
  let e ← if buf.invoked then Emission.advance e else Emission.skip e
  pure (e, { buf with invoked := false })

/-- An accumulator's walk from `first` to `last`.  The result is the sequence of values that the
iterator has yielded, one list for each position; what the accumulator computes is a function of
it. -/
def accumulate (u : Env V) (again : List (Option V) → Nat) :
    Nat → Emission V → IteratorBuf V → List (List (Option V)) → M V (List (List (Option V)))
  | 0, _, _, _ => halt .fuel
  | n + 1, e, buf, yss => do
    if e.it = e.placeholder then pure yss
    else do
      let (e, buf) ← dereference u e buf
      let (e, buf, ys) ← dereferenceAgain u (again (yss.flatten ++ [buf.r_])) e buf [buf.r_]
      let (e, buf) ← increment e buf
      accumulate u again n e buf (yss ++ [ys])

def emitAccumulated (u : Env V) (again : List (Option V) → Nat) (impl : Option Addr) :
    M V (List (List (Option V))) := do
  match impl with
  -- two default constructed iterators, which are equal
  | none => pure []
  | some i =>
    onExit (do
      -- an empty list is walked as well, up to the placeholder
      let e ← Emission.start i
      accumulate u again u.fuel e {} []) (Emission.finish u)

/-- `signal::emit()`. -/
def emit (u : Env V) (path : Path V) (impl : Option Addr) : M V Unit := do
  match path with
  | .void => emitVoid u impl
  | .value => do
    let _ ← emitValue u impl
    pure ()
  | .accumulated again => do
    let _ ← emitAccumulated u again impl
    pure ()

end SignalEmit

end Sigc
