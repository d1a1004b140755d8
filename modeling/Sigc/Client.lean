import Sigc.Emission

/-!
# Client code and whole runs

Client code is anything that issues commands: the main program, the functors of slots, and the
destructors of functors.  Which commands it issues is not fixed; a run takes them, one after the
other, from a script, so that a statement about every script is one about every behaviour of every
piece of client code.  When the script is at its end the run stops where it is, in the middle of
whatever is suspended on the stack.
-/

namespace Sigc

open Reasoning Prog

variable {V : Type}

/-! ## Well-formed commands -/

namespace World

/-- An object of the client that is a trackable and has not begun to be destroyed. -/
def hasTrackable (w : World V) (t : Addr) : Bool :=
  (w.reps t).isNone && (w.trackables t).any (!·.dying)

/-- A slot that client code can name: one of its own or one stored in a functor. -/
def hasSlot (w : World V) (s : SlotAddr) : Bool :=
  (w.slots s).any fun sl => !sl.dying && (sl.owner = .client || sl.owner = .functor)

def hasOwnSlot (w : World V) (s : SlotAddr) : Bool :=
  (w.slots s).any fun sl => !sl.dying && sl.owner = .client

def hasConnection (w : World V) (c : Addr) : Bool := (w.weaks c).any (!·.notifier)

def hasTarget (w : World V) : Target → Bool
  | .trackable t => w.hasTrackable t
  | .slot s => w.hasSlot s

end World

/-- The objects that a command names exist and are of the right kind. -/
def Cmd.wellFormed (w : World V) : Cmd V → Bool
  | .ret _ | .throw _ | .newTrackable | .newSlot | .newSignal | .newConnection => true
  | .moveTrackable t | .notifyCallbacks t | .destroyTrackable t => w.hasTrackable t
  | .assignTrackable t t' | .moveAssignTrackable t t' => w.hasTrackable t && w.hasTrackable t'
  | .makeSlot f => f.all w.hasTarget
  | .copySlot s | .moveSlot s | .blockSlot s _ | .disconnectSlot s | .callSlot s
  | .connectionOf s => w.hasSlot s
  | .assignSlot s s' | .moveAssignSlot s s' => w.hasSlot s && w.hasSlot s'
  | .destroySlot s => w.hasOwnSlot s
  | .copySignal h | .moveSignal h | .emit h _ | .clear h | .blockSignal h _
  | .destroySignal h => w.hasHandle h
  | .assignSignal h h' | .moveAssignSignal h h' => w.hasHandle h && w.hasHandle h'
  | .connect h s _ _ => w.hasHandle h && w.hasSlot s
  | .copyConnection c | .block c _ | .disconnect c | .destroyConnection c => w.hasConnection c
  | .assignConnection c c' => w.hasConnection c && w.hasConnection c'

/-! ## Connections -/

namespace Connection

def empty (c : Addr) : M V Bool := do
  let self ← loadWeak c
  match self.ptr with
  | some (.slot s) => SlotBase.empty s
  | _ => pure true

def connected (c : Addr) : M V Bool := do
  let b ← empty c
  pure (!b)

def blocked (c : Addr) : M V Bool := do
  let self ← loadWeak c
  match self.ptr with
  | some (.slot s) => do
    let sl ← loadSlot s
    pure sl.blocked
  | _ => pure false

def disconnect (u : Env V) (c : Addr) : M V Unit := do
  let self ← loadWeak c
  match self.ptr with
  | some (.slot s) => SlotBase.disconnect u (SignalImpl.notifySelfAndIterOfInvalidatedSlot u) s
  | _ => pure ()

def block (c : Addr) (shouldBlock : Bool) : M V Unit := do
  let self ← loadWeak c
  match self.ptr with
  | some (.slot s) => SlotBase.block s shouldBlock
  | _ => pure ()

end Connection

/-! ## Commands -/

/-- `slot::operator()`. -/
def SlotBase.call [Inhabited V] (u : Env V) (s : SlotAddr) : M V V := do
  let sl ← loadSlot s
  match sl.rep with
  | none => pure default
  | some r => do
    let rep ← loadRep r
    -- `!empty() && !blocked()`
    if rep.call && !sl.blocked then u.call (.handler r) else pure default

/-- A slot constructed from a functor: the slots in it are copied into the new rep. -/
def SlotBase.fromFunctor (u : Env V) (f : Functor) : M V SlotAddr := do
  let f' ← copyFunctor (fun s => copyInit u.fuel s >>= construct .functor) f
  construct .client { functor := some f', blocked := false }

namespace Trackable

def construct : M V Addr := do
  let t ← alloc
  modify (·.setTrackable t (some {}))
  pure t

def moveConstruct (u : Env V) (src : Addr) : M V Addr := do
  let t ← construct
  notifyCallbacks u src
  pure t

def assign (u : Env V) (dst src : Addr) : M V Unit :=
  if dst ≠ src then notifyCallbacks u dst else pure ()

def moveAssign (u : Env V) (dst src : Addr) : M V Unit :=
  if dst ≠ src then do
    notifyCallbacks u dst
    notifyCallbacks u src
  else pure ()

def destroy (u : Env V) (t : Addr) : M V Unit := do
  let tr ← loadTrackable t
  modify (·.setTrackable t (some { tr with dying := true }))
  notifyCallbacks u t
  modify (·.setTrackable t none)

end Trackable

/-- `signal_with_accumulator::connect()` and `connect_first()`. -/
def SignalBase.connect (u : Env V) (h : Addr) (src : SlotAddr) (first move : Bool) : M V Addr := do
  let i ← impl h
  let n ← SignalImpl.insert u i first move src
  WeakRawPtr.construct (some (.slot n)) false

/-- The effect of one command other than `ret` and `throw`. -/
def exec [Inhabited V] (u : Env V) : Cmd V → M V Unit
  | .ret _ | .throw _ => pure ()
  | .newTrackable => do let _ ← Trackable.construct
  | .moveTrackable src => do let _ ← Trackable.moveConstruct u src
  | .assignTrackable dst src => Trackable.assign u dst src
  | .moveAssignTrackable dst src => Trackable.moveAssign u dst src
  | .notifyCallbacks t => Trackable.notifyCallbacks u t
  | .destroyTrackable t => Trackable.destroy u t
  | .newSlot => do let _ ← SlotBase.new {}
  | .makeSlot f => do let _ ← SlotBase.fromFunctor u f
  | .copySlot src => do let _ ← SlotBase.copyConstruct u .client src
  | .moveSlot src => do let _ ← SlotBase.moveConstruct u .client src
  | .assignSlot dst src =>
    SlotBase.assign u (SignalImpl.notifySelfAndIterOfInvalidatedSlot u) dst src
  | .moveAssignSlot dst src =>
    SlotBase.moveAssign u (SignalImpl.notifySelfAndIterOfInvalidatedSlot u) dst src
  | .blockSlot s b => SlotBase.block s b
  | .disconnectSlot s =>
    SlotBase.disconnect u (SignalImpl.notifySelfAndIterOfInvalidatedSlot u) s
  | .callSlot s => do let _ ← SlotBase.call u s
  | .destroySlot s => SlotBase.destroy u s
  | .newSignal => do let _ ← SignalBase.new none
  | .copySignal src => do let _ ← SignalBase.copyConstruct src
  | .moveSignal src => do let _ ← SignalBase.moveConstruct src
  | .assignSignal dst src => SignalBase.assign u dst src
  | .moveAssignSignal dst src => SignalBase.moveAssign u dst src
  | .connect h src first move => do let _ ← SignalBase.connect u h src first move
  | .emit h path => do
    let i ← read (·.implOf h)
    SignalEmit.emit u path i
  | .clear h => SignalBase.clear u h
  | .blockSignal h b => SignalBase.block h b
  | .destroySignal h => SignalBase.destroy u h
  | .newConnection => do let _ ← WeakRawPtr.construct none false
  | .connectionOf s => do
    modify fun w => w.record (.referenced s ((w.slots s).any (·.rep.isSome)))
    let _ ← WeakRawPtr.construct (some (.slot s)) false
  | .copyConnection src => do
    let src ← loadWeak src
    let _ ← WeakRawPtr.construct src.ptr false
  | .assignConnection dst src => WeakRawPtr.assign dst src
  | .block c b => Connection.block c b
  | .disconnect c => Connection.disconnect u c
  | .destroyConnection c => WeakRawPtr.destroy c

/-! ## Runs -/

/-- The next command of the client; without one the run stops. -/
def nextCmd : M V (Cmd V) := do
  match ← read (·.script) with
  | [] => halt .stop
  | c :: cs => do
    -- a command that names an object that is not there is not issued
    if ← read fun w => c.wellFormed w then do
      modify fun w => { w with script := cs }
      pure c
    else halt .stop

/-- A piece of client code.  It gets control back when a command throws, and may throw in turn; an
exception that would leave a destructor terminates the program. -/
def clientCode [Inhabited V] (u : Env V) (noexcept : Bool) : M V V := do
  match ← nextCmd with
  | .ret v => pure v
  -- an exception in a destructor terminates the program
  | .throw e => if noexcept then fault .terminate else Prog.throw e
  | c => do
    -- the client catches what a command throws, and goes on
    recover (exec u c) fun _ => pure ()
    u.call (.client noexcept)

/-- The destructor of a functor: client code, in the course of which the slots stored in the
functor are destroyed. -/
def functorDtorLoop (u : Env V) (r : Addr) : Functor → M V Unit
  | [] => do
    let _ ← u.call (.client true)
  | .trackable _ :: ts => do
    modify (·.setTop (.functorDtor r ts))
    functorDtorLoop u r ts
  | .slot s :: ts => do
    let _ ← u.call (.client true)
    modify (·.setTop (.functorDtor r ts))
    -- the member goes with the functor
    SlotBase.destroy u s
    functorDtorLoop u r ts

def dispatch [Inhabited V] : Nat → Call → M V V
  | 0, _ => halt .fuel
  | n + 1, c => do
    let u : Env V := { call := dispatch n, fuel := n }
    match c with
    | .client noexcept => clientCode u noexcept
    -- `call_(rep_, a...)`: the functor of the slot is client code
    | .handler r => do
      modify fun w => (w.record (.invoked r)).push (.handler r)
      onExit (u.call (.client false)) fun _ => modify (·.pop)
    | .notify r => do
      SlotRep.notifySlotRepInvalidated u (SignalImpl.notifySelfAndIterOfInvalidatedSlot u) r
      pure default
    | .functorDtor r f => do
      modify (·.push (.functorDtor r f))
      functorDtorLoop u r f
      modify (·.pop)
      pure default
    -- the last `shared_ptr` has gone
    | .dispose i => do
      SignalImpl.destroy u i
      pure default

/-- A whole program: its main function, in a world without objects. -/
def run [Inhabited V] (fuel : Nat) (script : List (Cmd V)) :
    Outcome Nat Halt V × World V :=
  dispatch fuel (.client false) { script }

/-- The run has not been cut off, and its behaviour is defined. -/
def stops (o : Outcome Nat Halt V) : Bool :=
  match o with
  | .halt h => h = .stop
  | _ => true

/-- The states in which client code is running or has come to its end. -/
def Reachable [Inhabited V] (w : World V) : Prop :=
  ∃ fuel script o, run fuel script = (o, w) ∧ ∀ h, o = .halt h → h = .stop

theorem Reachable.of_run [Inhabited V] {fuel : Nat} {script : List (Cmd V)}
    (h : stops (run fuel script).1 = true) : Reachable (run fuel script).2 := by
  refine ⟨fuel, script, (run fuel script).1, rfl, fun k hk => ?_⟩
  rw [hk] at h
  exact of_decide_eq_true h

end Sigc
