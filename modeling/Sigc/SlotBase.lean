import Sigc.Trackable

/-!
# Slots

`slot_rep` and `slot_base`, from `slot_base.cc`, and `typed_slot_rep` with the visitors it is bound
and unbound by, from `slot.h`.  The parent of a rep in a list of slots is told of its invalidation
by `signal_impl::notify_self_and_iter_of_invalidated_slot()`, which comes with the signals: it is
the parameter `cleanupSelfAndIter` here.
-/

namespace Sigc

open Reasoning Prog

variable {V : Type}

/-! ## Weak pointers -/

namespace WeakRawPtr

/-- `p->add_destroy_notify_callback(this, &notify_object_invalidated)`: a `slot_base` forwards the
registration to its rep and ignores it where it has none. -/
def register (c : Addr) : WeakTarget → M V Unit
  | .rep r => Trackable.addDestroyNotifyCallback r c .notifyObjectInvalidated
  | .slot s => do
    let sl ← loadSlot s
    match sl.rep with
    -- a slot without a rep keeps no callbacks
    | none => pure ()
    | some r => Trackable.addDestroyNotifyCallback r c .notifyObjectInvalidated

def unregister (c : Addr) : WeakTarget → M V Unit
  | .rep r => Trackable.removeDestroyNotifyCallback r c
  | .slot s => do
    let sl ← loadSlot s
    match sl.rep with
    | none => pure ()
    | some r => Trackable.removeDestroyNotifyCallback r c

/-- `if (this->p_) this->p_->add_destroy_notify_callback(...)`. -/
def registerPtr (c : Addr) : Option WeakTarget → M V Unit
  | none => pure ()
  | some p => register c p

def unregisterPtr (c : Addr) : Option WeakTarget → M V Unit
  | none => pure ()
  | some p => unregister c p

def construct (ptr : Option WeakTarget) (notifier : Bool) : M V Addr := do
  let c ← alloc
  modify (·.setWeak c (some { ptr, notifier }))
  registerPtr c ptr
  pure c

def assign (c src : Addr) : M V Unit := do
  let self ← loadWeak c
  -- `operator=` unregisters before it looks at `src`, which may be `c` itself
  unregisterPtr c self.ptr
  let src ← loadWeak src
  modify (·.setWeak c (some { self with ptr := src.ptr }))
  registerPtr c src.ptr

def destroy (c : Addr) : M V Unit := do
  let self ← loadWeak c
  unregisterPtr c self.ptr
  modify (·.setWeak c none)

end WeakRawPtr

/-! ## Visitors -/

def visitEach (action : Target → M V Unit) : Functor → M V Unit
  | [] => pure ()
  | t :: ts => do
    action t
    visitEach action ts

/-- `slot_do_bind`: the rep `r` becomes a dependency of a trackable, and the parent of a slot that
has none. -/
def slotDoBind (r : Addr) : Target → M V Unit
  | .trackable t => Trackable.addDestroyNotifyCallback t r .notifySlotRepInvalidated
  | .slot s => do
    let target ← loadSlot s
    match target.rep with
    | none => pure ()
    | some q => do
      let rep ← loadRep q
      -- a slot that has a parent keeps it
      if rep.parent = none then
        modify (·.setRep q
          (some { rep with parent := some r, cleanup := some .notifySlotRepInvalidated }))
      else pure ()

def slotDoUnbind (r : Addr) : Target → M V Unit
  | .trackable t => Trackable.removeDestroyNotifyCallback t r
  | .slot s => do
    let target ← loadSlot s
    match target.rep with
    | none => pure ()
    | some q => do
      let rep ← loadRep q
      -- `unset_parent()`, unless the slot has been given another parent
      if rep.parent = some r then
        modify (·.setRep q (some { rep with parent := none, cleanup := none }))
      else pure ()

/-! ## `slot_rep` -/

namespace SlotRep

/-- A `typed_slot_rep` for the functor `f`, which is already the copy that it owns. -/
def construct (f : Functor) : M V Addr := do
  let r ← alloc
  modify fun w => (w.setRep r (some { call := true, functor := some f })).setTrackable r (some {})
  -- `visit_each_trackable(slot_do_bind(this), *functor_)`
  visitEach (slotDoBind r) f
  pure r

/-- A `dummy_slot_rep`. -/
def constructDummy : M V Addr := do
  let r ← alloc
  modify fun w => (w.setRep r (some { call := false })).setTrackable r (some {})
  pure r

/-- What `destroy()` does before the functor's destructor runs: it returns the functor that is to
be destroyed. -/
def detachFunctor (r : Addr) : M V (Option Functor) := do
  let self ← loadRep r
  match self.functor with
  -- a second `destroy()`, or a `dummy_slot_rep`, whose `call_` is null from the beginning
  | none => do
    modify (·.setRep r (some { self with call := false }))
    pure none
  | some f => do
    modify (·.setRep r (some { self with call := false }))
    visitEach (slotDoUnbind r) f
    -- `functor_.reset()` sets the pointer to null before it deletes the functor
    let self ← loadRep r
    modify (·.setRep r (some { self with functor := none }))
    pure (some f)

def destroy (u : Env V) (r : Addr) : M V Unit := do
  match ← detachFunctor r with
  | none => pure ()
  | some f => do
    let _ ← u.call (.functorDtor r f)

/-- `disconnect()`: the slot is invalidated, and its parent told at most once. -/
def disconnect (u : Env V) (cleanupSelfAndIter : Addr → M V Unit) (r : Addr) : M V Unit := do
  let self ← loadRep r
  match self.parent with
  | none =>
    modify fun w => (w.setRep r (some { self with call := false })).record (.disconnected r)
  | some data => do
    modify fun w =>
      (w.setRep r (some { self with call := false, parent := none })).record (.disconnected r)
    -- `call_` and `parent_` are null by now, so that a second call tells nobody
    match self.cleanup with
    | some .notifySelfAndIterOfInvalidatedSlot => cleanupSelfAndIter data
    | some .notifySlotRepInvalidated => do
      let _ ← u.call (.notify data)
    -- `set_parent()` is never given this function
    | some .notifyObjectInvalidated | none => fault .nullFunction

def notifySlotRepInvalidated (u : Env V) (cleanupSelfAndIter : Addr → M V Unit) (r : Addr) :
    M V Unit := do
  let self ← loadRep r
  modify fun w => (w.setRep r (some { self with call := false })).record (.disconnected r)
  let notifier ← WeakRawPtr.construct (some (.rep r)) true
  modify (·.push (.invalidating r notifier))
  disconnect u cleanupSelfAndIter r
  let ptr ← loadWeak notifier
  -- `disconnect()` may have led to the deletion of the rep
  (if ptr.ptr = none then pure () else destroy u r)
  modify (·.pop)
  WeakRawPtr.destroy notifier

/-- `delete rep_`. -/
def delete (u : Env V) (r : Addr) : M V Unit := do
  let _ ← loadRep r
  let base ← loadTrackable r
  -- `rep_` is deleted a second time
  if base.dying then fault .deadRep else do
  modify fun w => (w.setTrackable r (some { base with dying := true })).push (.deleting r)
  destroy u r
  -- the destructor of the base class `trackable`
  Trackable.notifyCallbacks u r
  modify fun w => ((w.setRep r none).setTrackable r none).pop

end SlotRep

/-! ## `slot_base` -/

/-- How a `slot_base` is to be constructed: with a rep for this functor, or without one. -/
structure SlotInit where
  functor : Option Functor
  blocked : Bool

/-- `rep_` of the slot `s`, which is `self`, becomes `rep`. -/
def World.replaceRep (w : World V) (s : SlotAddr) (self : SlotBase) (rep : Option Addr) :
    World V :=
  (w.setSlot s (some { self with rep })).record
    (.replaced s (self.rep.any fun r => (w.trackables r).isSome))

namespace SlotBase

def empty (s : SlotAddr) : M V Bool := do
  let sl ← loadSlot s
  match sl.rep with
  | none => pure true
  | some r => do
    let rep ← loadRep r
    -- `!rep_ || !rep_->call_`
    pure (!rep.call)

def new (sl : SlotBase) : M V SlotAddr := do
  let a ← alloc
  modify (·.setSlot (.object a) (some sl))
  pure (.object a)

def construct (owner : Owner) (init : SlotInit) : M V SlotAddr := do
  match init.functor with
  | none => new { blocked := init.blocked, owner }
  | some f => do
    let r ← SlotRep.construct f
    new { rep := some r, blocked := init.blocked, owner }

/-- The copy of a functor: its references are copied, and so are the slots stored in it. -/
def copyFunctor (copySlot : SlotAddr → M V SlotAddr) : Functor → M V Functor
  | [] => pure []
  | .trackable t :: ts => do
    let ts' ← copyFunctor copySlot ts
    pure (.trackable t :: ts')
  | .slot s :: ts => do
    let s' ← copySlot s
    let ts' ← copyFunctor copySlot ts
    pure (.slot s' :: ts')

/-- What the copy constructor takes from `src`, the slots stored in the functor of `src` being
copied one level deeper. -/
def copyInit : Nat → SlotAddr → M V SlotInit
  | 0, _ => halt .fuel
  | n + 1, src => do
    let sl ← loadSlot src
    match sl.rep with
    | none => pure { functor := none, blocked := sl.blocked }
    | some r => do
      let rep ← loadRep r
      -- `clone()` copies the functor with what is stored in it
      if rep.call then do
        let f ← deref (.fault .nullFunction) fun _ => rep.functor
        let f' ← copyFunctor (fun s => copyInit n s >>= construct .functor) f
        pure { functor := some f', blocked := sl.blocked }
      -- an invalidated slot is not cloned: the new one is the default slot
      else pure { functor := none, blocked := false }

def copyConstruct (u : Env V) (owner : Owner) (src : SlotAddr) : M V SlotAddr := do
  let init ← copyInit u.fuel src
  construct owner init

/-- The end of a real move: the rep of `src` goes to a new slot. -/
def takeRep (owner : Owner) (src : SlotAddr) (blocked : Bool) : M V SlotAddr := do
  let sl ← loadIntact src
  modify (·.setSlot src (some { sl with rep := none, blocked := false }))
  new { rep := sl.rep, blocked, owner }

/-- What a move begins with: whoever refers to the rep by a weak pointer is told. -/
def notifyMove (u : Env V) (r : Addr) : M V Unit := do
  modify fun w => w.record (.moved r (w.frames.any (Frame.invalidates r)))
  Trackable.notifyCallbacks u r

/-- The move constructor.  `build` and `take` place the new slot, by a copy or by a real move. -/
def moveConstructWith (u : Env V) (build : SlotInit → M V SlotAddr)
    (take : SlotAddr → Bool → M V SlotAddr) (src : SlotAddr) : M V SlotAddr := do
  let sl ← loadSlot src
  match sl.rep with
  | none => build { functor := none, blocked := sl.blocked }
  | some r => do
    let rep ← loadRep r
    if rep.parent = none then do
      -- the source is not connected: it is really moved
      notifyMove u r
      take src sl.blocked
    else do
      -- the source has a parent, as it is in a signal: it is copied
      let init ← copyInit u.fuel src
      build init

def moveConstruct (u : Env V) (owner : Owner) (src : SlotAddr) : M V SlotAddr :=
  moveConstructWith u (construct owner) (takeRep owner) src

/-- `delete rep_`, which may be null. -/
def deleteRep (u : Env V) : Option Addr → M V Unit
  | none => pure ()
  | some r => SlotRep.delete u r

/-- The body of `~slot_base()`, and the end of the object. -/
def destroyBody (u : Env V) (s : SlotAddr) (rep : Option Addr) : M V Unit := do
  deleteRep u rep
  modify (·.setSlot s none)

/-- `~slot_base()`. -/
def destroy (u : Env V) (s : SlotAddr) : M V Unit := do
  let sl ← loadSlot s
  modify (·.setSlot s (some { sl with dying := true }))
  destroyBody u s sl.rep

/-- The rep that `set_parent()` works on: a `dummy_slot_rep` where the slot has none. -/
def repOrDummy (s : SlotAddr) : M V Addr := do
  let sl ← loadIntact s
  match sl.rep with
  | some r => pure r
  | none => do
    let r ← SlotRep.constructDummy
    modify (·.setSlot s (some { sl with rep := some r }))
    pure r

def setParent (s : SlotAddr) (parent : Addr) (cleanup : DestroyNotify) : M V Unit := do
  -- whatever parent the rep has had is forgotten
  let r ← repOrDummy s
  let rep ← loadRep r
  modify (·.setRep r (some { rep with parent := some parent, cleanup := some cleanup }))

def disconnect (u : Env V) (cleanupSelfAndIter : Addr → M V Unit) (s : SlotAddr) : M V Unit := do
  let sl ← loadSlot s
  match sl.rep with
  | none => pure ()
  | some r => SlotRep.disconnect u cleanupSelfAndIter r

/-- `delete rep_; rep_ = nullptr;`. -/
def clearRep (u : Env V) (s : SlotAddr) : M V Unit := do
  let sl ← loadSlot s
  deleteRep u sl.rep
  -- the destructor of the functor may have changed the slot
  let sl ← loadIntact s
  modify (·.replaceRep s sl none)

def deleteRepWithCheck (u : Env V) (cleanupSelfAndIter : Addr → M V Unit) (s : SlotAddr) :
    M V Unit := do
  let sl ← loadSlot s
  match sl.rep with
  | none => pure ()
  | some r => do
    let notifier ← WeakRawPtr.construct (some (.rep r)) true
    modify (·.push (.checking s r notifier))
    SlotRep.disconnect u cleanupSelfAndIter r
    let ptr ← loadWeak notifier
    -- where `disconnect()` has deleted the rep, the slot is not touched any more
    (if ptr.ptr = none then pure () else clearRep u s)
    modify (·.pop)
    WeakRawPtr.destroy notifier

/-- `new_rep_->set_parent(rep_->parent_, rep_->cleanup_)`, where there is an old rep. -/
def passParent (new : Addr) : Option Addr → M V Unit
  | none => pure ()
  | some r => do
    let oldRep ← loadRep r
    let newRep ← loadRep new
    modify (·.setRep new
      (some { newRep with parent := oldRep.parent, cleanup := oldRep.cleanup }))

/-- The new rep of a copy assignment, up to the point where the old one is deleted. -/
def cloneFor (dst : SlotAddr) (f : Functor) : M V Addr := do
  let new ← SlotRep.construct f
  let sl ← loadSlot dst
  passParent new sl.rep
  modify (·.push (.assigning dst new))
  pure new

/-- The new rep of a real move assignment, up to the point where the old one is deleted. -/
def moveFor (dst src : SlotAddr) : M V Addr := do
  let from_ ← loadIntact src
  let new ← deref (.fault .deadRep) fun _ => from_.rep
  modify (·.setSlot src (some { from_ with rep := none, blocked := false }))
  let sl ← loadSlot dst
  passParent new sl.rep
  modify (·.push (.assigning dst new))
  pure new

def deleteOld (u : Env V) (dst : SlotAddr) : M V Unit := do
  let sl ← loadSlot dst
  deleteRep u sl.rep

def assign (u : Env V) (cleanupSelfAndIter : Addr → M V Unit) (dst src : SlotAddr) :
    M V Unit := do
  let self ← loadSlot dst
  let from_ ← loadSlot src
  -- self-assignment, or two slots without a rep
  if from_.rep = self.rep then
    modify (·.setSlot dst (some { self with blocked := from_.blocked }))
  else if ← empty src then deleteRepWithCheck u cleanupSelfAndIter dst
  else do
    let init ← copyInit u.fuel src
    let f ← deref (.fault .nullFunction) fun _ => init.functor
    let new ← cloneFor dst f
    -- `delete rep_` runs the destructor of the old functor, and with it other code
    deleteOld u dst
    let self ← loadIntact dst
    modify fun w => (w.replaceRep dst self (some new)).pop
    -- `blocked_ = src.blocked_` comes last: `src` may be gone by now
    let from_ ← loadSlot src
    let self ← loadSlot dst
    modify (·.setSlot dst (some { self with blocked := from_.blocked }))

def moveAssign (u : Env V) (cleanupSelfAndIter : Addr → M V Unit) (dst src : SlotAddr) :
    M V Unit := do
  let self ← loadSlot dst
  let from_ ← loadSlot src
  if from_.rep = self.rep then
    modify (·.setSlot dst (some { self with blocked := from_.blocked }))
  else if ← empty src then deleteRepWithCheck u cleanupSelfAndIter dst
  else do
    -- here `blocked_ = src.blocked_` comes first
    modify (·.setSlot dst (some { self with blocked := from_.blocked }))
    let r ← deref (.fault .deadRep) fun _ => from_.rep
    let rep ← loadRep r
    -- a source that has a parent is copied
    let new ← (if rep.parent = none then do
        notifyMove u r
        moveFor dst src
      else do
        let init ← copyInit u.fuel src
        let f ← deref (.fault .nullFunction) fun _ => init.functor
        cloneFor dst f)
    deleteOld u dst
    let self ← loadIntact dst
    modify fun w => (w.replaceRep dst self (some new)).pop

def block (s : SlotAddr) (shouldBlock : Bool) : M V Unit := do
  let sl ← loadSlot s
  modify (·.setSlot s (some { sl with blocked := shouldBlock }))

end SlotBase

end Sigc
