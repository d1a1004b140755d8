import Sigc.Memory

/-!
# Trackables

`trackable_callback_list` and `trackable`, from `trackable.cc`, and the part of `weak_raw_ptr.h`
that is registered with them.
-/

namespace Sigc

open Reasoning Prog

variable {V : Type}

namespace TrackableCallbackList

def addCallback (l : TrackableCallbackList) (data : Addr) (func : DestroyNotify) :
    TrackableCallbackList :=
  -- `add_callback()` ignores what comes while `clearing_` is set
  if l.clearing then l else { l with callbacks := l.callbacks ++ [⟨data, some func⟩] }

/-- The loop of `remove_callback`: the first active entry for `data` is erased, or only made
inactive while the list is being cleared. -/
def removeFirst (clearing : Bool) (data : Addr) : List TrackableCallback → List TrackableCallback
  | [] => []
  | cb :: cbs =>
    if cb.data = data ∧ cb.func ≠ none then
      if clearing then { cb with func := none } :: cbs else cbs
    else cb :: removeFirst clearing data cbs

def removeCallback (l : TrackableCallbackList) (data : Addr) : TrackableCallbackList :=
  { l with callbacks := removeFirst l.clearing data l.callbacks }

end TrackableCallbackList

namespace Trackable

/-- `callback_list()`: the list is allocated when it is first asked for. -/
def callbacks (t : Trackable) : TrackableCallbackList := t.callbackList.getD {}

def addCallback (data : Addr) (func : DestroyNotify) (t : Trackable) : Trackable :=
  { t with callbackList := some (t.callbacks.addCallback data func) }

def removeCallback (data : Addr) (t : Trackable) : Trackable :=
  { t with callbackList := some (t.callbacks.removeCallback data) }

def addDestroyNotifyCallback (t data : Addr) (func : DestroyNotify) : M V Unit := do
  let tr ← loadTrackable t
  modify fun w => { w.setTrackable t (some (tr.addCallback data func)) with
    -- a registration that has been ignored is remembered
    ignored := if tr.callbacks.clearing then (t, data) :: w.ignored else w.ignored }

def removeDestroyNotifyCallback (t data : Addr) : M V Unit := do
  let tr ← loadTrackable t
  modify (·.setTrackable t (some (tr.removeCallback data)))

/-- `weak_raw_ptr::notify_object_invalidated`. -/
def notifyObjectInvalidated (c : Addr) : M V Unit := do
  let self ← loadWeak c
  modify (·.setWeak c (some { self with ptr := none }))

/-- The list being destroyed, where `~trackable_callback_list()` reads it. -/
def loadCallbackList (t : Addr) : M V TrackableCallbackList :=
  deref (.fault .deadCallbackList) fun w => (w.trackables t).bind (·.callbackList)

/-- `if (callback.func_) callback.func_(callback.data_)`. -/
def runCallback (u : Env V) (callback : TrackableCallback) : M V Unit :=
  match callback.func with
  | none => pure ()
  | some .notifySlotRepInvalidated => do
    let _ ← u.call (.notify callback.data)
  | some .notifyObjectInvalidated => notifyObjectInvalidated callback.data
  -- `set_parent()` takes this function; it is never registered with a trackable
  | some .notifySelfAndIterOfInvalidatedSlot => fault .nullFunction

/-- The loop of `~trackable_callback_list()`.  An element is neither added nor erased while
`clearing_` is set, so the iterator is the position of an element, and the loop goes round as often
as there are elements at its beginning.  To move the iterator on is undefined if its element is not
there any more. -/
def callbackLoop (u : Env V) (t : Addr) (deps : List Dependent) : Nat → Nat → M V Unit
  | 0, _ => halt .fuel
  | n + 1, pos => do
    let l ← loadCallbackList t
    match l.callbacks[pos]? with
    -- `end()`
    | none => pure ()
    | some callback => do
      runCallback u callback
      -- the callback may have deleted the object, and the list with it
      let l ← loadCallbackList t
      if (l.callbacks[pos]?).map (·.data) = some callback.data then do
        modify (·.setTop (.notifying t (pos + 1) deps))
        callbackLoop u t deps n (pos + 1)
      else fault .deadCallbackList

/-- `notify_callbacks()`: `delete callback_list_` runs the callbacks, and the pointer is reset only
afterwards, so that a second deletion in between is undefined. -/
def notifyCallbacks (u : Env V) (t : Addr) : M V Unit := do
  let tr ← loadTrackable t
  let deps ← read (·.dependents t)
  match tr.callbackList with
  | none => modify (·.record (.notified t deps))
  | some l =>
    -- the list is being deleted already, further out
    if l.clearing then fault .deadCallbackList else do
    modify fun w => (w.setTrackable t
      (some { tr with callbackList := some { l with clearing := true } })).push
        (.notifying t 0 deps)
    callbackLoop u t deps (l.callbacks.length + 1) 0
    let tr ← loadTrackable t
    modify fun w => ((w.setTrackable t (some { tr with callbackList := none })).record
      (.notified t deps)).pop

end Trackable

end Sigc
