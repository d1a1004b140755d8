import Sigc.Client
import Mathlib.Logic.Relation

/-!
# Steps

A run of a program is a sequence of steps: the stretches of library code between one point at which
other code may run and the next.  Each constructor below is one such stretch, under the conditions
that the code has checked by then.  Where a stretch is a whole function of the library, the step is
a run of that function.
-/

namespace Sigc

open Reasoning Prog

variable {V : Type}

/-- A loop over the elements of a list or over the callbacks of a trackable, between two calls. -/
def Frame.looping : Frame V → Bool
  | .clear _ _ none _ _ | .notifying .. => true
  | _ => false

namespace World

/-- `s` is an element of the list of some signal. -/
def Listed (w : World V) (s : SlotAddr) : Prop :=
  ∃ sl i, w.slots s = some sl ∧ sl.owner = .list i

/-- What can be stored in a slot: the slots in it are owned by functors, and the trackables are
objects of the client. -/
structure FunctorOk (w : World V) (f : Functor) : Prop where
  slot : ∀ s, .slot s ∈ f → ∃ a, s = .object a ∧ a < w.next ∧
    ∀ sl, w.slots s = some sl → sl.owner = .functor
  trackable : ∀ t, .trackable t ∈ f → t < w.next ∧ w.reps t = none

/-- `call_` is null, and so is `functor_`; or the rep has been destroyed. -/
def Gutted (w : World V) (r : Addr) : Prop :=
  ∀ rep, w.reps r = some rep → rep.call = false ∧ rep.functor = none

/-- What `it->empty()` reads at an element of a list. -/
def Empty (w : World V) (s : SlotAddr) : Prop :=
  ∃ sl, w.slots s = some sl ∧
    ∀ r, sl.rep = some r → ∃ rep, w.reps r = some rep ∧ rep.call = false

/-- The slot of the element `s` has been disconnected. -/
def Disconnected (w : World V) (s : SlotAddr) : Prop :=
  ∀ sl i r rep, w.slots s = some sl → sl.owner = .list i → sl.rep = some r →
    w.reps r = some rep → rep.call = false

/-- What `!it->empty() && !it->blocked()` reads at an element of a list. -/
def Callable (w : World V) (s : SlotAddr) (r : Addr) : Prop :=
  ∃ sl rep, w.slots s = some sl ∧ sl.rep = some r ∧ w.reps r = some rep ∧
    rep.call = true ∧ sl.blocked = false

/-- Why `notify_callbacks()` runs on `t`: it is a trackable of the client, the base of a rep that is
being deleted, or the base of a rep whose slot is being moved. -/
def NotifiesFor (w : World V) (t : Addr) : Prop :=
  w.reps t = none ∨ w.Gutted t ∨
    w.log.head? = some (.moved t (w.frames.any (Frame.invalidates t)))

/-- No loop of `clear()` or over callbacks is on top of the stack. -/
def Calm (w : World V) : Prop := w.frames.head?.any Frame.looping = false

/-- The loop over the callbacks of a trackable is at one that invalidates `r`. -/
def CallsBack (w : World V) (r : Addr) : Prop :=
  ∃ t pos deps below tr l, w.frames = .notifying t pos deps :: below ∧
    w.trackables t = some tr ∧ tr.callbackList = some l ∧
      l.callbacks[pos]? = some ⟨r, some .notifySlotRepInvalidated⟩

/-- The first loop of `clear()` is at the element `n` of `i`, on top of the stack. -/
def Clears (w : World V) (i : Addr) (n : SlotAddr) : Prop :=
  ∃ during saved below, w.frames = .clear i (some n) none during saved :: below

/-- The slot `s` has a rep. -/
def Filled (w : World V) (s : SlotAddr) : Prop := ∃ sl r, w.slots s = some sl ∧ sl.rep = some r

/-- Where a pointer to `p` comes from: a slot that has a rep, or one to which a connection has been
built while it had none, or another pointer. -/
def Source (w : World V) (p : Option WeakTarget) : Prop :=
  ∀ s, p = some (.slot s) → w.Filled s ∨ .referenced s false ∈ w.log ∨
    ∃ c self, w.weaks c = some self ∧ self.ptr = p

/-- Whoever referred to the rep of the slot `s` by a weak pointer has been told. -/
def Unwatched (w : World V) (s : SlotAddr) : Prop :=
  ∀ sl r base, w.slots s = some sl → sl.rep = some r → w.trackables r = some base →
    base.callbackList = none

/-- Client code is in control: the main function, a functor, or the destructor of a functor. -/
def UserPoint (w : World V) : Prop :=
  w.frames = [] ∨ (∃ r below, w.frames = .handler r :: below) ∨
    ∃ r rest below, w.frames = .functorDtor r rest :: below

/-- `call_` is set to null, and the parent is about to be told if there is one. -/
def sever (w : World V) (r : Addr) (rep : SlotRep) : World V :=
  (w.setRep r (some { rep with call := false, parent := none })).record (.disconnected r)

/-- `--exec_count_`, where the list `i` is `self`. -/
def decrement (w : World V) (i : Addr) (self : SignalImpl) : World V :=
  w.setImpl i (some { self with execCount := self.execCount - 1 })

/-- The list `i`, which is `self`, without the element `n`, which is about to be destroyed. -/
def unlinkDying (w : World V) (i : Addr) (self : SignalImpl) (n : SlotAddr) (sl : SlotBase) :
    World V :=
  (w.setImpl i (some { self with slots := self.slots.erase n })).setSlot n
    (some { sl with dying := true })

end World

/-- `unreference_exec()` calls `sweep()` after the decrement. -/
def SignalImpl.sweepsNext (self : SignalImpl) : Bool :=
  self.execCount - 1 = 0 && self.deferred

/-! ## Trackables and weak pointers -/

inductive TrackableStep : World V → World V → Prop where
  | construct (w) :
    TrackableStep w (({ w with next := w.next + 1 }).setTrackable w.next (some {}))
  | beginDestroy {w t tr} (alive : w.trackables t = some tr) (client : w.reps t = none) :
    TrackableStep w (w.setTrackable t (some { tr with dying := true }))
  | endDestroy {w t tr} (alive : w.trackables t = some tr) (client : w.reps t = none)
      (notified : tr.callbackList = none) : TrackableStep w (w.setTrackable t none)
  | notifyNone {w t tr} (alive : w.trackables t = some tr) (list : tr.callbackList = none) :
    TrackableStep w (w.record (.notified t (w.dependents t)))
  | beginNotify {w t tr l} (alive : w.trackables t = some tr) (list : tr.callbackList = some l)
      (idle : l.clearing = false) (reason : w.NotifiesFor t) (calm : w.Calm) :
    TrackableStep w ((w.setTrackable t
      (some { tr with callbackList := some { l with clearing := true } })).push
        (.notifying t 0 (w.dependents t)))
  | skip {w t tr l pos deps below cb} (top : w.frames = .notifying t pos deps :: below)
      (alive : w.trackables t = some tr) (list : tr.callbackList = some l)
      (element : l.callbacks[pos]? = some cb) (inactive : cb.func = none) :
    TrackableStep w (w.setTop (.notifying t (pos + 1) deps))
  | notifyWeak {w t tr l pos deps below cb c} (top : w.frames = .notifying t pos deps :: below)
      (alive : w.trackables t = some tr) (list : tr.callbackList = some l)
      (element : l.callbacks[pos]? = some cb)
      (func : cb.func = some .notifyObjectInvalidated) (weak : w.weaks cb.data = some c) :
    TrackableStep w ((w.setWeak cb.data (some { c with ptr := none })).setTop
      (.notifying t (pos + 1) deps))
  | endNotify {w t tr l pos deps below} (top : w.frames = .notifying t pos deps :: below)
      (alive : w.trackables t = some tr) (list : tr.callbackList = some l)
      (done : l.callbacks[pos]? = none) :
    TrackableStep w
      ((w.setTrackable t (some { tr with callbackList := none })).record (.notified t deps)).pop

inductive WeakStep : World V → World V → Prop where
  | refer {w} (s : SlotAddr) :
    WeakStep w (w.record (.referenced s ((w.slots s).any (·.rep.isSome))))
  | construct {w w' ptr c} (user : w.UserPoint) (source : w.Source ptr)
      (run : WeakRawPtr.construct ptr false w = (.ret c, w')) : WeakStep w w'
  | assign {w w' c src self} (user : w.UserPoint)
      (connection : w.weaks c = some self ∧ self.notifier = false)
      (run : WeakRawPtr.assign c src w = (.ret (), w')) : WeakStep w w'
  | destroy {w w' c self} (user : w.UserPoint)
      (connection : w.weaks c = some self ∧ self.notifier = false)
      (run : WeakRawPtr.destroy c w = (.ret (), w')) : WeakStep w w'

/-! ## Disconnecting -/

/-- `slot_rep::disconnect()`, up to the point where other code may run.  The parent of a rep in a
list is told by `notify_self_and_iter_of_invalidated_slot()`. -/
inductive Sever (r : Addr) : World V → World V → Prop where
  | none {w rep} (alive : w.reps r = some rep) (parent : rep.parent = none) :
    Sever r w (w.sever r rep)
  | rep {w rep d} (alive : w.reps r = some rep) (parent : rep.parent = some d)
      (cleanup : rep.cleanup = some .notifySlotRepInvalidated) (calm : w.Calm) :
    Sever r w (w.sever r rep)
  | expired {w rep d si} (alive : w.reps r = some rep) (parent : rep.parent = some d)
      (cleanup : rep.cleanup = some .notifySelfAndIterOfInvalidatedSlot)
      (record : w.records d = some si) (expired : w.owned si.self = false) :
    Sever r w ((w.sever r rep).setRecord d none)
  | defer {w rep d si self} (alive : w.reps r = some rep) (parent : rep.parent = some d)
      (cleanup : rep.cleanup = some .notifySelfAndIterOfInvalidatedSlot)
      (record : w.records d = some si) (owned : w.owned si.self = true)
      (impl : w.impls si.self = some self) (executing : self.execCount ≠ 0) :
    Sever r w (((w.sever r rep).setImpl si.self (some { self with deferred := true })).setRecord
      d none)
  | erase {w rep d si self sl} (alive : w.reps r = some rep) (parent : rep.parent = some d)
      (cleanup : rep.cleanup = some .notifySelfAndIterOfInvalidatedSlot)
      (record : w.records d = some si) (owned : w.owned si.self = true)
      (impl : w.impls si.self = some self) (idle : self.execCount = 0)
      (element : si.iter ∈ self.slots) (slot : w.slots si.iter = some sl)
      (calm : w.Calm ∨ w.Clears si.self si.iter) :
    Sever r w ((((w.sever r rep).push (.cleanup d)).push (.erase si.self si.iter)).unlinkDying
      si.self { self with execCount := self.execCount + 1 } si.iter sl)

/-! ## Slots -/

inductive SlotStep : World V → World V → Prop where
  | construct {w w' owner init s} (unlisted : ∀ i, owner ≠ .list i)
      (functor : ∀ f, init.functor = some f → w.FunctorOk f)
      (run : SlotBase.construct owner init w = (.ret s, w')) : SlotStep w w'
  | move {w} (r) : SlotStep w (w.record (.moved r (w.frames.any (Frame.invalidates r))))
  | take {w w' owner src blocked s} (unlisted : ∀ i, owner ≠ .list i)
      (source : ¬w.Listed src) (told : w.Unwatched src)
      (run : SlotBase.takeRep owner src blocked w = (.ret s, w')) : SlotStep w w'
  | setBlocked {w s sl} (b) (alive : w.slots s = some sl) :
    SlotStep w (w.setSlot s (some { sl with blocked := b }))
  | beginDestroy {w s sl} (alive : w.slots s = some sl) (unlisted : ¬w.Listed s) :
    SlotStep w (w.setSlot s (some { sl with dying := true }))
  | endDestroy {w s} (empty : ∀ sl, w.slots s = some sl →
      sl.dying = true ∧ ∀ r, sl.rep = some r → w.reps r = none ∧ w.trackables r = none) :
    SlotStep w (w.setSlot s none)
  | sever {w w' r} (h : Sever r w w') : SlotStep w w'
  /-- `notify_slot_rep_invalidated()`, with the `disconnect()` in it -/
  | startInvalidation {w w₁ w' r rep x} (calm : w.Calm ∨ w.CallsBack r)
      (alive : w.reps r = some rep)
      (run : WeakRawPtr.construct (some (.rep r)) true
        ((w.setRep r (some { rep with call := false })).record (.disconnected r)) =
          (.ret x, w₁))
      (sever : Sever r (w₁.push (.invalidating r x)) w') : SlotStep w w'
  | detach {w w' r x below fo} (top : w.frames = .invalidating r x :: below)
      (run : SlotRep.detachFunctor r w = (.ret fo, w')) : SlotStep w w'
  | endInvalidation {w w' r x c below} (top : w.frames = .invalidating r x :: below)
      (weak : w.weaks x = some c) (gutted : c.ptr = none ∨ w.Gutted r)
      (run : WeakRawPtr.destroy x w.pop = (.ret (), w')) : SlotStep w w'
  /-- the invalidation was the callback of a trackable -/
  | endCallback {w w₁ r x c t pos deps below tr l}
      (top : w.frames = .invalidating r x :: .notifying t pos deps :: below)
      (weak : w.weaks x = some c) (gutted : c.ptr = none ∨ w.Gutted r)
      (run : WeakRawPtr.destroy x w.pop = (.ret (), w₁))
      (alive : w₁.trackables t = some tr) (list : tr.callbackList = some l)
      (element : (l.callbacks[pos]?).map (·.data) = some r) :
    SlotStep w (w₁.setTop (.notifying t (pos + 1) deps))
  | beginDelete {w w' r base fo s sl} (calm : w.Calm) (alive : w.trackables r = some base)
      (idle : base.dying = false) (slot : w.slots s = some sl) (rep : sl.rep = some r)
      (unlisted : sl.dying = true ∨ ¬w.Listed s)
      (run : SlotRep.detachFunctor r ((w.setTrackable r (some { base with dying := true })).push
        (.deleting r)) = (.ret fo, w')) :
    SlotStep w w'
  | endDelete {w r base below} (top : w.frames = .deleting r :: below)
      (alive : w.trackables r = some base) (notified : base.callbackList = none) :
    SlotStep w ((w.setRep r none).setTrackable r none).pop
  | startCheck {w w₁ s sl r x} (calm : w.Calm) (alive : w.slots s = some sl) (rep : sl.rep = some r)
      (unlisted : ¬w.Listed s)
      (run : WeakRawPtr.construct (some (.rep r)) true w = (.ret x, w₁)) :
    SlotStep w (w₁.push (.checking s r x))
  | clearRep {w s sl r x below} (top : w.frames = .checking s r x :: below)
      (alive : w.slots s = some sl) (intact : sl.dying = false) (unlisted : ¬w.Listed s) :
    SlotStep w (w.replaceRep s sl none)
  | endCheck {w w' s r x below} (top : w.frames = .checking s r x :: below)
      (run : WeakRawPtr.destroy x w.pop = (.ret (), w')) : SlotStep w w'
  | cloneFor {w w' dst f new} (calm : w.Calm) (unlisted : ¬w.Listed dst) (functor : w.FunctorOk f)
      (run : SlotBase.cloneFor dst f w = (.ret new, w')) : SlotStep w w'
  | moveFor {w w' dst src new} (calm : w.Calm) (unlisted : ¬w.Listed dst)
      (source : ¬w.Listed src) (told : w.Unwatched src)
      (run : SlotBase.moveFor dst src w = (.ret new, w')) : SlotStep w w'
  | finishAssign {w dst new self below} (top : w.frames = .assigning dst new :: below)
      (alive : w.slots dst = some self) (intact : self.dying = false) (unlisted : ¬w.Listed dst) :
    SlotStep w (w.replaceRep dst self (some new)).pop
  | pushHandler {w r rep} (calm : w.Calm) (alive : w.reps r = some rep) (call : rep.call = true) :
    SlotStep w ((w.record (.invoked r)).push (.handler r))
  | popHandler {w r below} (top : w.frames = .handler r :: below) : SlotStep w w.pop
  | pushFunctorDtor {w r f} (calm : w.Calm) (used : r < w.next) (functor : w.FunctorOk f)
      (gutted : w.Gutted r) :
    SlotStep w (w.push (.functorDtor r f))
  | nextTarget {w r t ts below} (top : w.frames = .functorDtor r (t :: ts) :: below) :
    SlotStep w (w.setTop (.functorDtor r ts))
  | popFunctorDtor {w r below} (top : w.frames = .functorDtor r [] :: below) : SlotStep w w.pop

/-! ## Signals -/

inductive SignalStep : World V → World V → Prop where
  | insertBuilt {w w' i first init n} (user : w.UserPoint) (owned : w.owned i)
      (functor : ∀ f, init.functor = some f → w.FunctorOk f)
      (run : SignalImpl.insertBuilt i first init w = (.ret n, w')) : SignalStep w w'
  | insertTaken {w w' i first src blocked n} (user : w.UserPoint) (owned : w.owned i)
      (source : ¬w.Listed src) (told : w.Unwatched src)
      (run : SignalImpl.insertTaken i first src blocked w = (.ret n, w')) : SignalStep w w'
  | new (w : World V) :
    SignalStep w { w with next := w.next + 1, handles := (w.next, none) :: w.handles }
  | impl {w w' h i} (run : SignalBase.impl h w = (.ret i, w')) : SignalStep w w'
  | copyConstruct {w w' src h} (handle : w.hasHandle src)
      (run : SignalBase.copyConstruct src w = (.ret h, w')) : SignalStep w w'
  | moveConstruct {w w' src h} (run : SignalBase.moveConstruct src w = (.ret h, w')) :
    SignalStep w w'
  | replaceImpl {w w' h i old} (calm : w.Calm) (owned : ∀ j, i = some j → w.owned j)
      (run : SignalBase.replaceImpl h i w = (.ret old, w')) : SignalStep w w'
  | dropHandle {w w' h old} (calm : w.Calm)
      (run : SignalBase.dropHandle h w = (.ret old, w')) : SignalStep w w'
  | endRelease {w i below} (top : w.frames = .releasing i :: below)
      (done : w.owned i ∨ w.impls i = none) : SignalStep w w.pop
  | endDispose {w i self below} (top : w.frames = .releasing i :: below)
      (unowned : w.owned i = false) (idle : w.frames.any (Frame.execOn i) = false)
      (alive : w.impls i = some self) (empty : self.slots = []) :
    SignalStep w (w.setImpl i none)
  | endCleanup {w d below} (top : w.frames = .cleanup d :: below) :
    SignalStep w (w.setRecord d none).pop
  -- `clear()`
  | enterClear {w w' i during saved it} (calm : w.Calm)
      (run : SignalImpl.enterClear i w = (.ret (during, saved, it), w')) : SignalStep w w'
  | clearNext {w i it it' during saved below self}
      (top : w.frames = .clear i (some it) none during saved :: below)
      (impl : w.impls i = some self) (next : following it self.slots = some it')
      (severed : w.Disconnected it) : SignalStep w (w.setTop (.clear i it' none during saved))
  | recordCleared {w i during saved below}
      (top : w.frames = .clear i none none during saved :: below) :
    SignalStep w (w.record (.cleared i))
  | restoreDeferred {w i saved below self}
      (top : w.frames = .clear i none none false saved :: below) (impl : w.impls i = some self) :
    SignalStep w (w.setImpl i (some { self with deferred := saved }))
  | clearErase {w i saved below self s rest sl}
      (top : w.frames = .clear i none none false saved :: below) (impl : w.impls i = some self)
      (slots : self.slots = s :: rest) (alive : w.slots s = some sl) :
    SignalStep w ((w.unlinkDying i self s sl).setTop (.clear i none (some s) false saved))
  | clearErased {w i saved below s}
      (top : w.frames = .clear i none (some s) false saved :: below) (gone : w.slots s = none) :
    SignalStep w (w.setTop (.clear i none none false saved))
  | leaveClear {w i during saved below self}
      (top : w.frames = .clear i none none during saved :: below) (impl : w.impls i = some self)
      (cleared : during = false → self.slots = []) (quiet : self.sweepsNext = false) :
    SignalStep w (w.decrement i self).pop
  | leaveClearSweep {w w' i during saved below self it}
      (top : w.frames = .clear i none none during saved :: below) (impl : w.impls i = some self)
      (cleared : during = false → self.slots = []) (sweeps : self.sweepsNext = true)
      (owned : (w.decrement i self).pop.owned i = true)
      (run : SignalImpl.enterSweep i (w.decrement i self).pop = (.ret it, w')) : SignalStep w w'
  -- `sweep()`
  | sweepSkip {w i it it' below self} (top : w.frames = .sweep i (some it) none :: below)
      (impl : w.impls i = some self) (next : following it self.slots = some it')
      (keep : ¬w.Empty it) : SignalStep w (w.setTop (.sweep i it' none))
  | sweepErase {w i it it' below self sl} (top : w.frames = .sweep i (some it) none :: below)
      (impl : w.impls i = some self) (next : following it self.slots = some it')
      (element : it ∈ self.slots) (empty : w.Empty it) (alive : w.slots it = some sl) :
    SignalStep w ((w.unlinkDying i self it sl).setTop (.sweep i it' (some it)))
  | sweepErased {w i it it' below} (top : w.frames = .sweep i it' (some it) :: below)
      (gone : w.slots it = none) : SignalStep w (w.setTop (.sweep i it' none))
  -- the end of a `signal_impl_holder`, when the last element erased under it is gone
  | leaveHolder {w i below f self} (top : w.frames = f :: below)
      (holder : f = .sweep i none none ∨ ∃ n, f = .erase i n ∧ w.slots n = none)
      (impl : w.impls i = some self) (quiet : self.sweepsNext = false) :
    SignalStep w ((w.decrement i self).setTop (.holding i))
  | leaveHolderSweep {w w' i below f self it} (top : w.frames = f :: below)
      (holder : f = .sweep i none none ∨ ∃ n, f = .erase i n ∧ w.slots n = none)
      (impl : w.impls i = some self) (sweeps : self.sweepsNext = true)
      (run : SignalImpl.enterSweep i ((w.decrement i self).setTop (.holding i)) = (.ret it, w')) :
    SignalStep w w'
  | startRelease {w i below} (top : w.frames = .holding i :: below) :
    SignalStep w (w.setTop (.releasing i))

/-! ## Emissions -/

namespace World

/-- The placeholder of the emission `e`, whose list is `self`, is erased. -/
def erasePlaceholder (w : World V) (e : Emission V) (self : SignalImpl) (completed : Bool) :
    World V :=
  { (w.setImpl e.impl (some { self with slots := self.slots.erase e.placeholder })).setSlot
      e.placeholder none with finished := (e, completed) :: w.finished }

end World

/-- How an emission ends: at its placeholder, or in the middle of an invocation. -/
def Emission.Over (e : Emission V) (completed : Bool) : Prop :=
  if completed then e.it = e.placeholder ∧ e.phase = .arrived else e.phase = .invoking

inductive EmissionStep : World V → World V → Prop where
  | start {w w' i e} (calm : w.Calm) (owned : w.owned i) (run : Emission.start i w = (.ret e, w')) :
    EmissionStep w w'
  | skip {w e below self it' sl} (top : w.frames = .emission e :: below)
      (inside : e.it ≠ e.placeholder) (arrived : e.phase = .arrived)
      (slot : w.slots e.it = some sl) (uncallable : ∀ r, ¬w.Callable e.it r)
      (impl : w.impls e.impl = some self) (next : following e.it self.slots = some (some it')) :
    EmissionStep w (w.setTop
      (.emission { e with it := it', reached := e.reached ++ [(e.it, false)] }))
  | beginCall {w e below r} (top : w.frames = .emission e :: below)
      (inside : e.it ≠ e.placeholder) (arrived : e.phase = .arrived)
      (callable : w.Callable e.it r) :
    EmissionStep w (w.setTop (.emission
      { e with reached := e.reached ++ [(e.it, true)], called := e.called ++ [e.it],
               phase := .invoking }))
  | endCall {w e below} (v : V) (top : w.frames = .emission e :: below)
      (invoking : e.phase = .invoking) :
    EmissionStep w (w.setTop (.emission
      { e with results := e.results ++ [v], phase := .invoked }))
  | advance {w e below self it'} (top : w.frames = .emission e :: below)
      (invoked : e.phase = .invoked)
      (impl : w.impls e.impl = some self) (next : following e.it self.slots = some (some it')) :
    EmissionStep w (w.setTop (.emission { e with it := it', phase := .arrived }))
  | finish {w e below self completed} (top : w.frames = .emission e :: below)
      (ends : e.Over completed) (impl : w.impls e.impl = some self)
      (element : e.placeholder ∈ self.slots) (quiet : self.sweepsNext = false) :
    EmissionStep w (((w.erasePlaceholder e self completed).decrement e.impl
      { self with slots := self.slots.erase e.placeholder }).setTop (.holding e.impl))
  | finishSweep {w w' e below self completed it} (top : w.frames = .emission e :: below)
      (ends : e.Over completed) (impl : w.impls e.impl = some self)
      (element : e.placeholder ∈ self.slots) (sweeps : self.sweepsNext = true)
      (run : SignalImpl.enterSweep e.impl (((w.erasePlaceholder e self completed).decrement e.impl
        { self with slots := self.slots.erase e.placeholder }).setTop (.holding e.impl)) =
          (.ret it, w')) :
    EmissionStep w w'

/-! ## Runs -/

inductive Step : World V → World V → Prop where
  /-- client code takes its next command -/
  | command {w c cs} (script : w.script = c :: cs) (wellFormed : c.wellFormed w) :
    Step w { w with script := cs }
  | trackable {w w'} (h : TrackableStep w w') : Step w w'
  | weak {w w'} (h : WeakStep w w') : Step w w'
  | slot {w w'} (h : SlotStep w w') : Step w w'
  | signal {w w'} (h : SignalStep w w') : Step w w'
  | emission {w w'} (h : EmissionStep w w') : Step w w'

def Steps : World V → World V → Prop := Relation.ReflTransGen Step

namespace Steps

variable {w w' w'' : World V}

theorem refl : Steps w w := Relation.ReflTransGen.refl

theorem single (h : Step w w') : Steps w w' := Relation.ReflTransGen.single h

theorem tail (h : Steps w w') (h' : Step w' w'') : Steps w w'' := Relation.ReflTransGen.tail h h'

theorem trans (h : Steps w w') (h' : Steps w' w'') : Steps w w'' :=
  Relation.ReflTransGen.trans h h'

/-- What the first world has and every step preserves holds of every world that is reached. -/
theorem preserves {P : World V → Prop} (h : Steps w w') (start : P w)
    (step : ∀ w w', Step w w' → P w → P w') : P w' := by
  induction h with
  | refl => exact start
  | tail _ hstep ih => exact step _ _ hstep ih

end Steps

end Sigc
