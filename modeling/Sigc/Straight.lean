import Sigc.Behaviour

/-!
# The straight-line functions

The functions that are steps of their own run no other code.
-/

namespace Sigc

open Reasoning Prog

variable {V : Type}

namespace Straight

theorem alloc : Straight (Sigc.alloc (V := V)) :=
  .bind (.read _) fun _ => .bind (.modify _) fun _ => .pure _

theorem loadTrackable (t : Addr) : Straight (Sigc.loadTrackable (V := V) t) := .deref rfl

theorem loadRep (r : Addr) : Straight (Sigc.loadRep (V := V) r) := .deref rfl

theorem loadSlot (s : SlotAddr) : Straight (Sigc.loadSlot (V := V) s) := .deref rfl

theorem loadIntact (s : SlotAddr) : Straight (Sigc.loadIntact (V := V) s) := .deref rfl

theorem loadImpl (i : Addr) : Straight (Sigc.loadImpl (V := V) i) := .deref rfl

theorem loadWeak (c : Addr) : Straight (Sigc.loadWeak (V := V) c) := .deref rfl

end Straight

/-! ## Trackables and weak pointers -/

namespace Trackable

theorem addDestroyNotifyCallback_straight (t data : Addr) (func : DestroyNotify) :
    Straight (addDestroyNotifyCallback (V := V) t data func) :=
  .bind (.loadTrackable t) fun _ => .modify _

theorem removeDestroyNotifyCallback_straight (t data : Addr) :
    Straight (removeDestroyNotifyCallback (V := V) t data) :=
  .bind (.loadTrackable t) fun _ => .modify _

end Trackable

namespace WeakRawPtr

theorem registerPtr_straight (c : Addr) (p : Option WeakTarget) :
    Straight (registerPtr (V := V) c p) := by
  cases p with
  | none => exact .pure _
  | some p =>
    cases p with
    | rep r => exact Trackable.addDestroyNotifyCallback_straight r c _
    | slot s =>
      refine .bind (.loadSlot s) fun sl => ?_
      cases sl.rep with
      | none => exact .pure _
      | some r => exact Trackable.addDestroyNotifyCallback_straight r c _

theorem unregisterPtr_straight (c : Addr) (p : Option WeakTarget) :
    Straight (unregisterPtr (V := V) c p) := by
  cases p with
  | none => exact .pure _
  | some p =>
    cases p with
    | rep r => exact Trackable.removeDestroyNotifyCallback_straight r c
    | slot s =>
      refine .bind (.loadSlot s) fun sl => ?_
      cases sl.rep with
      | none => exact .pure _
      | some r => exact Trackable.removeDestroyNotifyCallback_straight r c

theorem construct_straight (p : Option WeakTarget) (b : Bool) :
    Straight (construct (V := V) p b) :=
  .bind .alloc fun _ => .bind (.modify _) fun _ => .bind (registerPtr_straight _ _) fun _ =>
    .pure _

theorem assign_straight (c src : Addr) : Straight (assign (V := V) c src) :=
  .bind (.loadWeak c) fun _ => .bind (unregisterPtr_straight _ _) fun _ =>
    .bind (.loadWeak src) fun _ => .bind (.modify _) fun _ => registerPtr_straight _ _

theorem destroy_straight (c : Addr) : Straight (destroy (V := V) c) :=
  .bind (.loadWeak c) fun _ => .bind (unregisterPtr_straight _ _) fun _ => .modify _

end WeakRawPtr

/-! ## Slots -/

theorem slotDoBind_straight (r : Addr) (t : Target) : Straight (slotDoBind (V := V) r t) := by
  cases t with
  | trackable t => exact Trackable.addDestroyNotifyCallback_straight t r _
  | slot s =>
    refine .bind (.loadSlot s) fun sl => ?_
    cases sl.rep with
    | none => exact .pure _
    | some q => exact .bind (.loadRep q) fun _ => .ite (.modify _) (.pure _)

theorem slotDoUnbind_straight (r : Addr) (t : Target) :
    Straight (slotDoUnbind (V := V) r t) := by
  cases t with
  | trackable t => exact Trackable.removeDestroyNotifyCallback_straight t r
  | slot s =>
    refine .bind (.loadSlot s) fun sl => ?_
    cases sl.rep with
    | none => exact .pure _
    | some q => exact .bind (.loadRep q) fun _ => .ite (.modify _) (.pure _)

theorem visitEach_straight {action : Target → M V Unit} (h : ∀ t, Straight (action t))
    (f : Functor) : Straight (visitEach action f) := by
  induction f with
  | nil => exact .pure _
  | cons t ts ih => exact .bind (h t) fun _ => ih

theorem SlotRep.construct_straight (f : Functor) : Straight (SlotRep.construct (V := V) f) :=
  .bind .alloc fun _ => .bind (.modify _) fun _ =>
    .bind (visitEach_straight (slotDoBind_straight _) f) fun _ => .pure _

theorem SlotRep.detachFunctor_straight (r : Addr) :
    Straight (SlotRep.detachFunctor (V := V) r) := by
  refine .bind (.loadRep r) fun rep => ?_
  cases rep.functor with
  | none => exact .bind (.modify _) fun _ => .pure _
  | some f =>
    exact .bind (.modify _) fun _ => .bind (visitEach_straight (slotDoUnbind_straight r) f)
      fun _ => .bind (.loadRep r) fun _ => .bind (.modify _) fun _ => .pure _

namespace SlotBase

theorem new_straight (sl : SlotBase) : Straight (SlotBase.new (V := V) sl) :=
  .bind .alloc fun _ => .bind (.modify _) fun _ => .pure _

theorem construct_straight (owner : Owner) (init : SlotInit) :
    Straight (SlotBase.construct (V := V) owner init) := by
  unfold construct
  cases init.functor with
  | none => exact new_straight _
  | some f => exact .bind (SlotRep.construct_straight f) fun _ => new_straight _

theorem takeRep_straight (owner : Owner) (src : SlotAddr) (blocked : Bool) :
    Straight (takeRep (V := V) owner src blocked) :=
  .bind (.loadIntact src) fun _ => .bind (.modify _) fun _ => new_straight _

theorem passParent_straight (new : Addr) (old : Option Addr) :
    Straight (passParent (V := V) new old) := by
  cases old with
  | none => exact .pure _
  | some r => exact .bind (.loadRep r) fun _ => .bind (.loadRep new) fun _ => .modify _

theorem cloneFor_straight (dst : SlotAddr) (f : Functor) :
    Straight (cloneFor (V := V) dst f) :=
  .bind (SlotRep.construct_straight f) fun _ => .bind (.loadSlot dst) fun _ =>
    .bind (passParent_straight _ _) fun _ => .bind (.modify _) fun _ => .pure _

theorem moveFor_straight (dst src : SlotAddr) : Straight (moveFor (V := V) dst src) :=
  .bind (.loadIntact src) fun _ => .bind (.deref rfl) fun _ => .bind (.modify _) fun _ =>
    .bind (.loadSlot dst) fun _ => .bind (passParent_straight _ _) fun _ =>
      .bind (.modify _) fun _ => .pure _

theorem empty_straight (s : SlotAddr) : Straight (SlotBase.empty (V := V) s) := by
  refine .bind (.loadSlot s) fun sl => ?_
  cases sl.rep with
  | none => exact .pure _
  | some r => exact .bind (.loadRep r) fun _ => .pure _

theorem setParent_straight (s : SlotAddr) (d : Addr) (c : DestroyNotify) :
    Straight (setParent (V := V) s d c) := by
  refine .bind (.bind (.loadIntact s) fun sl => ?_) fun r => .bind (.loadRep r) fun _ => .modify _
  cases sl.rep with
  | some r => exact .pure _
  | none =>
    exact .bind (.bind .alloc fun _ => .bind (.modify _) fun _ => .pure _) fun _ =>
      .bind (.modify _) fun _ => .pure _

end SlotBase

/-! ## Signals -/

namespace SignalImpl

theorem loadSlots_straight (i : Addr) : Straight (loadSlots (V := V) i) :=
  .bind (.loadImpl i) fun _ => .bind (.read _) fun _ => .ite (.fault rfl) (.pure _)

theorem setSlots_straight (i : Addr) (slots : List SlotAddr) :
    Straight (setSlots (V := V) i slots) :=
  .bind (.loadImpl i) fun _ => .modify _

theorem setDeferred_straight (i : Addr) (b : Bool) : Straight (setDeferred (V := V) i b) :=
  .bind (.loadImpl i) fun _ => .modify _

theorem referenceExec_straight (i : Addr) : Straight (referenceExec (V := V) i) :=
  .bind (.loadImpl i) fun _ => .modify _

theorem decrementExec_straight (i : Addr) : Straight (decrementExec (V := V) i) :=
  .bind (.loadImpl i) fun _ => .modify _

theorem enterSweep_straight (i : Addr) : Straight (enterSweep (V := V) i) :=
  .bind (referenceExec_straight i) fun _ => .bind (setDeferred_straight i false) fun _ =>
    .bind (loadSlots_straight i) fun _ => .bind (.modify _) fun _ => .pure _

theorem enterClear_straight (i : Addr) : Straight (enterClear (V := V) i) :=
  .bind (.loadImpl i) fun _ => .bind (referenceExec_straight i) fun _ =>
    .bind (loadSlots_straight i) fun _ => .bind (.modify _) fun _ => .pure _

theorem place_straight (i : Addr) (first : Bool) (n : SlotAddr) :
    Straight (place (V := V) i first n) :=
  .bind (.bind (loadSlots_straight i) fun _ => setSlots_straight _ _) fun _ =>
    .bind (.bind .alloc fun _ => .bind (.modify _) fun _ => SlotBase.setParent_straight _ _ _)
      fun _ => .modify _

theorem insertBuilt_straight (i : Addr) (first : Bool) (init : SlotInit) :
    Straight (insertBuilt (V := V) i first init) :=
  .bind (SlotBase.construct_straight _ _) fun _ => .bind (place_straight _ _ _) fun _ => .pure _

theorem insertTaken_straight (i : Addr) (first : Bool) (src : SlotAddr) (blocked : Bool) :
    Straight (insertTaken (V := V) i first src blocked) :=
  .bind (SlotBase.takeRep_straight _ _ _) fun _ => .bind (place_straight _ _ _) fun _ => .pure _

end SignalImpl

namespace SignalBase

theorem new_straight (i : Option Addr) : Straight (SignalBase.new (V := V) i) :=
  .bind .alloc fun _ => .bind (.modify _) fun _ => .pure _

theorem impl_straight (h : Addr) : Straight (impl (V := V) h) := by
  refine .bind (.read _) fun o => ?_
  cases o with
  | some i => exact .pure _
  | none => exact .bind .alloc fun _ => .bind (.modify _) fun _ => .pure _

theorem copyConstruct_straight (src : Addr) : Straight (copyConstruct (V := V) src) :=
  .bind (impl_straight src) fun _ => new_straight _

theorem moveConstruct_straight (src : Addr) : Straight (moveConstruct (V := V) src) :=
  .bind (.read _) fun _ => .bind (.modify _) fun _ => new_straight _

theorem letGo_straight (i : Option Addr) : Straight (letGo (V := V) i) := by
  cases i with
  | none => exact .pure _
  | some i => exact .bind (.modify _) fun _ => .pure _

theorem replaceImpl_straight (h : Addr) (i : Option Addr) :
    Straight (replaceImpl (V := V) h i) :=
  .bind (.read _) fun _ => .bind (.modify _) fun _ => letGo_straight _

theorem dropHandle_straight (h : Addr) : Straight (dropHandle (V := V) h) :=
  .bind (.read _) fun _ => .bind (.modify _) fun _ => letGo_straight _

end SignalBase

theorem Emission.start_straight (i : Addr) : Straight (Emission.start (V := V) i) :=
  .bind (SignalImpl.referenceExec_straight i) fun _ =>
    .bind (SignalImpl.loadSlots_straight i) fun _ => .bind (.read _) fun _ =>
      .bind (.modify _) fun _ => .bind (SignalImpl.setSlots_straight _ _) fun _ =>
        .bind (.modify _) fun _ => .bind (.modify _) fun _ => .pure _

end Sigc
