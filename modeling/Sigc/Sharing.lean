import Sigc.Effects
import Sigc.Framing
import Sigc.Reasoning.Classes

/-!
# Sharing of signal handles

What copies and moves of `signal_base` objects do to the lists of slots that the handles see.  The
specification is a partition of the handles into classes: a copy puts its destination into the class
of its source, a move does too and leaves the source alone.  The pointers `impl_` induce another
partition, and the two agree along every sequence of operations that avoids two kinds of
assignments, those for which `operator=` takes equal pointers for handles that share a list.
-/

namespace Sigc

open Reasoning Prog

variable {V : Type}

/-! ## Code that leaves the handles alone -/

/-- No handle has changed, and no address has become free again. -/
structure World.HandlesKept (w w' : World V) : Prop where
  handles : w'.handles = w.handles
  next : w.next ≤ w'.next

instance : Std.Refl (World.HandlesKept (V := V)) := ⟨fun _ => ⟨rfl, Nat.le_refl _⟩⟩

instance : IsTrans (World V) World.HandlesKept :=
  ⟨fun _ _ _ h h' => ⟨h'.handles.trans h.handles, Nat.le_trans h.next h'.next⟩⟩

/-- The functors that are destroyed with a list of slots leave the handles of signals alone. -/
def Env.SparesHandles (u : Env V) : Prop := ∀ c, Within World.HandlesKept (u.call c)

section Kept

/-- An update of the world in the course of which no handle is touched. -/
theorem modify_kept {f : World V → World V} (hf : ∀ w, (f w).handles = w.handles)
    (hn : ∀ w, (f w).next = w.next) : Within World.HandlesKept (modify f : M V Unit) :=
  within_modify fun w => ⟨hf w, Nat.le_of_eq (hn w).symm⟩

theorem alloc_kept : Within World.HandlesKept (alloc : M V Addr) :=
  within_bind (within_read _) fun _ =>
    within_bind (within_modify fun _ => ⟨rfl, Nat.le_succ _⟩) fun _ => within_pure _

theorem Trackable.addDestroyNotifyCallback_kept (t data : Addr) (func : DestroyNotify) :
    Within World.HandlesKept (Trackable.addDestroyNotifyCallback t data func : M V Unit) :=
  within_bind (within_deref _ _) fun _ => modify_kept (fun _ => rfl) fun _ => rfl

theorem Trackable.notifyObjectInvalidated_kept (c : Addr) :
    Within World.HandlesKept (Trackable.notifyObjectInvalidated c : M V Unit) :=
  within_bind (within_deref _ _) fun _ => modify_kept (fun _ => rfl) fun _ => rfl

variable {u : Env V} (hu : u.SparesHandles)
include hu

theorem Trackable.runCallback_kept (cb : TrackableCallback) :
    Within World.HandlesKept (Trackable.runCallback u cb) := by
  unfold Trackable.runCallback
  rcases cb.func with _ | (_ | _ | _)
  · exact within_pure _
  · exact within_bind (hu _) fun _ => within_pure _
  · exact within_halt _
  · exact Trackable.notifyObjectInvalidated_kept _

theorem Trackable.notifyCallbacks_kept (t : Addr) :
    Within World.HandlesKept (Trackable.notifyCallbacks u t) :=
  notifyCallbacks_within (fun w _ cb _ _ => runCallback_kept hu cb w)
    (fun _ _ => ⟨rfl, Nat.le_refl _⟩) (fun _ _ => ⟨rfl, Nat.le_refl _⟩)
    (fun _ _ _ _ _ _ => ⟨rfl, Nat.le_refl _⟩) fun _ _ _ _ => ⟨rfl, Nat.le_refl _⟩

theorem SignalImpl.release_kept (i : Addr) :
    Within World.HandlesKept (SignalImpl.release u i) := by
  refine within_bind (within_read _) fun owned => within_bind ?_ fun _ =>
    modify_kept (fun _ => rfl) fun _ => rfl
  exact within_ite (within_pure _) (within_bind (hu _) fun _ => within_pure _)

theorem SignalBase.releaseOld_kept (i : Option Addr) :
    Within World.HandlesKept (SignalBase.releaseOld u i) := by
  cases i with
  | none => exact within_pure _
  | some i => exact SignalImpl.release_kept hu i

end Kept

namespace WeakRawPtr

theorem register_kept (c : Addr) (p : WeakTarget) :
    Within World.HandlesKept (register c p : M V Unit) := by
  cases p with
  | rep r => exact Trackable.addDestroyNotifyCallback_kept r c _
  | slot s =>
    refine within_bind (within_deref _ _) fun sl => ?_
    rcases sl.rep with _ | r
    · exact within_pure _
    · exact Trackable.addDestroyNotifyCallback_kept r c _

theorem construct_kept (ptr : Option WeakTarget) (notifier : Bool) :
    Within World.HandlesKept (construct ptr notifier : M V Addr) := by
  refine within_bind alloc_kept fun c => within_bind (modify_kept (fun _ => rfl) fun _ => rfl)
    fun _ => within_bind ?_ fun _ => within_pure _
  cases ptr with
  | none => exact within_pure _
  | some p => exact register_kept c p

end WeakRawPtr

theorem slotDoBind_kept (r : Addr) (t : Target) :
    Within World.HandlesKept (slotDoBind r t : M V Unit) := by
  cases t with
  | trackable t => exact Trackable.addDestroyNotifyCallback_kept t r _
  | slot s =>
    refine within_bind (within_deref _ _) fun sl => ?_
    rcases sl.rep with _ | q
    · exact within_pure _
    · exact within_bind (within_deref _ _) fun rep =>
        within_ite (modify_kept (fun _ => rfl) fun _ => rfl) (within_pure _)

namespace SlotRep

theorem construct_kept (f : Functor) : Within World.HandlesKept (construct f : M V Addr) :=
  within_bind alloc_kept fun _ => within_bind (modify_kept (fun _ => rfl) fun _ => rfl) fun _ =>
    within_bind (visitEach_within (slotDoBind_kept _) f) fun _ => within_pure _

theorem constructDummy_kept : Within World.HandlesKept (constructDummy : M V Addr) :=
  within_bind alloc_kept fun _ => within_bind (modify_kept (fun _ => rfl) fun _ => rfl) fun _ =>
    within_pure _

end SlotRep

namespace SlotBase

theorem new_kept (sl : SlotBase) : Within World.HandlesKept (new sl : M V SlotAddr) :=
  within_bind alloc_kept fun _ => within_bind (modify_kept (fun _ => rfl) fun _ => rfl) fun _ =>
    within_pure _

theorem construct_kept (owner : Owner) (init : SlotInit) :
    Within World.HandlesKept (construct owner init : M V SlotAddr) := by
  unfold construct
  rcases init.functor with _ | f
  · exact new_kept _
  · exact within_bind (SlotRep.construct_kept f) fun _ => new_kept _

theorem copyInit_kept (n : Nat) (src : SlotAddr) :
    Within World.HandlesKept (copyInit n src : M V SlotInit) :=
  copyInit_within (construct_kept .functor) n src

theorem takeRep_kept (owner : Owner) (src : SlotAddr) (blocked : Bool) :
    Within World.HandlesKept (takeRep owner src blocked : M V SlotAddr) :=
  within_bind (within_deref _ _) fun _ => within_bind (modify_kept (fun _ => rfl) fun _ => rfl)
    fun _ => new_kept _

theorem setParent_kept (s : SlotAddr) (parent : Addr) (cleanup : DestroyNotify) :
    Within World.HandlesKept (setParent s parent cleanup : M V Unit) := by
  refine within_bind (within_bind (within_deref _ _) fun sl => ?_) fun r =>
    within_bind (within_deref _ _) fun _ => modify_kept (fun _ => rfl) fun _ => rfl
  rcases sl.rep with _ | r
  · exact within_bind SlotRep.constructDummy_kept fun _ =>
      within_bind (modify_kept (fun _ => rfl) fun _ => rfl) fun _ => within_pure _
  · exact within_pure _

theorem moveConstructWith_kept {u : Env V} (hu : u.SparesHandles)
    {build : SlotInit → M V SlotAddr} {take : SlotAddr → Bool → M V SlotAddr}
    (hb : ∀ init, Within World.HandlesKept (build init))
    (ht : ∀ s b, Within World.HandlesKept (take s b)) (src : SlotAddr) :
    Within World.HandlesKept (moveConstructWith u build take src) := by
  refine within_bind (within_deref _ _) fun sl => ?_
  rcases sl.rep with _ | r
  · exact hb _
  · refine within_bind (within_deref _ _) fun rep => within_ite ?_ ?_
    · exact within_bind (within_bind (modify_kept (fun _ => rfl) fun _ => rfl) fun _ =>
        Trackable.notifyCallbacks_kept hu r) fun _ => ht _ _
    · exact within_bind (copyInit_kept _ _) fun init => hb init

end SlotBase

namespace SignalImpl

theorem loadSlots_kept (i : Addr) : Within World.HandlesKept (loadSlots i : M V (List SlotAddr)) :=
  within_bind (within_deref _ _) fun _ => within_bind (within_read _) fun _ =>
    within_ite (within_halt _) (within_pure _)

theorem place_kept (i : Addr) (first : Bool) (n : SlotAddr) :
    Within World.HandlesKept (place i first n : M V Unit) := by
  refine within_bind (within_bind (loadSlots_kept i) fun slots =>
    within_bind (within_deref _ _) fun _ => modify_kept (fun _ => rfl) fun _ => rfl) fun _ => ?_
  refine within_bind (within_bind alloc_kept fun si =>
    within_bind (modify_kept (fun _ => rfl) fun _ => rfl) fun _ =>
      SlotBase.setParent_kept n si _) fun _ => modify_kept (fun _ => rfl) fun _ => rfl

theorem insertBuilt_kept (i : Addr) (first : Bool) (init : SlotInit) :
    Within World.HandlesKept (insertBuilt i first init : M V SlotAddr) :=
  within_bind (SlotBase.construct_kept _ _) fun _ => within_bind (place_kept _ _ _) fun _ =>
    within_pure _

theorem insertTaken_kept (i : Addr) (first : Bool) (src : SlotAddr) (blocked : Bool) :
    Within World.HandlesKept (insertTaken i first src blocked : M V SlotAddr) :=
  within_bind (SlotBase.takeRep_kept _ _ _) fun _ => within_bind (place_kept _ _ _) fun _ =>
    within_pure _

theorem insert_kept {u : Env V} (hu : u.SparesHandles) (i : Addr) (first move : Bool)
    (src : SlotAddr) : Within World.HandlesKept (insert u i first move src) :=
  within_ite
    (SlotBase.moveConstructWith_kept hu (insertBuilt_kept i first) (insertTaken_kept i first) src)
    (within_bind (SlotBase.copyInit_kept _ _) fun _ => insertBuilt_kept _ _ _)

end SignalImpl

/-! ## Operations on handles and their rules -/

/-- What a program does with handles while it keeps them all. -/
inductive HandleOp where
  | new
  | copy (src : Addr)
  | assign (dst src : Addr)
  | move (src : Addr)
  | moveAssign (dst src : Addr)
  | connect (h : Addr) (slot : SlotAddr) (first moved : Bool)

namespace HandleOp

/-- The operation is carried out, and returns the handle that it has constructed, assigned to or
connected a slot through. -/
def exec (u : Env V) : HandleOp → M V Addr
  | .new => SignalBase.new none
  | .copy src => SignalBase.copyConstruct src
  | .assign dst src => do
    SignalBase.assign u dst src
    pure dst
  | .move src => SignalBase.moveConstruct src
  | .moveAssign dst src => do
    SignalBase.moveAssign u dst src
    pure dst
  | .connect h slot first moved => do
    let _ ← SignalBase.connect u h slot first moved
    pure h

/-- What the operation should do to the classes of handles, `dst` being the handle it returns. -/
def rule (dst : Addr) (s : Setoid Addr) : HandleOp → Setoid Addr
  | .new => Classes.isolate s dst
  | .copy src | .assign _ src => Classes.put s dst src
  | .move src | .moveAssign _ src => Classes.isolate (Classes.put s dst src) src
  | .connect .. => s

/-- The handles that are named exist, and a handle is not moved to itself. -/
def Admissible (w : World V) : HandleOp → Prop
  | .new => True
  | .copy src | .move src => w.hasHandle src
  | .assign dst src => w.hasHandle dst ∧ w.hasHandle src
  | .moveAssign dst src => w.hasHandle dst ∧ w.hasHandle src ∧ dst ≠ src
  | .connect h _ _ _ => w.hasHandle h

/-- The operation is none of those for which equal pointers mislead `operator=`. -/
def Distinguishable (w : World V) : HandleOp → Prop
  | .assign dst src => dst ≠ src → w.implOf dst = none → w.implOf src ≠ none
  | .moveAssign dst src => ∀ i, w.implOf dst = some i → w.implOf src ≠ some i
  | _ => True

end HandleOp

/-! ## One operation -/

theorem lookup_map_replace {α β : Type} [DecidableEq α] (h : α) (i : β) (l : List (α × β))
    (x : α) :
    (l.map fun p => if p.1 = h then (h, i) else p).lookup x =
      if x = h then (l.lookup h).map fun _ => i else l.lookup x := by
  induction l with
  | nil => simp
  | cons p ps ih =>
    obtain ⟨k, j⟩ := p
    rw [List.map_cons]
    -- The entry of h itself is replaced, the others are passed over.
    by_cases hk : k = h
    · subst hk
      by_cases hx : x = k
      · simp [hx]
      · simp [hx, List.lookup_cons, beq_false_of_ne hx, ih]
    · by_cases hx : x = h
      · subst hx
        simp [hk, List.lookup_cons, ih, beq_false_of_ne (Ne.symm hk)]
      · simp only [hk, if_false, List.lookup_cons, ih, hx]

namespace World

variable {w w' : World V}

theorem hasHandle_iff_lookup {h : Addr} : w.hasHandle h ↔ (w.handles.lookup h).isSome := by
  unfold hasHandle
  induction w.handles with
  | nil => simp
  | cons p ps ih =>
    obtain ⟨k, j⟩ := p
    rw [List.lookup_cons]
    by_cases hk : h = k
    · simp [hk]
    · simp only [List.any_cons, Bool.or_eq_true, decide_eq_true_eq, ih, beq_false_of_ne hk]
      simp [Ne.symm hk]

theorem implOf_cons (w : World V) (h : Addr) (i : Option Addr) (n : Addr) :
    ({ w with next := n, handles := (h, i) :: w.handles } : World V).implOf =
      Function.update w.implOf h i := by
  funext x
  unfold implOf
  rw [Function.update_apply, List.lookup_cons]
  by_cases hx : x = h
  · simp [hx]
  · simp [hx, beq_false_of_ne hx]

/-- The pointer of a handle that exists is replaced. -/
theorem implOf_setHandle {h : Addr} (hh : w.hasHandle h) (i : Option Addr) :
    (w.setHandle h i).implOf = Function.update w.implOf h i := by
  funext x
  unfold implOf setHandle
  rw [Function.update_apply, lookup_map_replace]
  obtain ⟨j, hj⟩ := Option.isSome_iff_exists.mp (hasHandle_iff_lookup.mp hh)
  split_ifs
  · rw [hj]
    rfl
  · rfl

theorem hasHandle_setHandle (h : Addr) (i : Option Addr) (x : Addr) :
    (w.setHandle h i).hasHandle x = w.hasHandle x := by
  unfold hasHandle setHandle
  rw [List.any_map]
  congr 1
  funext p
  by_cases hp : p.1 = h <;> simp [hp]

/-- Handles and the lists they point to have been allocated. -/
structure HandlesBelow (w : World V) : Prop where
  handle : ∀ h, w.hasHandle h → h < w.next
  impl : ∀ h i, w.implOf h = some i → i < w.next

namespace HandlesKept

theorem implOf (h : HandlesKept w w') : w'.implOf = w.implOf := by
  unfold World.implOf
  rw [h.handles]

theorem hasHandle (h : HandlesKept w w') (x : Addr) : w'.hasHandle x = w.hasHandle x := by
  unfold World.hasHandle
  rw [h.handles]

theorem below (h : HandlesKept w w') (hw : w.HandlesBelow) : w'.HandlesBelow where
  handle x hx := Nat.lt_of_lt_of_le (hw.handle x (h.hasHandle x ▸ hx)) h.next
  impl x i hi := Nat.lt_of_lt_of_le (hw.impl x i (h.implOf ▸ hi)) h.next

end HandlesKept

theorem HandlesBelow.setHandle (hw : w.HandlesBelow) {h : Addr} (hh : w.hasHandle h)
    {i : Option Addr} (hi : ∀ j, i = some j → j < w.next) : (w.setHandle h i).HandlesBelow where
  handle x hx := hw.handle x (w.hasHandle_setHandle h i x ▸ hx)
  impl x j hj := by
    rw [implOf_setHandle hh, Function.update_apply] at hj
    split_ifs at hj
    · exact hi j hj
    · exact hw.impl x j hj

end World

/-- The pointers of the handles are now `p`. -/
structure World.Repoints (w w' : World V) (p : Addr → Option Addr) : Prop where
  below : w'.HandlesBelow
  implOf : w'.implOf = p
  hasHandle : ∀ x, w'.hasHandle x = w.hasHandle x

theorem World.Repoints.kept {w w' w'' : World V} {p : Addr → Option Addr} (h : w.Repoints w' p)
    (hk : World.HandlesKept w' w'') : w.Repoints w'' p where
  below := hk.below h.below
  implOf := hk.implOf.trans h.implOf
  hasHandle x := (hk.hasHandle x).trans (h.hasHandle x)

namespace SignalBase

variable {u : Env V} {w w' : World V} {h dst src : Addr}

theorem new_run {i : Option Addr} (hw : w.HandlesBelow) (hi : ∀ j, i = some j → j < w.next)
    (run : (new i : M V Addr) w = (.ret h, w')) :
    w'.HandlesBelow ∧ h = w.next ∧ w'.implOf = Function.update w.implOf h i := by
  obtain ⟨rfl, rfl⟩ := new_effect run
  refine ⟨⟨?_, ?_⟩, rfl, w.implOf_cons _ _ _⟩
  · intro x hx
    -- The handle is the new one, or an old one.
    simp only [World.hasHandle, List.any_cons, Bool.or_eq_true, decide_eq_true_eq] at hx
    obtain rfl | hx := hx
    · exact Nat.lt_succ_self _
    · exact Nat.lt_succ_of_lt (hw.handle x hx)
  · intro x j hj
    rw [World.implOf_cons, Function.update_apply] at hj
    split_ifs at hj
    · exact Nat.lt_succ_of_lt (hi j hj)
    · exact Nat.lt_succ_of_lt (hw.impl x j hj)

/-- `impl()` allocates a list for a handle that has none. -/
theorem impl_run {i : Addr} (hw : w.HandlesBelow) (hh : w.hasHandle h)
    (run : impl h w = (.ret i, w')) :
    w.Repoints w' (Function.update w.implOf h (some i)) ∧ i < w'.next ∧
      (w.implOf h = some i ∨ w.implOf h = none ∧ ∀ x, w.implOf x ≠ some i) := by
  obtain ⟨hi, rfl⟩ | ⟨hnone, rfl, rfl⟩ := impl_effect run
  · refine ⟨⟨hw, ?_, fun x => rfl⟩, hw.impl h _ hi, .inl hi⟩
    rw [← hi, Function.update_eq_self]
  -- A list is allocated, which no handle points to yet.
  · have hb : World.HandlesBelow (({ w with next := w.next + 1 } : World V).setImpl w.next
        (some {})) :=
      ⟨fun x hx => Nat.lt_succ_of_lt (hw.handle x hx),
        fun x j hj => Nat.lt_succ_of_lt (hw.impl x j hj)⟩
    refine ⟨⟨hb.setHandle hh fun j hj => ?_, World.implOf_setHandle hh _,
      fun x => World.hasHandle_setHandle h _ x⟩, Nat.lt_succ_self _, .inr ⟨hnone, fun x hx => ?_⟩⟩
    · cases hj
      exact Nat.lt_succ_self _
    · exact absurd (hw.impl x _ hx) (Nat.lt_irrefl _)

/-- The classes do not change when a list is allocated. -/
theorem pointing_impl {i : Addr}
    (hi : w.implOf h = some i ∨ w.implOf h = none ∧ ∀ x, w.implOf x ≠ some i) :
    Classes.pointing (Function.update w.implOf h (some i)) = Classes.pointing w.implOf := by
  obtain hi | ⟨hn, hi⟩ := hi
  · rw [← hi, Function.update_eq_self]
  · exact Classes.pointing_alloc hn hi

theorem letGo_kept (i : Option Addr) :
    Within World.HandlesKept (letGo i : M V (Option Addr)) := by
  cases i with
  | none => exact within_pure _
  | some i =>
    refine within_bind (within_modify fun w => ?_) fun _ => within_pure _
    by_cases ho : w.owned i
    · simp only [ho, if_true]
      exact ⟨rfl, Nat.le_refl _⟩
    · simp only [ho]
      exact ⟨rfl, Nat.le_refl _⟩

/-- A handle lets go of its list and gets another pointer. -/
theorem replaceImpl_run (hu : u.SparesHandles) {i : Option Addr} (hw : w.HandlesBelow)
    (hh : w.hasHandle h) (hi : ∀ j, i = some j → j < w.next)
    (run : (replaceImpl h i >>= releaseOld u) w = (.ret (), w')) :
    w.Repoints w' (Function.update w.implOf h i) := by
  simp only [replaceImpl, bind_eq_ret, read_eq_ret, modify_eq_ret] at run
  obtain ⟨old, w₂, ⟨_, _, ⟨rfl, rfl⟩, _, _, rfl, run⟩, hr⟩ := run
  -- The pointer is replaced; what the old list's end runs does not touch the handles.
  have h₁ : w.Repoints (w.setHandle h i) (Function.update w.implOf h i) :=
    ⟨hw.setHandle hh hi, World.implOf_setHandle hh i, World.hasHandle_setHandle h i⟩
  exact (h₁.kept ((letGo_kept _).of_ret run)).kept ((releaseOld_kept hu old).of_ret hr)

theorem copyConstruct_run (hw : w.HandlesBelow) (hs : w.hasHandle src)
    (run : copyConstruct src w = (.ret h, w')) :
    w'.HandlesBelow ∧
      Classes.pointing w'.implOf = Classes.put (Classes.pointing w.implOf) h src := by
  simp only [copyConstruct, bind_eq_ret] at run
  obtain ⟨i, w₁, hi, run⟩ := run
  obtain ⟨h₁, hlt, hfresh⟩ := impl_run hw hs hi
  obtain ⟨hb, rfl, hp⟩ := new_run h₁.below (fun j hj => by cases hj; exact hlt) run
  have hsrc : w₁.implOf src = some i := by
    rw [h₁.implOf, Function.update_self]
  refine ⟨hb, ?_⟩
  rw [hp, Classes.pointing_put hsrc, h₁.implOf, pointing_impl hfresh]

theorem moveConstruct_run (hw : w.HandlesBelow) (hs : w.hasHandle src)
    (run : moveConstruct src w = (.ret h, w')) :
    w'.HandlesBelow ∧ w'.implOf h = w.implOf src ∧ w'.implOf src = none ∧
      Classes.pointing w'.implOf =
        Classes.isolate (Classes.put (Classes.pointing w.implOf) h src) src := by
  simp only [moveConstruct, bind_eq_ret, read_eq_ret, modify_eq_ret] at run
  obtain ⟨_, _, ⟨rfl, rfl⟩, _, _, rfl, run⟩ := run
  have hb : (w.setHandle src none).HandlesBelow := hw.setHandle hs fun j hj => by cases hj
  obtain ⟨hb', hh, hp⟩ := new_run hb (fun j hj => hw.impl src j hj) run
  -- The new handle is at a new address.
  have hne : h ≠ src := by
    rintro rfl
    exact absurd (hw.handle h hs) (hh ▸ Nat.lt_irrefl _)
  rw [World.implOf_setHandle hs, Function.update_comm hne.symm] at hp
  refine ⟨hb', ?_, ?_, ?_⟩
  · rw [hp, Function.update_of_ne hne, Function.update_self]
  · rw [hp, Function.update_self]
  · rw [hp, Classes.pointing_move hne]

theorem assign_run (hu : u.SparesHandles) (hw : w.HandlesBelow) (hd : w.hasHandle dst)
    (hs : w.hasHandle src) (run : assign u dst src w = (.ret (), w')) :
    w'.HandlesBelow ∧ if w.implOf src = w.implOf dst then w' = w else
      Classes.pointing w'.implOf = Classes.put (Classes.pointing w.implOf) dst src := by
  simp only [assign, bind_eq_ret, read_eq_ret] at run
  obtain ⟨_, _, ⟨rfl, rfl⟩, _, _, ⟨rfl, rfl⟩, run⟩ := run
  -- Equal pointers: the operator returns at once, also where both are null.
  by_cases heq : w.implOf src = w.implOf dst
  · rw [if_pos heq] at run ⊢
    obtain ⟨-, rfl⟩ := pure_eq_ret.mp run
    exact ⟨hw, rfl⟩
  · rw [if_neg heq] at run ⊢
    obtain ⟨i, w₁, hi, run⟩ := bind_eq_ret.mp run
    obtain ⟨h₁, hlt, hfresh⟩ := impl_run hw hs hi
    have h₂ := replaceImpl_run hu h₁.below (h₁.hasHandle dst ▸ hd)
      (fun j hj => by cases hj; exact hlt) run
    have hsrc : w₁.implOf src = some i := by
      rw [h₁.implOf, Function.update_self]
    refine ⟨h₂.below, ?_⟩
    rw [h₂.implOf, Classes.pointing_put hsrc, h₁.implOf, pointing_impl hfresh]

theorem moveAssign_run (hu : u.SparesHandles) (hw : w.HandlesBelow) (hd : w.hasHandle dst)
    (hs : w.hasHandle src) (run : moveAssign u dst src w = (.ret (), w')) :
    w'.HandlesBelow ∧ if w.implOf src = w.implOf dst then w' = w else
      w'.implOf = Function.update (Function.update w.implOf dst (w.implOf src)) src none := by
  simp only [moveAssign, bind_eq_ret, read_eq_ret] at run
  obtain ⟨_, _, ⟨rfl, rfl⟩, _, _, ⟨rfl, rfl⟩, run⟩ := run
  by_cases heq : w.implOf src = w.implOf dst
  · rw [if_pos heq] at run ⊢
    obtain ⟨-, rfl⟩ := pure_eq_ret.mp run
    exact ⟨hw, rfl⟩
  · rw [if_neg heq] at run ⊢
    obtain ⟨old, w₁, hold, run⟩ := bind_eq_ret.mp run
    obtain ⟨_, w₂, hrel, run⟩ := bind_eq_ret.mp run
    -- impl_ = src.impl_, and then src.impl_ = nullptr.
    have h₁ := replaceImpl_run hu hw hd (fun j hj => hw.impl src j hj)
      (bind_eq_ret.mpr ⟨old, w₁, hold, hrel⟩)
    have hs₂ : w₂.hasHandle src := h₁.hasHandle src ▸ hs
    rw [read_bind_run, if_pos hs₂] at run
    have h₂ := replaceImpl_run hu h₁.below hs₂ (fun j hj => by cases hj) run
    exact ⟨h₂.below, by rw [h₂.implOf, h₁.implOf]⟩

theorem connect_run (hu : u.SparesHandles) {slot : SlotAddr} {first moved : Bool} {c : Addr}
    (hw : w.HandlesBelow) (hh : w.hasHandle h)
    (run : connect u h slot first moved w = (.ret c, w')) :
    w'.HandlesBelow ∧ Classes.pointing w'.implOf = Classes.pointing w.implOf := by
  simp only [connect, bind_eq_ret] at run
  obtain ⟨i, w₁, hi, n, w₂, hn, hc⟩ := run
  obtain ⟨h₁, -, hfresh⟩ := impl_run hw hh hi
  have h₃ := (h₁.kept ((SignalImpl.insert_kept hu i first moved slot).of_ret hn)).kept
    ((WeakRawPtr.construct_kept _ _).of_ret hc)
  exact ⟨h₃.below, by rw [h₃.implOf, pointing_impl hfresh]⟩

end SignalBase

/-! ## The slot that has been connected -/

namespace World

/-- No list of slots has changed. -/
structure ImplsKept (w w' : World V) : Prop where
  impls : w'.impls = w.impls

instance : Std.Refl (ImplsKept (V := V)) := ⟨fun _ => ⟨rfl⟩⟩

instance : IsTrans (World V) ImplsKept := ⟨fun _ _ _ h h' => ⟨h'.impls.trans h.impls⟩⟩

/-- The list `i` has the element `n`. -/
def Lists (w : World V) (i : Addr) (n : SlotAddr) : Prop :=
  ∃ self, w.impls i = some self ∧ n ∈ self.slots

/-- The list of slots that is seen through the handle `h`. -/
def seenBy (w : World V) (h : Addr) : List SlotAddr :=
  ((w.implOf h).bind w.impls).elim [] (·.slots)

variable {w w' : World V} {i : Addr} {n : SlotAddr}

theorem Lists.kept (hn : w.Lists i n) (hk : ImplsKept w w') : w'.Lists i n := by
  unfold Lists
  rwa [hk.impls]

theorem Lists.seenBy (hn : w.Lists i n) {h : Addr} (hi : w.implOf h = some i) :
    n ∈ w.seenBy h := by
  obtain ⟨self, hself, hn⟩ := hn
  unfold World.seenBy
  rw [hi, Option.bind_some, hself]
  exact hn

end World

theorem alloc_implsKept : Within World.ImplsKept (alloc : M V Addr) :=
  within_bind (within_read _) fun _ => within_bind (within_modify fun _ => ⟨rfl⟩) fun _ =>
    within_pure _

theorem SlotBase.setParent_implsKept (s : SlotAddr) (parent : Addr) (cleanup : DestroyNotify) :
    Within World.ImplsKept (SlotBase.setParent s parent cleanup : M V Unit) := by
  refine within_bind (within_bind (within_deref _ _) fun sl => ?_) fun r =>
    within_bind (within_deref _ _) fun _ => within_modify fun _ => ⟨rfl⟩
  rcases sl.rep with _ | r
  · exact within_bind (within_bind alloc_implsKept fun _ =>
      within_bind (within_modify fun _ => ⟨rfl⟩) fun _ => within_pure _) fun _ =>
      within_bind (within_modify fun _ => ⟨rfl⟩) fun _ => within_pure _
  · exact within_pure _

theorem WeakRawPtr.construct_implsKept (ptr : Option WeakTarget) (notifier : Bool) :
    Within World.ImplsKept (WeakRawPtr.construct ptr notifier : M V Addr) := by
  refine within_bind alloc_implsKept fun c => within_bind (within_modify fun _ => ⟨rfl⟩)
    fun _ => within_bind ?_ fun _ => within_pure _
  rcases ptr with _ | (s | r)
  · exact within_pure _
  · refine within_bind (within_deref _ _) fun sl => ?_
    rcases sl.rep with _ | r
    · exact within_pure _
    · exact within_bind (within_deref _ _) fun _ => within_modify fun _ => ⟨rfl⟩
  · exact within_bind (within_deref _ _) fun _ => within_modify fun _ => ⟨rfl⟩

namespace SignalImpl

variable {u : Env V} {w w' : World V} {i : Addr} {first : Bool} {n : SlotAddr}

theorem place_lists (run : place i first n w = (.ret (), w')) : w'.Lists i n := by
  simp only [place, link, setSlots, bind_eq_ret, loadImpl, deref_eq_ret, modify_eq_ret] at run
  obtain ⟨_, w₁, ⟨slots, _, -, self, _, ⟨-, rfl⟩, rfl⟩, run⟩ := run
  -- The notification is attached to the element, and changes no list.
  have hk : Within World.ImplsKept (addNotificationToIter i n : M V Unit) :=
    within_bind alloc_implsKept fun _ => within_bind (within_modify fun _ => ⟨rfl⟩) fun _ =>
      SlotBase.setParent_implsKept n _ _
  obtain ⟨_, w₂, hadd, rfl⟩ := run
  have hl : w₂.Lists i n := by
    refine World.Lists.kept ?_ (hk.of_ret hadd)
    refine ⟨_, Function.update_self _ _ _, ?_⟩
    cases first <;> simp
  exact hl.kept ⟨rfl⟩

/-- Whichever way an element gets into the list, it is there when `insert()` returns. -/
theorem insert_lists {move : Bool} {src : SlotAddr}
    (run : insert u i first move src w = (.ret n, w')) : w'.Lists i n := by
  have hbuilt : ∀ init w₁, insertBuilt i first init w₁ = (.ret n, w') → w'.Lists i n := by
    intro init w₁ h
    simp only [insertBuilt, bind_eq_ret, pure_eq_ret] at h
    obtain ⟨m, w₂, -, _, _, hp, rfl, rfl⟩ := h
    exact place_lists hp
  have htaken : ∀ s b w₁, insertTaken i first s b w₁ = (.ret n, w') → w'.Lists i n := by
    intro s b w₁ h
    simp only [insertTaken, bind_eq_ret, pure_eq_ret] at h
    obtain ⟨m, w₂, -, _, _, hp, rfl, rfl⟩ := h
    exact place_lists hp
  cases move with
  | false =>
    obtain ⟨init, w₁, -, h⟩ := bind_eq_ret.mp run
    exact hbuilt init w₁ h
  | true =>
    obtain ⟨sl, w₁, -, h⟩ := bind_eq_ret.mp run
    cases hsl : sl.rep with
    | none =>
      rw [hsl] at h
      exact hbuilt _ w₁ h
    | some r =>
      rw [hsl] at h
      obtain ⟨rep, w₂, -, h⟩ := bind_eq_ret.mp h
      -- A source without parent is moved into the list, one with a parent is copied.
      by_cases hp : rep.parent = none
      · rw [if_pos hp] at h
        obtain ⟨_, w₃, -, h⟩ := bind_eq_ret.mp h
        exact htaken _ _ w₃ h
      · rw [if_neg hp] at h
        obtain ⟨init, w₃, -, h⟩ := bind_eq_ret.mp h
        exact hbuilt init w₃ h

end SignalImpl

/-- A connected slot is seen through every handle of the class. -/
theorem SignalBase.connect_lists {u : Env V} (hu : u.SparesHandles) {w w' : World V} {h c : Addr}
    {slot : SlotAddr} {first moved : Bool} (hw : w.HandlesBelow) (hh : w.hasHandle h)
    (run : connect u h slot first moved w = (.ret c, w')) :
    ∃ n, w'.weaks c = some { ptr := some (.slot n) } ∧
      ∀ h', Classes.pointing w.implOf h h' → n ∈ w'.seenBy h' := by
  simp only [connect, bind_eq_ret] at run
  obtain ⟨i, w₁, hi, n, w₂, hn, hc⟩ := run
  obtain ⟨h₁, -, hfresh⟩ := impl_run hw hh hi
  have h₃ := (h₁.kept ((SignalImpl.insert_kept hu i first moved slot).of_ret hn)).kept
    ((WeakRawPtr.construct_kept _ _).of_ret hc)
  have hl : w'.Lists i n := (SignalImpl.insert_lists hn).kept
    ((WeakRawPtr.construct_implsKept _ _).of_ret hc)
  have hc' : w'.weaks c = some { ptr := some (.slot n) } := by
    obtain ⟨rfl, tks, ign, rfl, -⟩ := WeakRawPtr.construct_effect hc
    exact Function.update_self _ _ _
  refine ⟨n, hc', fun h' hp => hl.seenBy ?_⟩
  rw [h₃.implOf, Function.update_apply]
  split_ifs with hne
  · rfl
  · obtain rfl | ⟨j, hj, hj'⟩ := hp
    · exact absurd rfl hne
    -- A handle of the class points to the same list, or the list is new and the class has only one.
    · obtain hi | ⟨hnone, -⟩ := hfresh
      · rw [hj', ← hi, hj]
      · rw [hnone] at hj
        cases hj

/-! ## Sequences of operations -/

/-- Sequences of operations, all of them meeting `P`, with the classes that the rules give. -/
inductive HandleRun (u : Env V) (P : World V → HandleOp → Prop) (w₀ : World V) :
    World V → Setoid Addr → Prop
  | start : HandleRun u P w₀ w₀ ⊥
  | step {w w' s o dst} (run : HandleRun u P w₀ w s) (admissible : o.Admissible w)
      (meets : P w o) (exec : o.exec u w = (.ret dst, w')) :
      HandleRun u P w₀ w' (o.rule dst s)

/-- One operation after which the pointers induce the classes that its rule gives. -/
theorem HandleOp.exec_pointing {u : Env V} (hu : u.SparesHandles) {w w' : World V} {op : HandleOp}
    {dst : Addr} (hw : w.HandlesBelow) (ha : op.Admissible w) (hd : op.Distinguishable w)
    (run : op.exec u w = (.ret dst, w')) :
    w'.HandlesBelow ∧
      Classes.pointing w'.implOf = op.rule dst (Classes.pointing w.implOf) := by
  cases op with
  | new =>
    obtain ⟨hb, rfl, hp⟩ := SignalBase.new_run hw (fun j hj => by cases hj) run
    exact ⟨hb, by rw [hp, Classes.pointing_null]; rfl⟩
  | copy src => exact SignalBase.copyConstruct_run hw ha run
  | move src =>
    obtain ⟨hb, -, -, hp⟩ := SignalBase.moveConstruct_run hw ha run
    exact ⟨hb, hp⟩
  | assign dst' src =>
    obtain ⟨_, _, hrun, hret⟩ := bind_eq_ret.mp run
    obtain ⟨rfl, rfl⟩ := pure_eq_ret.mp hret
    obtain ⟨hb, hp⟩ := SignalBase.assign_run hu hw ha.1 ha.2 hrun
    refine ⟨hb, ?_⟩
    by_cases heq : w.implOf src = w.implOf dst'
    · rw [if_pos heq] at hp
      rw [hp, rule]
      -- equal pointers are not null, or the handles are the same
      by_cases hne : dst' = src
      · rw [hne, Classes.put_self]
      · cases hs : w.implOf src with
        | none => exact absurd hs (hd hne (heq.symm.trans hs))
        | some i => rw [← Classes.pointing_put hs, ← hs, heq, Function.update_eq_self]
    · rw [if_neg heq] at hp
      exact hp
  | moveAssign dst' src =>
    obtain ⟨_, _, hrun, hret⟩ := bind_eq_ret.mp run
    obtain ⟨rfl, rfl⟩ := pure_eq_ret.mp hret
    obtain ⟨hb, hp⟩ := SignalBase.moveAssign_run hu hw ha.1 ha.2.1 hrun
    refine ⟨hb, ?_⟩
    rw [rule, ← Classes.pointing_move ha.2.2]
    by_cases heq : w.implOf src = w.implOf dst'
    · rw [if_pos heq] at hp
      rw [hp, heq, Function.update_eq_self]
      cases hs : w.implOf src with
      | none => rw [Function.update_eq_self_iff.mpr hs.symm]
      | some i => exact absurd hs (hd i (heq.symm.trans hs))
    · rw [if_neg heq] at hp
      rw [hp]
  | connect h slot first moved =>
    obtain ⟨_, _, hrun, hret⟩ := bind_eq_ret.mp run
    obtain ⟨rfl, rfl⟩ := pure_eq_ret.mp hret
    exact SignalBase.connect_run hu hw ha hrun

/-- In a run that avoids the misleading assignments the pointers always induce the classes that the
rules give. -/
theorem HandleRun.pointing {u : Env V} (hu : u.SparesHandles) {w₀ w : World V} {s : Setoid Addr}
    (h₀ : w₀.handles = [])
    (run : HandleRun u (fun w op => op.Distinguishable w) w₀ w s) :
    w.HandlesBelow ∧ Classes.pointing w.implOf = s := by
  -- along the run: each operation changes the classes as its rule says
  induction run with
  | start =>
    have hnone : ∀ x, w₀.implOf x = none := fun x => by
      unfold World.implOf
      rw [h₀]
      rfl
    refine ⟨⟨fun x hx => ?_, fun x i hi => ?_⟩, ?_⟩
    · unfold World.hasHandle at hx
      rw [h₀] at hx
      cases hx
    · rw [hnone x] at hi
      cases hi
    · ext x y
      rw [Classes.pointing_of_null (hnone x)]
      rfl
  | step run ha hd hexec ih =>
    obtain ⟨hb, hp⟩ := HandleOp.exec_pointing hu ih.1 ha hd hexec
    exact ⟨hb, by rw [hp, ih.2]⟩

/-- Handles see the same list exactly when the rules put them into the same class, a slot that is
connected through one handle is seen through the others of its class, and a move hands the list of
its source over and leaves the source without one. -/
theorem HandleRun.shares {u : Env V} (hu : u.SparesHandles) {w₀ w : World V} {s : Setoid Addr}
    (h₀ : w₀.handles = []) (run : HandleRun u (fun w op => op.Distinguishable w) w₀ w s) :
    (∀ h h', s h h' ↔ h = h' ∨ ∃ i, w.implOf h = some i ∧ w.implOf h' = some i) ∧
    (∀ h slot first moved c w', w.hasHandle h →
      SignalBase.connect u h slot first moved w = (.ret c, w') →
        ∃ n, w'.weaks c = some { ptr := some (.slot n) } ∧ ∀ h', s h h' → n ∈ w'.seenBy h') ∧
    (∀ src dst w', w.hasHandle src → SignalBase.moveConstruct src w = (.ret dst, w') →
      w'.implOf dst = w.implOf src ∧ w'.implOf src = none) ∧
    ∀ dst src w', (HandleOp.moveAssign dst src).Admissible w →
      (HandleOp.moveAssign dst src).Distinguishable w →
        SignalBase.moveAssign u dst src w = (.ret (), w') →
          w'.implOf dst = w.implOf src ∧ w'.implOf src = none := by
  obtain ⟨hb, rfl⟩ := run.pointing hu h₀
  refine ⟨fun h h' => Iff.rfl, ?_, ?_, ?_⟩
  · intro h slot first moved c w' hh hrun
    exact SignalBase.connect_lists hu hb hh hrun
  · intro src dst w' hs hrun
    obtain ⟨-, hd, hnone, -⟩ := SignalBase.moveConstruct_run hb hs hrun
    exact ⟨hd, hnone⟩
  · rintro dst src w' ⟨hd, hs, hne⟩ hdist hrun
    obtain ⟨-, hp⟩ := SignalBase.moveAssign_run hu hb hd hs hrun
    split_ifs at hp with heq
    · cases hi : w.implOf src with
      | none =>
        rw [hp]
        exact ⟨heq.symm.trans hi, hi⟩
      | some i => exact absurd hi (hdist i (heq.symm.trans hi))
    · rw [hp, Function.update_self, Function.update_of_ne hne, Function.update_self]
      exact ⟨rfl, rfl⟩

/-- A default-constructed handle, its copy, and the list that both of them see. -/
theorem copy_of_new_shares :
    ∃ w : World Unit, ∃ i, w.handles.length = 2 ∧ w.implOf 0 = some i ∧ w.implOf 2 = some i := by
  let u : Env Unit := { call := fun _ => pure (), fuel := 1 }
  have hu : u.SparesHandles := fun _ => within_pure _
  have run : HandleRun u (fun w op => op.Distinguishable w) {} _ _ :=
    .step (.step (o := .new) .start trivial trivial rfl) (o := .copy 0) rfl trivial rfl
  obtain h | h := ((HandleRun.shares hu rfl run).1 0 2).mp (Setoid.symm' _ (Classes.put_joins _ 2 0))
  · cases h
  · obtain ⟨i, hi⟩ := h
    exact ⟨_, i, rfl, hi⟩

/-- Two handles without a list: the assignment takes them for equal, and they are never joined. -/
theorem assign_unallocated_not_shared :
    ∃ (w : World Unit) (s : Setoid Addr),
      HandleRun { call := fun _ => pure (), fuel := 1 } (fun _ _ => True) {} w s ∧
        s 0 1 ∧ ¬(0 = 1 ∨ ∃ i, w.implOf 0 = some i ∧ w.implOf 1 = some i) := by
  refine ⟨_, _, .step (.step (.step (o := .new) .start trivial trivial rfl) (o := .new) trivial
    trivial rfl) (o := .assign 0 1) ⟨rfl, rfl⟩ trivial rfl, ?_, ?_⟩
  · exact Classes.put_joins _ 0 1
  · rintro (h | ⟨i, h, -⟩)
    · cases h
    · cases h

end Sigc
