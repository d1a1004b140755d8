import Sigc.ListSteps

/-!
# The execution count

`exec_count_` is the number of functions that hold the list in use, as far as a `short` can tell.
-/

namespace Sigc

open Reasoning Prog

variable {V : Type} {w w' : World V} {i : Addr} {self : SignalImpl} {below : List (Frame V)}

namespace World

theorem execs_eq (w : World V) (i : Addr) : w.execs i = w.holders.countP (Frame.execOn i) := by
  unfold execs holders
  rw [List.countP_filter]
  refine List.countP_congr fun f _ => ?_
  cases hf : f.holds with
  | true => simp
  | false => simp [Frame.execOn_eq_false hf i]

theorem execs_of_holders (h : w'.holders = w.holders) : w'.execs i = w.execs i := by
  rw [execs_eq, execs_eq, h]

theorem execs_of_holders_cons {f : Frame V} (h : w'.holders = f :: w.holders) :
    w'.execs i = w.execs i + if f.execOn i then 1 else 0 := by
  rw [execs_eq, execs_eq, h, List.countP_cons]

theorem execs_top {f : Frame V} (top : w.frames = f :: below) :
    w.execs i = below.countP (Frame.execOn i) + if f.execOn i then 1 else 0 := by
  rw [execs, top, List.countP_cons]

theorem execs_setTop {f g : Frame V} (top : w.frames = f :: below) :
    (w.setTop g).execs i = below.countP (Frame.execOn i) + if g.execOn i then 1 else 0 := by
  simp [execs, setTop, top, List.countP_cons]

theorem execs_pop {f : Frame V} (top : w.frames = f :: below) :
    w.pop.execs i = below.countP (Frame.execOn i) := by
  simp [execs, pop, top]

@[simp] theorem execs_push (w : World V) (f : Frame V) :
    (w.push f).execs i = w.execs i + if f.execOn i then 1 else 0 := by
  simp [execs, push, List.countP_cons]

/-- No function has yet been called on a list that does not exist. -/
theorem execs_fresh (hw : WellAddressed w) (h : w.next ≤ i) : w.execs i = 0 := by
  refine List.countP_eq_zero.mpr fun f hf hexec => ?_
  have hok := hw.frames f hf
  have hlt : i < w.next := by
    cases f with
    | emission e => exact of_decide_eq_true hexec ▸ hok
    | sweep j it n => exact of_decide_eq_true hexec ▸ hok
    | erase j n => exact of_decide_eq_true hexec ▸ hok
    | clear j it n d s => exact of_decide_eq_true hexec ▸ hok
    | _ => cases hexec
  exact absurd hlt (Nat.not_lt.mpr h)

/-- `exec_count_` counts the functions that hold it, and a removal is deferred to one of them. -/
structure Counted (w : World V) : Prop where
  count : ∀ i self, w.impls i = some self → self.execCount = BitVec.ofNat 16 (w.execs i)
  idle : ∀ i self, w.impls i = some self → w.execs i = 0 → self.deferred = false

namespace Counted

theorem same (h : w.Counted) (impls : w'.impls = w.impls) (execs : ∀ i, w'.execs i = w.execs i) :
    w'.Counted where
  count i self hi := by
    rw [execs]
    exact h.count i self (impls ▸ hi)
  idle i self hi h0 := h.idle i self (impls ▸ hi) (execs i ▸ h0)

/-- One list has changed, and possibly the functions that hold it. -/
theorem sets (h : w.Counted) (sets : w.Sets w' i self)
    (execs : ∀ j, j ≠ i → w'.execs j = w.execs j)
    (count : self.execCount = BitVec.ofNat 16 (w'.execs i))
    (idle : w'.execs i = 0 → self.deferred = false) : w'.Counted where
  count j x hj := by
    rw [sets] at hj
    -- Of the list that has changed we know the new count; the others have the old one.
    obtain ⟨rfl, hx⟩ | ⟨hne, hx⟩ := update_eq_some.mp hj
    · exact Option.some.inj hx ▸ count
    · exact execs j hne ▸ h.count j x hx
  idle j x hj h0 := by
    rw [sets] at hj
    obtain ⟨rfl, hx⟩ | ⟨hne, hx⟩ := update_eq_some.mp hj
    · exact Option.some.inj hx ▸ idle h0
    · exact h.idle j x hx (execs j hne ▸ h0)

end Counted

end World

theorem BitVec16.ofNat_succ (n : Nat) : BitVec.ofNat 16 (n + 1) = BitVec.ofNat 16 n + 1 := by
  simp [BitVec.ofNat_add]

theorem BitVec16.ofNat_pred (n : Nat) : BitVec.ofNat 16 (n + 1) - 1 = BitVec.ofNat 16 n := by
  rw [BitVec16.ofNat_succ, BitVec.add_sub_cancel]

/-- After the release of the last hold on a list, no removal is deferred. -/
theorem SignalImpl.deferred_of_quiet {n : Nat} (count : self.execCount = BitVec.ofNat 16 (n + 1))
    (quiet : self.sweepsNext = false) (h0 : n = 0) : self.deferred = false := by
  subst h0
  unfold SignalImpl.sweepsNext at quiet
  rw [count] at quiet
  simpa using quiet

theorem Frame.execOn_iff {i j : Addr} {f : Frame V} (h : f.execOn i = true) :
    f.execOn j = decide (i = j) := by
  cases f <;> simp_all [Frame.execOn]

/-- A frame on `i` in the place of another one. -/
theorem World.execs_replaced {f g : Frame V} {j : Addr} (top : w.frames = f :: below)
    (hf : f.execOn i = true) (hg : g.execOn i = true) : (w.setTop g).execs j = w.execs j := by
  rw [World.execs_setTop top, World.execs_top top, Frame.execOn_iff hf, Frame.execOn_iff hg]

theorem Frame.Leaves.execOn {f : Frame V} (h : f.Leaves i w) : f.execOn i = true := by
  rcases h with rfl | ⟨n, rfl, -⟩ <;> simp [Frame.execOn]

theorem World.sets_finish (w : World V) (e : Emission V) (self : SignalImpl) (completed : Bool) :
    w.Sets (((w.erasePlaceholder e self completed).decrement e.impl
      { self with slots := self.slots.erase e.placeholder }).setTop (.holding e.impl)) e.impl
        { self with slots := self.slots.erase e.placeholder, execCount := self.execCount - 1 } := by
  simp [World.Sets, World.setTop, World.decrement, World.erasePlaceholder, World.setImpl,
    World.setSlot]

theorem World.sets_finishSweep (w : World V) (e : Emission V) (self : SignalImpl)
    (completed : Bool) (f : Frame V) :
    w.Sets ((((w.erasePlaceholder e self completed).setTop (.holding e.impl)).setImpl e.impl
      (some { self with slots := self.slots.erase e.placeholder, deferred := false })).push f)
        e.impl { self with slots := self.slots.erase e.placeholder, deferred := false } := by
  simp [World.Sets, World.push, World.setTop, World.erasePlaceholder, World.setImpl,
    World.setSlot]

namespace World.Counted

variable {f g : Frame V} {j : Addr} {sl : SlotBase} {n : SlotAddr}

/-- Another frame on the same list is on top. -/
theorem replaced (hc : w.Counted) (top : w.frames = f :: below) (hf : f.execOn i = true)
    (hg : g.execOn i = true) : (w.setTop g).Counted :=
  hc.same rfl fun _ => World.execs_replaced top hf hg

/-- The functions are the same, and so is the count. -/
theorem counts_same {x : SignalImpl} (hc : w.Counted) (impl : w.impls i = some self)
    (sets : w.Sets w' i x) (execs : ∀ j, w'.execs j = w.execs j) (hx : x.execCount = self.execCount)
    (hd : w.execs i = 0 → x.deferred = false) : w'.Counted := by
  refine hc.sets sets (fun j _ => execs j) ?_ fun h0 => hd (execs i ▸ h0)
  rw [execs, hx]
  exact hc.count i self impl

/-- An element is erased by the function on top. -/
theorem unlinked (hc : w.Counted) (impl : w.impls i = some self) (top : w.frames = f :: below)
    (hf : f.execOn i = true) (hg : g.execOn i = true) :
    ((w.unlinkDying i self n sl).setTop g).Counted :=
  hc.counts_same impl rfl (fun _ => World.execs_replaced (w := w.unlinkDying i self n sl) top hf hg)
    rfl (hc.idle i self impl)

/-- A function begins to hold the list. -/
theorem push {x : SignalImpl} (hc : w.Counted) (impl : w.impls i = some self) (hf : f.execOn i = true)
    (sets : w.Sets w' i x) (holders : w'.holders = f :: w.holders)
    (hx : x.execCount = self.execCount + 1) : w'.Counted := by
  have hexecs (j : Addr) := World.execs_of_holders_cons (i := j) holders
  refine hc.sets sets (fun j hj => ?_) ?_ fun h0 => ?_
  · rw [hexecs, Frame.execOn_iff hf]
    simp [Ne.symm hj]
  · rw [hexecs, if_pos hf, BitVec16.ofNat_succ, hx, hc.count i self impl]
  · rw [hexecs, if_pos hf] at h0
    cases h0

/-- The function on top, which is on `i`, has left it. -/
theorem leave (hc : w.Counted) (top : w.frames = f :: below) (hf : f.execOn i = true)
    (impl : w.impls i = some self) (quiet : self.sweepsNext = false) (x : SignalImpl)
    (hx : x.execCount = self.execCount - 1) (hd : x.deferred = self.deferred)
    (sets : w.Sets w' i x) (execs : ∀ j, w'.execs j = below.countP (Frame.execOn j)) :
    w'.Counted := by
  -- The function on top is one of those that are counted.
  have hcount := hc.count i self impl
  rw [World.execs_top top, if_pos hf] at hcount
  refine hc.sets sets (fun j hj => ?_) ?_ fun h0 => ?_
  · rw [execs, World.execs_top top, Frame.execOn_iff hf]
    simp [Ne.symm hj]
  · rw [execs, hx, hcount, BitVec16.ofNat_pred]
  · rw [execs] at h0
    rw [hd]
    exact SignalImpl.deferred_of_quiet hcount quiet h0

/-- `sweep()` follows, and its frame takes the place of the one on top. -/
theorem sweep (hc : w.Counted) (top : w.frames = f :: below) (hf : f.execOn i = true)
    (impl : w.impls i = some self) (x : SignalImpl) (hx : x.execCount = self.execCount)
    (sets : w.Sets w' i x)
    (execs : ∀ j, w'.execs j = below.countP (Frame.execOn j) + if (i = j) then 1 else 0) :
    w'.Counted := by
  have hexecs (j : Addr) : w'.execs j = w.execs j := by
    rw [execs, World.execs_top top, Frame.execOn_iff hf]
    simp
  refine hc.counts_same impl sets hexecs hx fun h0 => ?_
  rw [← hexecs, execs, if_pos rfl] at h0
  cases h0

theorem alloc (hc : w.Counted) (hw : WellAddressed w) (fresh : w.next ≤ i) (sets : w.Sets w' i {})
    (holders : w'.holders = w.holders) : w'.Counted := by
  have hexecs (j : Addr) := World.execs_of_holders (i := j) holders
  refine hc.sets sets (fun j _ => hexecs j) ?_ fun _ => rfl
  rw [hexecs, World.execs_fresh hw fresh]
  rfl

theorem dispose (hc : w.Counted) (impls : w'.impls = Function.update w.impls i none)
    (holders : w'.holders = w.holders) : w'.Counted := by
  have hexecs (j : Addr) := World.execs_of_holders (i := j) holders
  refine ⟨fun j x hj => ?_, fun j x hj h0 => ?_⟩
  all_goals
    rw [impls] at hj
    obtain ⟨-, hx⟩ | ⟨-, hx⟩ := update_eq_some.mp hj
  · cases hx
  · rw [hexecs]
    exact hc.count j x hx
  · cases hx
  · exact hc.idle j x hx (hexecs j ▸ h0)

theorem defer (hc : w.Counted) (impl : w.impls i = some self) (executing : self.execCount ≠ 0)
    (sets : w.Sets w' i { self with deferred := true }) (holders : w'.holders = w.holders) :
    w'.Counted := by
  refine hc.counts_same impl sets (fun j => World.execs_of_holders holders) rfl fun h0 => ?_
  -- A removal is deferred only where the count is not null, so some function holds the list.
  refine absurd ?_ executing
  rw [hc.count i self impl, h0]
  rfl

/-- `clear()` puts the flag back that it has found. -/
theorem restoreDeferred (hc : w.Counted) (impl : w.impls i = some self)
    (top : w.frames = f :: below) (hf : f.execOn i = true) (saved : Bool) :
    (w.setImpl i (some { self with deferred := saved })).Counted := by
  refine hc.counts_same impl rfl (fun _ => rfl) rfl fun h0 => ?_
  -- clear() itself holds the list while it does so.
  rw [World.execs_top top, if_pos hf] at h0
  exact absurd h0 (Nat.succ_ne_zero _)

theorem leaveClear (hc : w.Counted) (top : w.frames = f :: below) (hf : f.execOn i = true)
    (impl : w.impls i = some self) (quiet : self.sweepsNext = false) :
    (w.decrement i self).pop.Counted :=
  hc.leave top hf impl quiet { self with execCount := self.execCount - 1 } rfl rfl rfl
    fun _ => World.execs_pop (w := w.decrement i self) top

theorem leaveClearSweep (hc : w.Counted) (top : w.frames = f :: below) (hf : f.execOn i = true)
    (impl : w.impls i = some self) (it : Option SlotAddr) :
    ((w.pop.setImpl i (some { self with deferred := false })).push (.sweep i it none)).Counted := by
  refine hc.sweep top hf impl { self with deferred := false } rfl rfl fun j => ?_
  rw [World.execs_push]
  change w.pop.execs j + _ = _
  rw [World.execs_pop top]
  simp [Frame.execOn]

theorem leaveHolder (hc : w.Counted) (top : w.frames = f :: below) (hf : f.execOn i = true)
    (impl : w.impls i = some self) (quiet : self.sweepsNext = false) :
    ((w.decrement i self).setTop (.holding i)).Counted := by
  refine hc.leave top hf impl quiet { self with execCount := self.execCount - 1 } rfl rfl rfl
    fun j => ?_
  rw [World.execs_setTop (w := w.decrement i self) top]
  simp [Frame.execOn]

theorem leaveHolderSweep (hc : w.Counted) (top : w.frames = f :: below) (hf : f.execOn i = true)
    (impl : w.impls i = some self) (it : Option SlotAddr) :
    (((w.setTop (.holding i)).setImpl i (some { self with deferred := false })).push
      (.sweep i it none)).Counted := by
  refine hc.sweep top hf impl { self with deferred := false } rfl rfl fun j => ?_
  rw [World.execs_push]
  change (w.setTop _).execs j + _ = _
  rw [World.execs_setTop top]
  simp [Frame.execOn]

theorem finish {e : Emission V} {completed : Bool} (hc : w.Counted)
    (top : w.frames = .emission e :: below) (impl : w.impls e.impl = some self)
    (quiet : self.sweepsNext = false) :
    (((w.erasePlaceholder e self completed).decrement e.impl
      { self with slots := self.slots.erase e.placeholder }).setTop (.holding e.impl)).Counted := by
  refine hc.leave top (by simp [Frame.execOn]) impl quiet
    { self with slots := self.slots.erase e.placeholder, execCount := self.execCount - 1 }
    rfl rfl (World.sets_finish w e self completed) fun j => ?_
  have htop := World.execs_setTop (w := (w.erasePlaceholder e self completed).decrement e.impl
    { self with slots := self.slots.erase e.placeholder }) (g := .holding e.impl) (i := j) top
  rw [htop]
  simp [Frame.execOn]

theorem finishSweep {e : Emission V} {completed : Bool} (hc : w.Counted)
    (top : w.frames = .emission e :: below) (impl : w.impls e.impl = some self)
    (it : Option SlotAddr) :
    ((((w.erasePlaceholder e self completed).setTop (.holding e.impl)).setImpl e.impl
      (some { self with slots := self.slots.erase e.placeholder, deferred := false })).push
        (.sweep e.impl it none)).Counted := by
  refine hc.sweep top (by simp [Frame.execOn]) impl
    { self with slots := self.slots.erase e.placeholder, deferred := false } rfl
    (World.sets_finishSweep w e self completed _) fun j => ?_
  rw [World.execs_push]
  have htop := World.execs_setTop (w := w.erasePlaceholder e self completed)
    (g := .holding e.impl) (i := j) top
  change ((w.erasePlaceholder e self completed).setTop _).execs j + _ = _
  rw [htop]
  simp [Frame.execOn]

end World.Counted

theorem ListStep.counted (h : ListStep w w') (hw : WellAddressed w) (hc : w.Counted) :
    w'.Counted := by
  cases h with
  | quiet impls holders => exact hc.same impls fun i => World.execs_of_holders holders
  | @insert i self n first user impl sets holders =>
    exact hc.counts_same impl sets (fun j => World.execs_of_holders holders) rfl
      (hc.idle i self impl)
  | alloc fresh sets holders => exact hc.alloc hw fresh sets holders
  | dispose unowned idle impl empty impls holders => exact hc.dispose impls holders
  | defer owned impl executing sets holders => exact hc.defer impl executing sets holders
  | erase calm owned impl idle element sets holders =>
    exact hc.push impl (by simp [Frame.execOn]) sets holders rfl
  | enterClear calm impl sets holders =>
    exact hc.push impl (by simp [Frame.execOn]) sets holders rfl
  | @clearNext i it it' during saved below self top impl next severed same =>
    subst same
    exact hc.replaced (i := i) top (by simp [Frame.execOn]) (by simp [Frame.execOn])
  | restoreDeferred top impl same =>
    subst same
    exact hc.restoreDeferred impl top (by simp [Frame.execOn]) _
  | clearErase top impl slots alive same =>
    subst same
    exact hc.unlinked impl top (by simp [Frame.execOn]) (by simp [Frame.execOn])
  | @clearErased i saved below s top gone same =>
    subst same
    exact hc.replaced (i := i) top (by simp [Frame.execOn]) (by simp [Frame.execOn])
  | leaveClear top impl cleared quiet same =>
    subst same
    exact hc.leaveClear top (by simp [Frame.execOn]) impl quiet
  | leaveClearSweep top impl cleared sweeps same =>
    subst same
    exact hc.leaveClearSweep top (by simp [Frame.execOn]) impl _
  | @sweepSkip i it it' below self top impl next keep same =>
    subst same
    exact hc.replaced (i := i) top (by simp [Frame.execOn]) (by simp [Frame.execOn])
  | sweepErase top impl next element empty alive same =>
    subst same
    exact hc.unlinked impl top (by simp [Frame.execOn]) (by simp [Frame.execOn])
  | @sweepErased i it it' below top gone same =>
    subst same
    exact hc.replaced (i := i) top (by simp [Frame.execOn]) (by simp [Frame.execOn])
  | leaveHolder top holder impl quiet same =>
    subst same
    exact hc.leaveHolder top holder.execOn impl quiet
  | leaveHolderSweep top holder impl sweeps same =>
    subst same
    exact hc.leaveHolderSweep top holder.execOn impl _
  | start calm owned impl new sets holders =>
    exact hc.push impl (by simp [Frame.execOn, new]) sets holders rfl
  | @emit e e' below top impl placeholder it same =>
    subst same
    exact hc.replaced (i := e.impl) top (by simp [Frame.execOn]) (by simp [Frame.execOn, impl])
  | finish top ends impl element quiet same =>
    subst same
    exact hc.finish top impl quiet
  | finishSweep top ends impl element sweeps same =>
    subst same
    exact hc.finishSweep top impl _

theorem Steps.counted (h : Steps w w') (hw : WellAddressed w) (hc : w.Counted) : w'.Counted := by
  induction h with
  | refl => exact hc
  | tail hs hstep ih =>
    have hadv := Steps.advances hs hw
    exact hstep.listStep.counted hadv.addressed ih

theorem World.Counted.initial (script : List (Cmd V)) : ({ script } : World V).Counted where
  count _ _ h := by cases h
  idle _ _ h := by cases h

end Sigc
