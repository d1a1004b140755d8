import Sigc.Linkage

/-!
# Steps, seen from the lists of signals

What a step can do to the signals, and to the part of the stack that holds their lists in use: an
emission, a `sweep()`, an erasure and a `clear()` each hold the execution count.  All that is said
about counts, iterators and deferred removals follows from the few cases below.
-/

namespace Sigc

open Reasoning Prog

variable {V : Type} {w w' : World V}

/-- Does this frame hold the execution count of some list? -/
def Frame.holds : Frame V → Bool
  | .emission _ | .sweep .. | .erase .. | .clear .. => true
  | _ => false

theorem Frame.execOn_eq_false {f : Frame V} (h : f.holds = false) (i : Addr) :
    f.execOn i = false := by
  cases f <;> first | rfl | cases h

namespace World

variable {below : List (Frame V)}

def holders (w : World V) : List (Frame V) := w.frames.filter Frame.holds

theorem holders_of_frames (h : w'.frames = w.frames) : w'.holders = w.holders := by
  unfold holders
  rw [h]

@[simp] theorem holders_push (w : World V) (f : Frame V) :
    (w.push f).holders = if f.holds then f :: w.holders else w.holders := by
  simp [holders, push, List.filter_cons]

theorem holders_top {f : Frame V} (top : w.frames = f :: below) :
    w.holders = if f.holds then f :: below.filter Frame.holds else below.filter Frame.holds := by
  simp [holders, top, List.filter_cons]

theorem holders_setTop {f g : Frame V} (top : w.frames = f :: below) :
    (w.setTop g).holders =
      if g.holds then g :: below.filter Frame.holds else below.filter Frame.holds := by
  simp [holders, setTop, top, List.filter_cons]

theorem holders_pop {f : Frame V} (top : w.frames = f :: below) :
    w.pop.holders = below.filter Frame.holds := by
  simp [holders, pop, top]

/-- The list `i`, which is `self`, with another one in its place. -/
abbrev Sets (w w' : World V) (i : Addr) (self : SignalImpl) : Prop :=
  w'.impls = Function.update w.impls i (some self)

end World

/-- The frame of a `signal_impl_holder`, when the last element erased under it is gone. -/
def Frame.Leaves (i : Addr) (w : World V) (f : Frame V) : Prop :=
  f = .sweep i none none ∨ ∃ n, f = .erase i n ∧ w.slots n = none

/-- What a step does to the lists of signals. -/
inductive ListStep (w w' : World V) : Prop where
  /-- nothing -/
  | quiet (impls : w'.impls = w.impls) (holders : w'.holders = w.holders)
  -- connect() and connect_first(), called by client code
  | insert {i self n} (first : Bool) (user : w.UserPoint) (impl : w.impls i = some self)
      (sets : w.Sets w' i { self with
        slots := if first then n :: self.slots else self.slots ++ [n] })
      (holders : w'.holders = w.holders)
  -- impl() makes a signal_impl where there is none
  | alloc {i} (fresh : w.next ≤ i) (sets : w.Sets w' i {}) (holders : w'.holders = w.holders)
  -- the end of ~signal_impl(), after clear()
  | dispose {i self} (unowned : w.owned i = false) (idle : w.frames.any (Frame.execOn i) = false)
      (impl : w.impls i = some self) (empty : self.slots = [])
      (impls : w'.impls = Function.update w.impls i none) (holders : w'.holders = w.holders)
  -- the notification of a disconnected slot, while a function runs on the list
  | defer {i self} (owned : w.owned i = true) (impl : w.impls i = some self)
      (executing : self.execCount ≠ 0) (sets : w.Sets w' i { self with deferred := true })
      (holders : w'.holders = w.holders)
  -- the same while no function runs on it
  | erase {i self n} (calm : w.Calm ∨ w.Clears i n ∨ ∃ r, w.CallsBack r) (owned : w.owned i = true)
      (impl : w.impls i = some self) (idle : self.execCount = 0) (element : n ∈ self.slots)
      (sets : w.Sets w' i { self with
        slots := self.slots.erase n, execCount := self.execCount + 1 })
      (holders : w'.holders = .erase i n :: w.holders)
  -- clear(): its first loop, slots_.clear() with an element at a time, and the end of its holder
  | enterClear {i self} (calm : w.Calm) (impl : w.impls i = some self)
      (sets : w.Sets w' i { self with execCount := self.execCount + 1 })
      (holders : w'.holders = .clear i self.slots.head? none
        (decide (0 < self.execCount.toInt)) self.deferred :: w.holders)
  | clearNext {i it it' during saved below self}
      (top : w.frames = .clear i (some it) none during saved :: below)
      (impl : w.impls i = some self) (next : following it self.slots = some it')
      (severed : w.Disconnected it) (same : w' = w.setTop (.clear i it' none during saved))
  | restoreDeferred {i saved below self} (top : w.frames = .clear i none none false saved :: below)
      (impl : w.impls i = some self)
      (same : w' = w.setImpl i (some { self with deferred := saved }))
  | clearErase {i saved below self s rest sl}
      (top : w.frames = .clear i none none false saved :: below) (impl : w.impls i = some self)
      (slots : self.slots = s :: rest) (alive : w.slots s = some sl)
      (same : w' = (w.unlinkDying i self s sl).setTop (.clear i none (some s) false saved))
  | clearErased {i saved below s} (top : w.frames = .clear i none (some s) false saved :: below)
      (gone : w.slots s = none) (same : w' = w.setTop (.clear i none none false saved))
  | leaveClear {i during saved below self}
      (top : w.frames = .clear i none none during saved :: below) (impl : w.impls i = some self)
      (cleared : during = false → self.slots = []) (quiet : self.sweepsNext = false)
      (same : w' = (w.decrement i self).pop)
  | leaveClearSweep {i during saved below self}
      (top : w.frames = .clear i none none during saved :: below) (impl : w.impls i = some self)
      (cleared : during = false → self.slots = []) (sweeps : self.sweepsNext = true)
      (same : w' = (w.pop.setImpl i (some { self with deferred := false })).push
        (.sweep i self.slots.head? none))
  -- sweep(): an element is kept, erased, or has been destroyed
  | sweepSkip {i it it' below self} (top : w.frames = .sweep i (some it) none :: below)
      (impl : w.impls i = some self) (next : following it self.slots = some it')
      (keep : ¬w.Empty it) (same : w' = w.setTop (.sweep i it' none))
  | sweepErase {i it it' below self sl} (top : w.frames = .sweep i (some it) none :: below)
      (impl : w.impls i = some self) (next : following it self.slots = some it')
      (element : it ∈ self.slots) (empty : w.Empty it) (alive : w.slots it = some sl)
      (same : w' = (w.unlinkDying i self it sl).setTop (.sweep i it' (some it)))
  | sweepErased {i it it' below} (top : w.frames = .sweep i it' (some it) :: below)
      (gone : w.slots it = none) (same : w' = w.setTop (.sweep i it' none))
  -- unreference_exec() for sweep() or erase, with and without sweep() after it
  | leaveHolder {i below f self} (top : w.frames = f :: below) (holder : f.Leaves i w)
      (impl : w.impls i = some self) (quiet : self.sweepsNext = false)
      (same : w' = (w.decrement i self).setTop (.holding i))
  | leaveHolderSweep {i below f self} (top : w.frames = f :: below) (holder : f.Leaves i w)
      (impl : w.impls i = some self) (sweeps : self.sweepsNext = true)
      (same : w' = ((w.setTop (.holding i)).setImpl i (some { self with deferred := false })).push
        (.sweep i self.slots.head? none))
  -- an emission: its start, what it does in between, and its end
  | start {i self e} (calm : w.Calm) (owned : w.owned i = true) (impl : w.impls i = some self)
      (new : e = { impl := i
                   placeholder := .placeholder w.frames.length
                   it := self.slots.headD (.placeholder w.frames.length)
                   snapshot := self.slots })
      (sets : w.Sets w' i { self with
        slots := self.slots ++ [e.placeholder], execCount := self.execCount + 1 })
      (holders : w'.holders = .emission e :: w.holders)
  | emit {e e' below} (top : w.frames = .emission e :: below) (impl : e'.impl = e.impl)
      (placeholder : e'.placeholder = e.placeholder)
      (it : e'.it = e.it ∨ ∃ self, w.impls e.impl = some self ∧
        following e.it self.slots = some (some e'.it))
      (same : w' = w.setTop (.emission e'))
  | finish {e below self completed} (top : w.frames = .emission e :: below)
      (ends : e.Over completed) (impl : w.impls e.impl = some self)
      (element : e.placeholder ∈ self.slots) (quiet : self.sweepsNext = false)
      (same : w' = ((w.erasePlaceholder e self completed).decrement e.impl
        { self with slots := self.slots.erase e.placeholder }).setTop (.holding e.impl))
  | finishSweep {e below self completed} (top : w.frames = .emission e :: below)
      (ends : e.Over completed) (impl : w.impls e.impl = some self)
      (element : e.placeholder ∈ self.slots) (sweeps : self.sweepsNext = true)
      (same : w' = (((w.erasePlaceholder e self completed).setTop (.holding e.impl)).setImpl e.impl
        (some { self with slots := self.slots.erase e.placeholder, deferred := false })).push
          (.sweep e.impl (self.slots.erase e.placeholder).head? none))

/-! ## Every step is one of these -/

variable {i : Addr} {self : SignalImpl}

theorem TrackableStep.listStep (h : TrackableStep w w') : ListStep w w' := by
  cases h with
  | beginNotify alive list idle reason calm => exact .quiet rfl rfl
  | skip top alive list element inactive =>
    exact .quiet rfl ((World.holders_setTop top).trans (World.holders_top top).symm)
  -- A weak pointer is reset: the stack is as high as before, and nothing on it holds a list.
  | @notifyWeak t tr l pos deps below cb c top alive list element func weak =>
    exact .quiet rfl ((World.holders_setTop (w := w.setWeak cb.data _) top).trans
      (World.holders_top top).symm)
  | @endNotify t tr l pos deps below top alive list done =>
    exact .quiet rfl ((World.holders_pop (w := (w.setTrackable t _).record _) top).trans
      (World.holders_top top).symm)
  | _ => exact .quiet rfl rfl

theorem WeakStep.listStep (h : WeakStep w w') : ListStep w w' := by
  cases h with
  | refer s => exact .quiet rfl rfl
  | construct user source run =>
    obtain ⟨-, tks, ign, rfl, -⟩ := WeakRawPtr.construct_effect run
    exact .quiet rfl rfl
  | assign user connection run =>
    obtain ⟨mid, tks, ign, self, from_, -, -, rfl, -⟩ := WeakRawPtr.assign_effect run
    exact .quiet rfl rfl
  | destroy user connection run =>
    obtain ⟨tks, self, -, rfl, -⟩ := WeakRawPtr.destroy_effect run
    exact .quiet rfl rfl

/-- A disconnection, possibly after other objects have changed in `v`. -/
theorem Sever.listStep {v : World V} {r : Addr} (h : Sever r w w') (impls : w.impls = v.impls)
    (holders : w.holders = v.holders) (owned : ∀ i, w.owned i = v.owned i)
    (calm : ∀ i n, w.Calm ∨ w.Clears i n → v.Calm ∨ v.Clears i n ∨ ∃ r, v.CallsBack r) :
    ListStep v w' := by
  cases h with
  | none alive parent => exact .quiet impls holders
  | rep alive parent cleanup calm => exact .quiet impls holders
  | expired alive parent cleanup record expired => exact .quiet impls holders
  | @defer rep d si self alive parent cleanup record owned' impl executing =>
    exact .defer ((owned _).symm.trans owned') (impls ▸ impl) executing (by
      change Function.update w.impls _ _ = _
      rw [impls]) holders
  | @erase rep d si self sl alive parent cleanup record owned' impl idle element slot calm' =>
    refine .erase (calm _ _ calm') ((owned _).symm.trans owned') (impls ▸ impl) idle element (by
      change Function.update w.impls _ _ = _
      rw [impls]) ?_
    rw [← holders]
    rfl

theorem SlotStep.listStep (h : SlotStep w w') : ListStep w w' := by
  cases h with
  | construct unlisted functor run =>
    obtain ⟨-, rfl, rfl⟩ | ⟨f, tks, ign, rps, -, -, rfl, rfl⟩ := SlotBase.construct_effect run <;>
      exact .quiet rfl rfl
  | take unlisted source told run =>
    obtain ⟨sl, -, rfl, rfl⟩ := SlotBase.takeRep_effect run
    exact .quiet rfl rfl
  | sever h => exact h.listStep rfl rfl (fun _ => rfl) fun _ _ h => h.imp_right .inl
  -- Only the disconnection counts: call_ and the notifier belong to no list.
  | @startInvalidation w₁ w' r rep x calm alive run sever =>
    obtain ⟨-, tks, ign, rfl, -⟩ := WeakRawPtr.construct_effect run
    refine sever.listStep (v := w) rfl rfl (fun i => ?_) fun i n _ =>
      calm.imp_right fun h => .inr ⟨r, h⟩
    simp [World.owned, World.push, World.record, World.setRep, Frame.owns]
  | detach top run =>
    obtain ⟨rep, tks, rps, -, -, rfl, -⟩ := SlotRep.detachFunctor_effect run
    exact .quiet rfl rfl
  | endInvalidation top weak gutted run =>
    obtain ⟨tks, self, -, rfl, -⟩ := WeakRawPtr.destroy_effect run
    exact .quiet rfl ((World.holders_pop top).trans (World.holders_top top).symm)
  | @endCallback w₁ r x c t pos deps below tr l top weak gutted run alive list element =>
    obtain ⟨tks, self, -, rfl, -⟩ := WeakRawPtr.destroy_effect run
    have htop : w.pop.frames = .notifying t pos deps :: below := by simp [World.pop, top]
    refine .quiet rfl ((World.holders_setTop (w := w.pop) htop).trans ?_)
    rw [World.holders_top top]
    simp [Frame.holds]
  | beginDelete calm alive idle slot rep unlisted run =>
    obtain ⟨rep, tks, rps, -, -, rfl, -⟩ := SlotRep.detachFunctor_effect run
    exact .quiet rfl rfl
  | @endDelete r base below top alive notified =>
    exact .quiet rfl ((World.holders_pop (w := (w.setRep r none).setTrackable r none) top).trans
      (World.holders_top top).symm)
  | startCheck calm alive rep unlisted run =>
    obtain ⟨-, tks, ign, rfl, -⟩ := WeakRawPtr.construct_effect run
    exact .quiet rfl rfl
  | endCheck top run =>
    obtain ⟨tks, self, -, rfl, -⟩ := WeakRawPtr.destroy_effect run
    exact .quiet rfl ((World.holders_pop top).trans (World.holders_top top).symm)
  | cloneFor calm unlisted functor run =>
    obtain ⟨-, tks, ign, rps, sl, w₂, -, alive, hpass, rfl⟩ := SlotBase.cloneFor_effect run
    obtain ⟨-, rfl⟩ | ⟨_, _, _, -, -, -, rfl⟩ := SlotBase.passParent_effect hpass <;>
      exact .quiet rfl rfl
  | moveFor calm unlisted source told run =>
    obtain ⟨from_, sl, w₂, ⟨hfrom, -⟩, -, hdst, hpass, rfl⟩ := SlotBase.moveFor_effect run
    obtain ⟨-, rfl⟩ | ⟨_, _, _, -, -, -, rfl⟩ := SlotBase.passParent_effect hpass <;>
      exact .quiet rfl rfl
  | @finishAssign dst new self below top alive intact unlisted =>
    exact .quiet rfl ((World.holders_pop (w := w.replaceRep dst self (some new)) top).trans
      (World.holders_top top).symm)
  | popHandler top =>
    exact .quiet rfl ((World.holders_pop top).trans (World.holders_top top).symm)
  | nextTarget top =>
    exact .quiet rfl ((World.holders_setTop top).trans (World.holders_top top).symm)
  | popFunctorDtor top =>
    exact .quiet rfl ((World.holders_pop top).trans (World.holders_top top).symm)
  | _ => exact .quiet rfl rfl

/-- A handle lets go of `old`. -/
theorem World.letGo_quiet {old : Option Addr} {w₁ : World V}
    (hrun : SignalBase.letGo old w₁ = (.ret old, w')) (impls : w₁.impls = w.impls)
    (frames : w₁.frames = w.frames) : ListStep w w' := by
  obtain ⟨-, rfl⟩ := SignalBase.letGo_effect hrun
  cases old with
  | none => exact .quiet impls (World.holders_of_frames frames)
  -- The frame that is pushed waits for the deleter, and does not hold the list.
  | some i =>
    refine .quiet ?_ ?_
    · unfold World.letGo World.push
      dsimp only [Option.elim]
      split <;> exact impls
    · unfold World.letGo
      dsimp only [Option.elim]
      rw [World.holders_push, if_neg (by simp [Frame.holds])]
      split <;> exact World.holders_of_frames frames

theorem SignalImpl.placed_listStep {w₁ : World V} {first : Bool} {n : SlotAddr} {sl : SlotBase}
    (hp : SignalImpl.Placed w₁ i first n sl w') (user : w.UserPoint) (impls : w₁.impls = w.impls)
    (frames : w₁.frames = w.frames) : ListStep w w' := by
  obtain ⟨-, self, r, rep, nx, tks, himpl, -, -, rfl⟩ := hp
  refine .insert (n := n) first user (impls ▸ himpl) ?_ (World.holders_of_frames frames)
  change Function.update w₁.impls _ _ = _
  rw [impls]

theorem SignalBase.impl_listStep {h : Addr} (run : SignalBase.impl h w = (.ret i, w')) :
    ListStep w w' := by
  obtain ⟨-, rfl⟩ | ⟨-, rfl, rfl⟩ := SignalBase.impl_effect run
  · exact .quiet rfl rfl
  · exact .alloc (Nat.le_refl _) rfl rfl

@[simp] theorem World.setImpl_setImpl (w : World V) (i : Addr) (x y : Option SignalImpl) :
    (w.setImpl i x).setImpl i y = w.setImpl i y := by
  simp [World.setImpl]

/-- `sweep()` is entered right after the execution count of its list has been released. -/
theorem World.enterSweep_released {v : World V} {y : SignalImpl} {it : Option SlotAddr}
    (run : SignalImpl.enterSweep i (v.setImpl i (some { y with
      execCount := y.execCount - 1 })) = (.ret it, w')) :
    w' = (v.setImpl i (some { y with deferred := false })).push
      (.sweep i y.slots.head? none) := by
  obtain ⟨self', himpl, -, rfl⟩ := SignalImpl.enterSweep_effect run
  simp only [World.setImpl, Function.update_self, Option.some.injEq] at himpl
  -- reference_exec() of sweep() takes the count back to what it was.
  subst himpl
  simp only [World.setImpl, World.push, Function.update_idem, BitVec.sub_add_cancel]

theorem SignalStep.listStep (h : SignalStep w w') : ListStep w w' := by
  cases h with
  | insertBuilt user owned functor run =>
    obtain ⟨w₁, rep?, hcons, -, hp⟩ := SignalImpl.insertBuilt_effect run
    obtain ⟨-, -, rfl⟩ | ⟨f, tks, ign, rps, -, -, -, rfl⟩ := SlotBase.construct_effect hcons <;>
      exact SignalImpl.placed_listStep hp user rfl rfl
  | insertTaken user owned source told run =>
    obtain ⟨w₁, sl, htake, -, -, hp⟩ := SignalImpl.insertTaken_effect run
    obtain ⟨sl', -, -, rfl⟩ := SlotBase.takeRep_effect htake
    exact SignalImpl.placed_listStep hp user rfl rfl
  | new => exact .quiet rfl rfl
  | impl run => exact SignalBase.impl_listStep run
  | copyConstruct handle run =>
    obtain ⟨i, w₁, hrun, rfl, rfl⟩ := SignalBase.copyConstruct_effect run
    obtain ⟨-, rfl⟩ | ⟨-, rfl, rfl⟩ := SignalBase.impl_effect hrun
    · exact .quiet rfl rfl
    · exact .alloc (Nat.le_refl _) rfl rfl
  | moveConstruct run =>
    obtain ⟨-, rfl⟩ := SignalBase.moveConstruct_effect run
    exact .quiet rfl rfl
  | replaceImpl calm owned run =>
    obtain ⟨-, hgo⟩ := SignalBase.replaceImpl_effect run
    exact World.letGo_quiet hgo rfl rfl
  | dropHandle calm run =>
    obtain ⟨-, hgo⟩ := SignalBase.dropHandle_effect run
    exact World.letGo_quiet hgo rfl rfl
  | endRelease top done =>
    exact .quiet rfl ((World.holders_pop top).trans (World.holders_top top).symm)
  | endDispose top unowned idle alive empty => exact .dispose unowned idle alive empty rfl rfl
  | @endCleanup d below top =>
    exact .quiet rfl ((World.holders_pop (w := w.setRecord d none) top).trans
      (World.holders_top top).symm)
  | enterClear calm run =>
    obtain ⟨self, himpl, rfl, rfl, rfl, -, rfl⟩ := SignalImpl.enterClear_effect run
    exact .enterClear calm himpl rfl rfl
  | clearNext top impl next severed => exact .clearNext top impl next severed rfl
  | recordCleared top => exact .quiet rfl rfl
  | restoreDeferred top impl => exact .restoreDeferred top impl rfl
  | clearErase top impl slots alive => exact .clearErase top impl slots alive rfl
  | clearErased top gone => exact .clearErased top gone rfl
  | leaveClear top impl cleared quiet => exact .leaveClear top impl cleared quiet rfl
  | leaveClearSweep top impl cleared sweeps owned run =>
    exact .leaveClearSweep top impl cleared sweeps (World.enterSweep_released (v := w.pop) run)
  | sweepSkip top impl next keep => exact .sweepSkip top impl next keep rfl
  | sweepErase top impl next element empty alive =>
    exact .sweepErase top impl next element empty alive rfl
  | sweepErased top gone => exact .sweepErased top gone rfl
  | leaveHolder top holder impl quiet => exact .leaveHolder top holder impl quiet rfl
  | leaveHolderSweep top holder impl sweeps run =>
    exact .leaveHolderSweep top holder impl sweeps (World.enterSweep_released
      (v := w.setTop _) run)
  | startRelease top =>
    exact .quiet rfl ((World.holders_setTop top).trans (World.holders_top top).symm)

theorem EmissionStep.listStep (h : EmissionStep w w') : ListStep w w' := by
  cases h with
  | start calm owned run =>
    obtain ⟨self, himpl, -, rfl, rfl⟩ := Emission.start_effect run
    exact .start calm owned himpl rfl rfl rfl
  | @skip e below self it' sl top inside arrived slot uncallable impl next =>
    refine .emit top ?_ ?_ (.inr ⟨self, impl, ?_⟩) rfl <;> first | rfl | exact next
  | beginCall top inside arrived callable => refine .emit top ?_ ?_ (.inl ?_) rfl <;> rfl
  | endCall v top invoking => refine .emit top ?_ ?_ (.inl ?_) rfl <;> rfl
  | @advance e below self it' top invoked impl next =>
    refine .emit top ?_ ?_ (.inr ⟨self, impl, ?_⟩) rfl <;> first | rfl | exact next
  | finish top ends impl element quiet => exact .finish top ends impl element quiet rfl
  | @finishSweep w' e below self completed it top ends impl element sweeps run =>
    exact .finishSweep top ends impl element sweeps (World.enterSweep_released
      (y := { self with slots := self.slots.erase e.placeholder })
      (v := (w.erasePlaceholder e self completed).setTop (.holding e.impl)) run)

theorem Step.listStep (h : Step w w') : ListStep w w' := by
  cases h with
  | command script wellFormed => exact .quiet rfl rfl
  | trackable h => exact h.listStep
  | weak h => exact h.listStep
  | slot h => exact h.listStep
  | signal h => exact h.listStep
  | emission h => exact h.listStep

end Sigc
