import Sigc.ClientRuns
import Sigc.ExecCount
import Mathlib.Algebra.Group.Nat.Defs

/-!
# Nested emissions

How many emissions of one signal `exec_count_`, a `short`, can tell apart; and that client code can
nest any number of them.
-/

namespace Sigc

open Reasoning Prog

variable {V : Type} {w w' : World V} {i : Addr} {self : SignalImpl}

/-! ## What the count is used for -/

/-- The list after `k` calls of `unreference_exec()`. -/
def SignalImpl.unreferenced (k : Nat) (self : SignalImpl) : SignalImpl :=
  { self with execCount := self.execCount - BitVec.ofNat 16 k }

/-- Inside of `n` emissions of `i`, which is `impl`, the execution count does what it is meant for.
The removals that have been deferred by then are swept when the first emission ends. -/
structure CountsNesting (w : World V) (i : Addr) (impl : SignalImpl) (n : Nat) : Prop where
  positive : 0 < impl.execCount.toInt
  /-- a disconnection erases no element -/
  disconnect : ∀ r w', Sever r w w' → ∃ self', w'.impls i = some self' ∧ self'.slots = impl.slots
  /-- `clear()` sees that it has been called during an emission, and erases no element -/
  clear : ∀ during saved it w', SignalImpl.enterClear i w = (.ret (during, saved, it), w') →
    during = true
  /-- the end of the first emission leaves it at 0 -/
  returns : ∀ v : World V, v.impls i = some (impl.unreferenced (n - 1)) → ∃ v' self',
    SignalImpl.decrementExec i v = (.ret (), v') ∧ v'.impls i = some self' ∧ self'.execCount = 0
  /-- of the ends of the emissions, just this one goes on to `sweep()` -/
  sweeps : ∀ k, k < n → ∀ v : World V,
    v.impls i = some ({ impl with deferred := true }.unreferenced k) → ∃ must v',
      (do SignalImpl.decrementExec i; SignalImpl.mustSweep i) v = (.ret must, v') ∧
        (must = true ↔ k + 1 = n)

theorem toInt_ofNat_pos_iff (n : Nat) :
    0 < (BitVec.ofNat 16 n).toInt ↔ 0 < n % 2 ^ 16 ∧ n % 2 ^ 16 < 2 ^ 15 := by
  rw [BitVec.toInt_eq_toNat_cond, BitVec.toNat_ofNat]
  split <;> omega

/-- What `unreference_exec()` does before it may call `sweep()`. -/
theorem SignalImpl.unreference_ret (impl : w.impls i = some self) :
    (do decrementExec i; mustSweep i) w = (.ret self.sweepsNext, w.decrement i self) := by
  have hload : loadImpl i (w.decrement i self) =
      (.ret { self with execCount := self.execCount - 1 }, w.decrement i self) :=
    deref_eq_ret.mpr ⟨Function.update_self _ _ _, rfl⟩
  rw [bind_of_ret (decrementExec_eq_ret (a := ()).mpr ⟨self, impl, rfl⟩)]
  exact bind_of_ret hload

theorem SignalImpl.sweepsNext_unreferenced {n k : Nat} (count : self.execCount = BitVec.ofNat 16 n)
    (hk : k < n) : ({ self with deferred := true }.unreferenced k).sweepsNext = true ↔
      2 ^ 16 ∣ n - (k + 1) := by
  obtain ⟨m, rfl⟩ : ∃ m, n = m + (k + 1) := ⟨n - (k + 1), by omega⟩
  have hcount : self.execCount - BitVec.ofNat 16 k - 1 = BitVec.ofNat 16 m := by
    rw [count, BitVec.ofNat_add, BitVec16.ofNat_succ]
    rw [BitVec.sub_sub, BitVec.add_sub_cancel]
  simp only [SignalImpl.unreferenced, SignalImpl.sweepsNext, hcount, Bool.and_true,
    decide_eq_true_eq, Nat.add_sub_cancel]
  rw [← BitVec.toNat_inj, BitVec.toNat_ofNat]
  exact (Nat.dvd_iff_mod_eq_zero).symm

theorem countsNesting_iff {n : Nat} (hc : w.Counted) (impl : w.impls i = some self)
    (nest : w.execs i = n) (hn : 1 ≤ n) : CountsNesting w i self n ↔ n < 2 ^ 15 := by
  have hcount : self.execCount = BitVec.ofNat 16 n := nest ▸ hc.count i self impl
  constructor
  · intro h
    have hpos := (toInt_ofNat_pos_iff n).mp (hcount ▸ h.positive)
    -- a count that has wrapped around comes back to 0 too early
    by_contra hge
    have hlt : n % 2 ^ 16 - 1 < n := by omega
    have hsweep := (SignalImpl.sweepsNext_unreferenced hcount hlt).mpr (by omega)
    have himpl : (w.setImpl i (some ({ self with deferred := true }.unreferenced
        (n % 2 ^ 16 - 1)))).impls i = some ({ self with deferred := true }.unreferenced
          (n % 2 ^ 16 - 1)) := Function.update_self _ _ _
    obtain ⟨must, v', hrun, hiff⟩ := h.sweeps _ hlt _ himpl
    rw [SignalImpl.unreference_ret himpl] at hrun
    have := hiff.mp ((Outcome.ret.inj (Prod.mk.inj hrun).1).symm.trans hsweep)
    omega
  · intro hlt
    have hpos : 0 < self.execCount.toInt := by
      rw [hcount, toInt_ofNat_pos_iff]
      omega
    have hne : self.execCount ≠ 0 := by
      intro h0
      rw [h0] at hpos
      cases hpos
    refine ⟨hpos, fun r w' h => ?_, fun during saved it w' h => ?_, fun v hv => ?_,
      fun k hk v hv => ?_⟩
    · have hsame {x : Option SignalImpl} {j : Addr} (hx : ∀ y, w.impls j = some y → ∃ z,
          x = some z ∧ z.slots = y.slots) : j = i ∨ Function.update w.impls j x i = w.impls i →
          ∃ self', Function.update w.impls j x i = some self' ∧ self'.slots = self.slots := by
        rintro (rfl | hj)
        · obtain ⟨z, rfl, hz⟩ := hx self impl
          exact ⟨z, Function.update_self _ _ _, hz⟩
        · exact ⟨self, hj.trans impl, rfl⟩
      cases h with
      | none | rep | expired => exact ⟨self, impl, rfl⟩
      | @defer rep d si self' alive parent cleanup record owned impl' executing =>
        refine hsame (fun y hy => ⟨_, rfl, ?_⟩) ?_
        · rw [← Option.some.inj (impl'.symm.trans hy)]
        · by_cases hi : si.self = i
          · exact .inl hi
          · exact .inr (Function.update_of_ne (Ne.symm hi) _ _)
      | @erase rep d si self' sl alive parent cleanup record owned impl' idle element slot calm =>
        refine ⟨self, (Function.update_of_ne ?_ _ _).trans impl, rfl⟩
        rintro rfl
        exact hne (Option.some.inj (impl'.symm.trans impl) ▸ idle)
    · obtain ⟨self', impl', rfl, -⟩ := SignalImpl.enterClear_effect h
      rw [← Option.some.inj (impl.symm.trans impl')]
      simpa using hpos
    · refine ⟨_, _, SignalImpl.decrementExec_eq_ret.mpr ⟨_, hv, rfl⟩,
        Function.update_self _ _ _, ?_⟩
      obtain ⟨m, rfl⟩ : ∃ m, n = m + 1 := ⟨n - 1, by omega⟩
      show self.execCount - BitVec.ofNat 16 m - 1 = 0
      rw [hcount, BitVec16.ofNat_succ, BitVec.sub_sub, BitVec.sub_self]
      rfl
    · refine ⟨_, _, SignalImpl.unreference_ret hv, ?_⟩
      rw [SignalImpl.sweepsNext_unreferenced hcount hk]
      constructor
      · intro h
        have := Nat.eq_zero_of_dvd_of_lt h (by omega)
        omega
      · intro h
        simp [h]

/-! ## Emissions nested in the interpreter -/

theorem recover_of_halt {σ ε η α : Type} {x : Prog σ ε η α} {f : ε → Prog σ ε η α}
    {s s' : σ} {k : η} (h : x s = (.halt k, s')) : recover x f s = (.halt k, s') := by
  unfold recover
  rw [h]

/-- The first slot of the list `i` of the handle `h` can be invoked. -/
structure Emittable (w : World V) (h i : Addr) (n : SlotAddr) (r : Addr) : Prop where
  handle : w.implOf h = some i
  exists_handle : w.hasHandle h = true
  impl : ∃ self, w.impls i = some self ∧ self.slots.head? = some n
  idle : w.frames.any (Frame.destroys i) = false
  element : ∀ d, n ≠ .placeholder d
  slot : ∃ sl, w.slots n = some sl ∧ sl.rep = some r ∧ sl.blocked = false
  rep : ∃ rep, w.reps r = some rep ∧ rep.call = true

namespace Emittable

variable {h r : Addr} {n : SlotAddr}

theorem withScript (hw : Emittable w h i n r) (cs : List (Cmd V)) :
    Emittable ({ w with script := cs } : World V) h i n r :=
  ⟨hw.handle, hw.exists_handle, hw.impl, hw.idle, hw.element, hw.slot, hw.rep⟩

/-- An emission starts. -/
theorem start (hw : Emittable w h i n r) : ∃ e w₁, Emission.start i w = (.ret e, w₁) ∧
    Emittable w₁ h i n r ∧ e.it = n ∧ e.it ≠ e.placeholder ∧ w₁.script = w.script ∧
      w₁.execs i = w.execs i + 1 ∧ w₁.frames = .emission e :: w.frames := by
  obtain ⟨self, himpl, hhead⟩ := hw.impl
  -- Nothing in start() fails here: the list is there, and no clear() destroys its elements.
  have hrun : ∃ e w₁, Emission.start i w = (.ret e, w₁) := by
    let w₁ := w.setImpl i (some { self with execCount := self.execCount + 1 })
    have hself₁ : w₁.impls i = some { self with execCount := self.execCount + 1 } :=
      Function.update_self _ _ _
    have hslots : SignalImpl.loadSlots i w₁ = (.ret self.slots, w₁) :=
      SignalImpl.loadSlots_eq_ret.mpr ⟨_, hself₁, rfl, hw.idle, rfl⟩
    have hset (s : SlotAddr) (x : Option SlotBase) (l : List SlotAddr) :
        ∃ w₂, SignalImpl.setSlots i l (w₁.setSlot s x) = (.ret (), w₂) :=
      ⟨_, SignalImpl.setSlots_eq_ret.mpr ⟨_, hself₁, rfl⟩⟩
    obtain ⟨w₂, hset⟩ := hset (.placeholder w.frames.length) (some { owner := .list i })
      (self.slots ++ [.placeholder w.frames.length])
    unfold Emission.start
    rw [bind_of_ret (SignalImpl.referenceExec_eq_ret (a := ()).mpr
      ⟨self, himpl, rfl⟩), bind_of_ret hslots,
      read_bind_run, modify_bind_run]
    change ∃ e w', (SignalImpl.setSlots i (self.slots ++ [.placeholder w.frames.length]) >>= _)
      (w₁.setSlot (.placeholder w.frames.length) (some { owner := .list i })) = (.ret e, w')
    rw [bind_of_ret hset]
    exact ⟨_, _, rfl⟩
  obtain ⟨e, w₁, hrun⟩ := hrun
  obtain ⟨self', himpl', -, rfl, rfl⟩ := Emission.start_effect hrun
  obtain rfl := Option.some.inj (himpl.symm.trans himpl')
  have hne := hw.element w.frames.length
  have hit : self.slots.headD (.placeholder w.frames.length) = n := by
    rw [List.headD_eq_head?_getD, hhead]
    rfl
  -- The placeholder comes behind the first element, so the emission finds this one first.
  refine ⟨_, _, hrun, ?_, hit, ?_, rfl, ?_, rfl⟩
  · refine ⟨hw.handle, hw.exists_handle, ⟨_, Function.update_self _ _ _, ?_⟩, ?_, hw.element, ?_,
      hw.rep⟩
    · simp [List.head?_append, hhead]
    · have hidle := hw.idle
      simpa [World.record, World.push, World.setSlot, World.setImpl, Frame.destroys] using hidle
    · obtain ⟨sl, hsl, hrep⟩ := hw.slot
      exact ⟨sl, (Function.update_of_ne hne _ _).trans hsl, hrep⟩
  · rw [hit]
    exact hne
  · simp [World.execs, World.record, World.push, World.setSlot, World.setImpl, Frame.execOn]

/-- The slot under the cursor is invoked. -/
theorem beginCall (hw : Emittable w h i n r) {e : Emission V} {below : List (Frame V)}
    (top : w.frames = .emission e :: below) (hit : e.it = n) :
    Emission.callable e.it w = (.ret true, w) ∧ ∃ e' w₁, Emission.beginCall e w = (.ret (e', r), w₁) ∧
      Emittable w₁ h i n r ∧ w₁.script = w.script ∧ w₁.execs i = w.execs i := by
  obtain ⟨sl, hsl, hrep, hblocked⟩ := hw.slot
  obtain ⟨rep, hr, hcall⟩ := hw.rep
  rw [← hit] at hsl
  have hload : (deref (.fault .cursor) fun w => w.slots e.it : M V SlotBase) w = (.ret sl, w) :=
    deref_of_some (s := w) hsl
  constructor
  · unfold Emission.callable
    rw [bind_of_ret hload]
    simp only [hrep]
    have hloadRep : loadRep r w = (.ret rep, w) := deref_of_some (s := w) hr
    rw [bind_of_ret hloadRep, pure_run, hcall, hblocked]
    rfl
  · let e' := { e with
      reached := e.reached ++ [(e.it, true)], called := e.called ++ [e.it], phase := .invoking }
    refine ⟨e', w.setTop (.emission e'), ?_, ?_, rfl, ?_⟩
    · unfold Emission.beginCall
      have hrep' : (deref (.fault .cursor) fun _ => sl.rep : M V Addr) w = (.ret r, w) :=
        deref_of_some (s := w) hrep
      rw [bind_of_ret hload, bind_of_ret hrep']
      rfl
    · refine ⟨hw.handle, hw.exists_handle, hw.impl, ?_, hw.element, hw.slot, hw.rep⟩
      have hidle := hw.idle
      rw [top] at hidle
      simpa [World.setTop, top, Frame.destroys] using hidle
    · rw [World.execs_setTop top, World.execs_top top]
      rfl

/-- The slot runs: client code is in control again. -/
theorem handler (hw : Emittable w h i n r) (q : Addr) :
    Emittable ((w.record (.invoked q)).push (.handler q)) h i n r :=
  ⟨hw.handle, hw.exists_handle, hw.impl, hw.idle, hw.element, hw.slot, hw.rep⟩

/-- Client code that emits the signal `k` times is in the end `k` emissions deeper. -/
theorem nest [Inhabited V] (k : Nat) : ∀ {w : World V} {b : Bool}, Emittable w h i n r →
    w.script = List.replicate k (.emit h .void) →
      ∃ w', dispatch (2 * k + 1) (.client b) w = (.halt .stop, w') ∧
        w'.execs i = w.execs i + k ∧ ∃ self, w'.impls i = some self := by
  -- on the emissions still to come: the handler of each one goes on with the rest of the script
  induction k with
  | zero =>
    intro w b hw hscript
    obtain ⟨self, himpl, -⟩ := hw.impl
    refine ⟨w, ?_, rfl, self, himpl⟩
    change clientCode _ b w = _
    unfold clientCode nextCmd
    refine bind_of_halt ?_
    rw [read_bind_run, hscript]
    rfl
  | succ k ih =>
    intro w b hw hscript
    have hw₁ := hw.withScript (List.replicate k (.emit h .void))
    obtain ⟨e, w₂, hstart, hw₂, hit, hne, hscript₂, hexecs₂, htop⟩ := hw₁.start
    obtain ⟨hcallable, e₃, w₃, hbegin, hw₃, hscript₃, hexecs₃⟩ := hw₂.beginCall htop hit
    obtain ⟨w', hrun, hexecs, himpl⟩ := ih (b := false) (hw₃.handler r)
      (hscript₃.trans hscript₂)
    refine ⟨w', ?_, ?_, himpl⟩
    · -- every function on the way up passes on that the program has stopped
      have hhandler : dispatch (2 * k + 2) (.handler r) w₃ = (.halt .stop, w') := by
        change (Prog.modify _ >>= fun _ => onExit _ _) w₃ = _
        rw [modify_bind_run]
        exact onExit_of_halt hrun
      have hloop : SignalEmit.voidLoop { call := dispatch (2 * k + 2), fuel := 2 * k + 2 }
          (2 * k + 2) e w₂ = (.halt .stop, w') := by
        unfold SignalEmit.voidLoop
        rw [if_neg hne, bind_of_ret hcallable, if_pos rfl]
        refine bind_of_halt ?_
        unfold Emission.invoke
        rw [bind_of_ret hbegin]
        exact bind_of_halt hhandler
      obtain ⟨self, hself, hhead⟩ := hw₁.impl
      have hemit : SignalEmit.emitVoid { call := dispatch (2 * k + 2), fuel := 2 * k + 2 } (some i)
          { w with script := List.replicate k (.emit h .void) } = (.halt .stop, w') := by
        unfold SignalEmit.emitVoid
        dsimp only
        rw [bind_of_ret (SignalImpl.loadSlots_eq_ret.mpr ⟨self, hself, rfl, hw₁.idle, rfl⟩), if_neg]
        · refine onExit_of_halt ?_
          rw [bind_of_ret hstart]
          exact hloop
        · intro hnil
          rw [hnil] at hhead
          cases hhead
      change clientCode { call := dispatch (2 * k + 2), fuel := 2 * k + 2 } b w = _
      unfold clientCode
      have hnext : nextCmd w =
          (.ret (.emit h .void), { w with script := List.replicate k (.emit h .void) }) := by
        unfold nextCmd
        rw [read_bind_run, hscript, List.replicate_succ]
        dsimp only
        rw [read_bind_run, if_pos]
        · rfl
        · exact hw.exists_handle
      rw [bind_of_ret hnext]
      refine bind_of_halt (recover_of_halt ?_)
      unfold exec
      dsimp only
      rw [read_bind_run, hw₁.handle]
      exact hemit
    · have hexecs₁ : ({ w with script := List.replicate k (.emit h .void) } : World V).execs i =
          w.execs i := rfl
      have hexecs₄ : ((w₃.record (.invoked r)).push (.handler r)).execs i = w₃.execs i :=
        World.execs_push _ _
      omega

end Emittable

/-- Client code executes a command of the script. -/
theorem dispatch_command [Inhabited V] {c : Cmd V} {cs : List (Cmd V)} {m : Nat} {b : Bool}
    (script : w.script = c :: cs) (wellFormed : c.wellFormed w = true)
    (resumes : (∀ v, c ≠ .ret v) ∧ ∀ e, c ≠ .throw e)
    (hexec : exec { call := dispatch m, fuel := m } c { w with script := cs } = (.ret (), w')) :
    dispatch (m + 1) (.client b) w = dispatch m (.client b) w' := by
  change clientCode _ b w = _
  unfold clientCode
  have hnext : nextCmd w = (.ret c, { w with script := cs }) := by
    unfold nextCmd
    rw [read_bind_run, script]
    dsimp only
    rw [read_bind_run, if_pos wellFormed]
    rfl
  rw [bind_of_ret hnext]
  have hrecover : recover (exec { call := dispatch m, fuel := m } c) (fun _ => pure ())
      { w with script := cs } = (.ret (), w') := by
    unfold recover
    rw [hexec]
  cases c with
  | ret v => exact absurd rfl (resumes.1 v)
  | throw e => exact absurd rfl (resumes.2 e)
  | _ => exact bind_of_ret hrecover

/-- The client owns a signal without slots, and a slot that does nothing. -/
def nestWorld (cs : List (Cmd V)) : World V :=
  { next := 3
    handles := [(0, none)]
    trackables := Function.update (fun _ => none) 1 (some {})
    reps := Function.update (fun _ => none) 1 (some { call := true, functor := some [] })
    slots := Function.update (fun _ => none) (.object 2) (some { rep := some 1, owner := .client })
    script := cs }

/-- The slot has been connected. -/
theorem nestWorld_connect [Inhabited V] (call : Call → M V V) (m : Nat) (cs : List (Cmd V)) :
    ∃ w : World V, exec { call, fuel := m + 1 } (.connect 0 (.object 2) false false)
      (nestWorld cs) = (.ret (), w) ∧ Emittable w 0 3 (.object 5) 4 ∧ w.script = cs ∧
        w.execs 3 = 0 :=
  ⟨_, rfl, ⟨rfl, rfl, ⟨_, rfl, rfl⟩, rfl, by simp, ⟨_, rfl, rfl, rfl⟩, ⟨_, rfl, rfl⟩⟩, rfl, rfl⟩

/-- A signal with one slot, and `k` emissions, each in the slot that the one before has invoked. -/
def nestScript (k : Nat) : List (Cmd V) :=
  .newSignal :: .makeSlot [] :: .connect 0 (.object 2) false false :: List.replicate k (.emit 0 .void)

/-- Any number of emissions of one signal can be active at the same time. -/
theorem reachable_nest [Inhabited V] (k : Nat) :
    ∃ (w : World V) (self : SignalImpl), Reachable w ∧ w.execs 3 = k ∧ w.impls 3 = some self := by
  obtain ⟨w₀, hexec, hw₀, hscript, hexecs⟩ := nestWorld_connect (V := V) (dispatch (2 * k + 1)) (2 * k)
    (List.replicate k (.emit 0 .void))
  have hrun : run (2 * k + 4) (nestScript k) = dispatch (2 * k + 1) (.client false) w₀ := by
    have h₁ : exec { call := dispatch (2 * k + 3), fuel := 2 * k + 3 } .newSignal
        ({ script := (nestScript k).tail } : World V) =
          (.ret (), { next := 1, handles := [(0, none)], script := (nestScript k).tail }) := rfl
    have h₂ : exec { call := dispatch (2 * k + 2), fuel := 2 * k + 2 } (.makeSlot [])
        ({ next := 1, handles := [(0, none)], script := (nestScript k).tail.tail } : World V) =
          (.ret (), nestWorld (nestScript k).tail.tail) := rfl
    exact (dispatch_command rfl rfl (by simp) h₁).trans
      ((dispatch_command rfl rfl (by simp) h₂).trans (dispatch_command rfl rfl (by simp) hexec))
  obtain ⟨w, hstop, hexecs', self, himpl⟩ := hw₀.nest k (b := false) hscript
  refine ⟨w, self, ⟨_, _, _, hrun.trans hstop, fun h hh => ?_⟩, by omega, himpl⟩
  cases hh
  rfl

/-- For any number of nested emissions, inside of the innermost one. -/
theorem Reachable.countsNesting_iff_lt [Inhabited V] {n : Nat} (h : Reachable w)
    (impl : w.impls i = some self) (nest : w.execs i = n) (hn : 1 ≤ n) :
    CountsNesting w i self n ↔ n < 2 ^ 15 := by
  obtain ⟨script, hs, -⟩ := h.steps
  have hc := Steps.counted hs (.initial script) (.initial script)
  exact countsNesting_iff hc impl nest hn

/-- Inside of three emissions. -/
theorem countsNesting_three : ∃ (w : World Unit) (impl : SignalImpl), w.execs 3 = 3 ∧
    (CountsNesting w 3 impl 3 ↔ 3 < 2 ^ 15) := by
  obtain ⟨w, impl, hw, hexecs, himpl⟩ := reachable_nest (V := Unit) 3
  exact ⟨w, impl, hexecs, hw.countsNesting_iff_lt himpl hexecs (by decide)⟩

/-- Inside of `2 ^ 15` emissions the execution count is negative. -/
theorem nest_overflows : ∃ (w : World Unit) (impl : SignalImpl), Reachable w ∧
    w.impls 3 = some impl ∧ w.execs 3 = 2 ^ 15 ∧ impl.execCount.toInt < 0 ∧
      ¬CountsNesting w 3 impl (2 ^ 15) := by
  obtain ⟨w, impl, hw, hexecs, himpl⟩ := reachable_nest (V := Unit) (2 ^ 15)
  obtain ⟨script, hs, -⟩ := hw.steps
  have hc := Steps.counted hs (.initial script) (.initial script)
  refine ⟨w, impl, hw, himpl, hexecs, ?_, fun h => ?_⟩
  · rw [hc.count 3 impl himpl, hexecs]
    decide
  · exact absurd ((countsNesting_iff hc himpl hexecs (by decide)).mp h) (by decide)

end Sigc
