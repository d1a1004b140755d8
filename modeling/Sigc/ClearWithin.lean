import Sigc.Guarantees

/-!
# `clear()` within a function that runs on the list

Where a function runs on its list, `signal_impl::clear()` destroys nothing and runs no other code.
It disconnects the elements where they are, and leaves it to `sweep()` to remove them.
-/

namespace Sigc

open Reasoning Prog

variable {V : Type} {w v x : World V} {i : Addr} {n : SlotAddr} {self : SignalImpl}
  {l l' : List SlotAddr} {below : List (Frame V)}

namespace World

/-- The element `n` can be disconnected: its rep is alive, and the record that is its parent leads
back to the element. -/
def Ready (w : World V) (i : Addr) (n : SlotAddr) : Prop :=
  ∃ sl, w.slots n = some sl ∧ ∀ r, sl.rep = some r → ∃ rep, w.reps r = some rep ∧
    ∀ d, rep.parent = some d → rep.cleanup = some .notifySelfAndIterOfInvalidatedSlot ∧
      w.records d = some { self := i, iter := n }

/-- From `w` to `v` the elements in `l` of the list `i` have been disconnected where they are.
Their records have been deleted, and where there were any, a removal is pending; apart from the log
and the stack nothing else has changed. -/
structure Marks (w v : World V) (i : Addr) (l : List SlotAddr) : Prop where
  same : v = { w with impls := v.impls, reps := v.reps, records := v.records, log := v.log,
                      frames := v.frames }
  list : ∃ self deferred, w.impls i = some self ∧
    v.impls = Function.update w.impls i (some { self with deferred }) ∧
      (self.deferred = true → deferred = true) ∧
        ∀ n ∈ l, ∀ sl r rep, w.slots n = some sl → sl.rep = some r → w.reps r = some rep →
          rep.parent ≠ none → deferred = true
  rep : ∀ r, v.reps r = w.reps r ∨ ∃ n ∈ l, ∃ sl rep, w.slots n = some sl ∧ sl.rep = some r ∧
    w.reps r = some rep ∧ v.reps r = some { rep with call := false, parent := none }
  record : ∀ d, v.records d = w.records d ∨
    ∃ n ∈ l, w.records d = some { self := i, iter := n } ∧ v.records d = none
  /-- the record of each element, which is the parent of its rep, has been deleted -/
  deleted : ∀ n ∈ l, ∀ sl r rep d, w.slots n = some sl → sl.rep = some r → w.reps r = some rep →
    rep.parent = some d → v.records d = none
  marked : ∀ n ∈ l, v.Disconnected n

namespace Marks

theorem slots (h : w.Marks v i l) : v.slots = w.slots := by
  rw [h.same]

theorem handles (h : w.Marks v i l) : v.handles = w.handles := by
  rw [h.same]

theorem refl (impl : w.impls i = some self) : w.Marks w i [] where
  same := rfl
  list := by
    refine ⟨self, self.deferred, impl, ?_, id, fun _ h => by cases h⟩
    rw [← impl, Function.update_eq_self]
  rep := fun _ => .inl rfl
  record := fun _ => .inl rfl
  deleted := fun _ h => by cases h
  marked := fun _ h => by cases h

/-- The stack and the log do not matter. -/
theorem withTop (h : w.Marks v i l) (frames : List (Frame V)) (log : List Event) :
    w.Marks { v with frames, log } i l where
  same := by rw [h.same]
  list := h.list
  rep := h.rep
  record := h.record
  deleted := h.deleted
  marked := h.marked

theorem record_none (h : w.Marks v i l) {d : Addr} (hd : w.records d = none) :
    v.records d = none := by
  rcases h.record d with hsame | ⟨-, -, -, hgone⟩
  · exact hsame.trans hd
  · exact hgone

theorem trans (h : w.Marks v i l) (h' : v.Marks x i l') : w.Marks x i (l ++ l') where
  same := by
    rw [h'.same, h.same]
  list := by
    -- A removal that is pending stays so, and the second part adds its own.
    obtain ⟨self, deferred, impl, himpls, hkeep, hpending⟩ := h.list
    obtain ⟨self', deferred', impl', himpls', hkeep', hpending'⟩ := h'.list
    rw [himpls, Function.update_self] at impl'
    obtain rfl := Option.some.inj impl'
    refine ⟨self, deferred', impl, ?_, fun hd => hkeep' (hkeep hd), ?_⟩
    · rw [himpls', himpls, Function.update_idem]
    · intro n hn sl r rep hsl hr hrep hparent
      rcases List.mem_append.mp hn with hn | hn
      · exact hkeep' (hpending n hn sl r rep hsl hr hrep hparent)
      · rcases h.rep r with hsame | ⟨m, hm, y, rep₀, hy, hyr, hrep₀, -⟩
        · exact hpending' n hn sl r rep (h.slots ▸ hsl) hr (hsame.trans hrep) hparent
        · obtain rfl := Option.some.inj (hrep.symm.trans hrep₀)
          exact hkeep' (hpending m hm y r rep hy hyr hrep hparent)
  rep := by
    intro r
    -- A rep has been switched off in the first part, in the second, or in neither; twice is as
    -- once.
    rcases h'.rep r with hsame | ⟨n, hn, sl, rep, hsl, hr, hrep, hoff⟩
    · rcases h.rep r with hsame' | ⟨n, hn, hoff⟩
      · exact .inl (hsame.trans hsame')
      · exact .inr ⟨n, List.mem_append_left l' hn, hsame ▸ hoff⟩
    · have hn' : n ∈ l ++ l' := List.mem_append_right l hn
      rw [h.slots] at hsl
      rcases h.rep r with hsame' | ⟨m, hm, y, rep₀, hy, hyr, hrep₀, hoff₀⟩
      · exact .inr ⟨n, hn', sl, rep, hsl, hr, hsame' ▸ hrep, hoff⟩
      · rw [hoff₀] at hrep
        obtain rfl := Option.some.inj hrep
        exact .inr ⟨n, hn', sl, rep₀, hsl, hr, hrep₀, hoff⟩
  record := by
    intro d
    -- A record is deleted once: after the first part it is not there for the second.
    rcases h'.record d with hsame | ⟨n, hn, hrecord, hgone⟩
    · rcases h.record d with hsame' | ⟨n, hn, hrecord, hgone⟩
      · exact .inl (hsame.trans hsame')
      · exact .inr ⟨n, List.mem_append_left l' hn, hrecord, hsame.trans hgone⟩
    · rcases h.record d with hsame' | ⟨m, hm, -, hgone'⟩
      · exact .inr ⟨n, List.mem_append_right l hn, hsame' ▸ hrecord, hgone⟩
      · rw [hgone'] at hrecord
        cases hrecord
  deleted := by
    intro n hn sl r rep d hsl hr hrep hparent
    rcases List.mem_append.mp hn with hn | hn
    -- What the first part has deleted stays deleted.
    · exact h'.record_none (h.deleted n hn sl r rep d hsl hr hrep hparent)
    · rcases h.rep r with hsame | ⟨m, hm, y, rep₀, hy, hyr, hrep₀, -⟩
      · exact h'.deleted n hn sl r rep d (h.slots ▸ hsl) hr (hsame.trans hrep) hparent
      · obtain rfl := Option.some.inj (hrep.symm.trans hrep₀)
        exact h'.record_none (h.deleted m hm y r rep d hy hyr hrep hparent)
  marked := by
    intro n hn
    rcases List.mem_append.mp hn with hn | hn
    · intro sl j r rep hsl howner hr hrep
      rcases h'.rep r with hsame | ⟨-, -, -, rep₀, -, -, -, hoff⟩
      · exact h.marked n hn sl j r rep (h'.slots ▸ hsl) howner hr (hsame ▸ hrep)
      · rw [hoff] at hrep
        obtain rfl := Option.some.inj hrep
        rfl
    · exact h'.marked n hn

/-- The other elements can still be disconnected. -/
theorem ready (h : w.Marks v i l) {m : SlotAddr} (hm : m ∉ l) (ready : w.Ready i m)
    (unique : ∀ s s' sl sl' r, w.slots s = some sl → sl.rep = some r → w.slots s' = some sl' →
      sl'.rep = some r → s = s') : v.Ready i m := by
  obtain ⟨sl, hsl, hrep⟩ := ready
  refine ⟨sl, h.slots ▸ hsl, fun r hr => ?_⟩
  obtain ⟨rep, hreps, hparent⟩ := hrep r hr
  rcases h.rep r with hsame | ⟨n, hn, y, -, hy, hyr, -, -⟩
  · refine ⟨rep, hsame.trans hreps, fun d hd => ?_⟩
    obtain ⟨hcleanup, hrecord⟩ := hparent d hd
    refine ⟨hcleanup, ?_⟩
    rcases h.record d with hsame' | ⟨n, hn, hother, -⟩
    · exact hsame'.trans hrecord
    · rw [hrecord] at hother
      obtain rfl := congrArg SelfAndIter.iter (Option.some.inj hother)
      exact absurd hn hm
  · obtain rfl := unique m n sl y r hsl hr hy hyr
    exact absurd hn hm

end Marks

end World

/-! ## The first loop of `clear()` -/

/-- The rep of an element, whose parent is its record, is disconnected: the record is told, and
defers the removal. -/
theorem SlotRep.disconnect_within (u : Env V) {r d : Addr} {rep : SlotRep}
    (alive : w.reps r = some rep) (parent : rep.parent = some d)
    (cleanup : rep.cleanup = some .notifySelfAndIterOfInvalidatedSlot)
    (record : w.records d = some { self := i, iter := n }) (impl : w.impls i = some self)
    (busy : self.execCount ≠ 0) (owned : w.owned i = true) :
    SlotRep.disconnect u (SignalImpl.notifySelfAndIterOfInvalidatedSlot u) r w =
      (.ret (),
        ((w.sever r rep).setImpl i (some { self with deferred := true })).setRecord d none) := by
  have hload : loadRep r w = (.ret rep, w) := deref_eq_ret.mpr ⟨alive, rfl⟩
  unfold SlotRep.disconnect
  rw [bind_of_ret hload, parent]
  simp only
  have hsever : (w.setRep r (some { rep with call := false, parent := none })).record
      (.disconnected r) = w.sever r rep := rfl
  rw [modify_bind_run, hsever, cleanup]
  show SignalImpl.notifySelfAndIterOfInvalidatedSlot u d (w.sever r rep) = _
  have hrecord : loadRecord d (w.sever r rep) = (.ret { self := i, iter := n }, w.sever r rep) :=
    deref_eq_ret.mpr ⟨record, rfl⟩
  unfold SignalImpl.notifySelfAndIterOfInvalidatedSlot
  rw [bind_of_ret hrecord, modify_bind_run, read_bind_run]
  have howned : ((w.sever r rep).push (.cleanup d)).owned i = true := by
    rw [← owned]
    unfold World.owned
    simp [World.sever, World.push, World.record, World.setRep, Frame.owns]
  have hdefer : SignalImpl.eraseOrDefer u { self := i, iter := n }
      ((w.sever r rep).push (.cleanup d)) = (.ret (),
        ((w.sever r rep).push (.cleanup d)).setImpl i (some { self with deferred := true })) := by
    have himpl : loadImpl i ((w.sever r rep).push (.cleanup d)) =
        (.ret self, (w.sever r rep).push (.cleanup d)) := deref_eq_ret.mpr ⟨impl, rfl⟩
    unfold SignalImpl.eraseOrDefer
    rw [bind_of_ret himpl, if_neg busy]
    exact SignalImpl.setDeferred_eq_ret.mpr ⟨self, impl, rfl⟩
  rw [if_pos howned, bind_of_ret hdefer]
  rfl

theorem SlotBase.disconnect_within (u : Env V) (ready : w.Ready i n)
    (impl : w.impls i = some self) (busy : self.execCount ≠ 0) (owned : w.owned i = true) :
    ∃ v, SlotBase.disconnect u (SignalImpl.notifySelfAndIterOfInvalidatedSlot u) n w =
      (.ret (), v) ∧ v.frames = w.frames ∧ w.Marks v i [n] := by
  obtain ⟨sl, hsl, hrep⟩ := ready
  have hload : loadSlot n w = (.ret sl, w) := deref_eq_ret.mpr ⟨hsl, rfl⟩
  unfold SlotBase.disconnect
  rw [bind_of_ret hload]
  cases hr : sl.rep with
  | none =>
    refine ⟨w, rfl, rfl, ⟨rfl, ⟨self, self.deferred, impl, ?_, id, ?_⟩, fun _ => .inl rfl,
      fun _ => .inl rfl, ?_, ?_⟩⟩
    · rw [← impl, Function.update_eq_self]
    · intro m hm y r rep hy hyr
      obtain rfl := List.mem_singleton.mp hm
      rw [← Option.some.inj (hsl.symm.trans hy), hr] at hyr
      cases hyr
    · intro m hm y r rep d hy hyr
      obtain rfl := List.mem_singleton.mp hm
      rw [← Option.some.inj (hsl.symm.trans hy), hr] at hyr
      cases hyr
    · intro m hm y j r rep hy _ hyr
      obtain rfl := List.mem_singleton.mp hm
      rw [← Option.some.inj (hsl.symm.trans hy), hr] at hyr
      cases hyr
  | some r =>
    obtain ⟨rep, alive, hparent⟩ := hrep r hr
    -- the rep of the element is `r`
    have hone {m : SlotAddr} {y : SlotBase} {q : Addr} (hm : m ∈ [n]) (hy : w.slots m = some y)
        (hyq : y.rep = some q) : q = r := by
      obtain rfl := List.mem_singleton.mp hm
      rw [← Option.some.inj (hsl.symm.trans hy), hr] at hyq
      exact (Option.some.inj hyq).symm
    have hmarked {v : World V} (slots : v.slots = w.slots)
        (hv : v.reps r = some { rep with call := false, parent := none }) :
        ∀ m ∈ [n], v.Disconnected m := by
      intro m hm y j q rep' hy _ hyq hrep'
      obtain rfl := hone hm (slots ▸ hy) hyq
      rw [hv] at hrep'
      obtain rfl := Option.some.inj hrep'
      rfl
    have hreps (q : Addr) : Function.update w.reps r
        (some { rep with call := false, parent := none }) q = w.reps q ∨ ∃ m ∈ [n], ∃ y rep',
          w.slots m = some y ∧ y.rep = some q ∧ w.reps q = some rep' ∧
            Function.update w.reps r (some { rep with call := false, parent := none }) q =
              some { rep' with call := false, parent := none } := by
      by_cases heq : q = r
      · subst heq
        exact .inr ⟨n, List.mem_singleton_self n, sl, rep, hsl, hr, alive, Function.update_self _ _ _⟩
      · exact .inl (Function.update_of_ne heq _ _)
    cases parent : rep.parent with
    | none =>
      have hload : loadRep r w = (.ret rep, w) := deref_eq_ret.mpr ⟨alive, rfl⟩
      have hoff : { rep with call := false } = { rep with call := false, parent := none } := by
        rw [parent]
      refine ⟨(w.setRep r (some { rep with call := false })).record (.disconnected r), ?_, rfl, ?_⟩
      · show SlotRep.disconnect u _ r w = _
        unfold SlotRep.disconnect
        rw [bind_of_ret hload, parent]
        rfl
      · rw [hoff]
        refine ⟨rfl, ⟨self, self.deferred, impl, ?_, id, ?_⟩, hreps, fun _ => .inl rfl, ?_,
          hmarked rfl (Function.update_self _ _ _)⟩
        · rw [← impl, Function.update_eq_self]
          rfl
        · intro m hm y q rep' hy hyq hrep' hne
          obtain rfl := hone hm hy hyq
          rw [← Option.some.inj (alive.symm.trans hrep')] at hne
          exact absurd parent hne
        · intro m hm y q rep' d hy hyq hrep' hparent'
          obtain rfl := hone hm hy hyq
          rw [← Option.some.inj (alive.symm.trans hrep'), parent] at hparent'
          cases hparent'
    | some d =>
      obtain ⟨hcleanup, hrecord⟩ := hparent d parent
      refine ⟨_, SlotRep.disconnect_within u alive parent hcleanup hrecord impl busy owned, rfl,
        rfl, ⟨self, true, impl, rfl, fun _ => rfl, fun _ _ _ _ _ _ _ _ _ => rfl⟩, hreps, ?_, ?_,
        hmarked rfl (Function.update_self _ _ _)⟩
      · intro k
        by_cases heq : k = d
        · subst heq
          exact .inr ⟨n, List.mem_singleton_self n, hrecord, Function.update_self _ _ _⟩
        · exact .inl (Function.update_of_ne heq _ _)
      · intro m hm y q rep' k hy hyq hrep' hparent'
        obtain rfl := hone hm hy hyq
        rw [← Option.some.inj (alive.symm.trans hrep'), parent] at hparent'
        rw [← Option.some.inj hparent']
        exact Function.update_self _ _ _

namespace SignalImpl

/-- `before` is what the loop has passed. -/
theorem disconnectLoop_within (u : Env V) (saved : Bool) {fuel : Nat} {before rest : List SlotAddr}
    (enough : rest.length < fuel) (top : w.frames = .clear i rest.head? none true saved :: below)
    (idle : below.any (Frame.destroys i) = false) (impl : w.impls i = some self)
    (slots : self.slots = before ++ rest) (nodup : self.slots.Nodup) (busy : self.execCount ≠ 0)
    (owned : w.owned i = true) (ready : ∀ n ∈ rest, w.Ready i n)
    (unique : ∀ s s' sl sl' r, w.slots s = some sl → sl.rep = some r → w.slots s' = some sl' →
      sl'.rep = some r → s = s') :
    ∃ v, disconnectLoop u i true saved fuel rest.head? w = (.ret (), v) ∧
      v.frames = .clear i none none true saved :: below ∧ w.Marks v i rest := by
  -- on the elements ahead of the iterator; those that it has passed keep their places
  induction rest generalizing before fuel w self with
  | nil =>
    obtain ⟨m, rfl⟩ := Nat.exists_eq_add_one.mpr enough
    exact ⟨w, rfl, top, .refl impl⟩
  | cons n ns ih =>
    obtain ⟨m, rfl⟩ := Nat.exists_eq_add_one.mpr (Nat.zero_lt_of_lt enough)
    rw [slots] at nodup
    obtain ⟨hbefore, hns⟩ : n ∉ before ∧ n ∉ ns := by
      have happ := List.nodup_append.mp nodup
      exact ⟨fun hm => happ.2.2 n hm n List.mem_cons_self rfl, (List.nodup_cons.mp happ.2.1).1⟩
    obtain ⟨v, hrun, hframes, hmarks⟩ :=
      SlotBase.disconnect_within u (ready n List.mem_cons_self) impl busy owned
    obtain ⟨_, deferred, impl₀, himpls, -⟩ := hmarks.list
    obtain rfl := Option.some.inj (impl.symm.trans impl₀)
    have impl' : v.impls i = some { self with deferred } := by
      rw [himpls, Function.update_self]
    have hidle : v.frames.any (Frame.destroys i) = false := by
      rw [hframes, top]
      exact idle
    have hnext : next i n v = (.ret ns.head?, v) := by
      unfold next
      rw [bind_of_ret (loadSlots_eq_ret.mpr ⟨_, impl', rfl, hidle, rfl⟩)]
      refine deref_eq_ret.mpr ⟨?_, rfl⟩
      show following n self.slots = _
      rw [slots]
      exact following_split hbefore
    -- the iterator of the loop moves on
    have hmoved : w.Marks (v.setTop (.clear i ns.head? none true saved)) i [n] :=
      hmarks.withTop _ v.log
    have htop : (v.setTop (.clear i ns.head? none true saved)).frames =
        .clear i ns.head? none true saved :: below := by
      rw [World.setTop, hframes, top, List.tail_cons]
    have howned : (v.setTop (.clear i ns.head? none true saved)).owned i = true := by
      refine Eq.trans ?_ owned
      unfold World.owned
      rw [htop, top, hmoved.handles]
      simp [Frame.owns]
    have hslots := hmoved.slots
    have hsplit : self.slots = (before ++ [n]) ++ ns := by
      rw [List.append_assoc]
      exact slots
    obtain ⟨v', hrest, hframes', hmarks'⟩ := ih
      (Nat.lt_of_succ_lt_succ enough) htop impl' hsplit (slots ▸ nodup) busy howned
      (fun k hk => hmoved.ready (fun hm => hns (List.mem_singleton.mp hm ▸ hk))
        (ready k (List.mem_cons_of_mem n hk)) unique)
      (by rwa [hslots])
    refine ⟨v', ?_, hframes', hmoved.trans hmarks'⟩
    show disconnectLoop u i true saved (m + 1) (some n) w = _
    unfold disconnectLoop
    rw [bind_of_ret hrun, bind_of_ret hnext, modify_bind_run]
    exact hrest

/-- The whole of `clear()`: the execution count does not come down to zero. -/
theorem clear_within (u : Env V) (enough : self.slots.length < u.fuel)
    (impl : w.impls i = some self) (idle : w.frames.any (Frame.destroys i) = false)
    (nodup : self.slots.Nodup) (during : 0 < self.execCount.toInt)
    (next : self.execCount + 1 ≠ 0) (owned : w.owned i = true)
    (ready : ∀ n ∈ self.slots, w.Ready i n)
    (unique : ∀ s s' sl sl' r, w.slots s = some sl → sl.rep = some r → w.slots s' = some sl' →
      sl'.rep = some r → s = s') :
    ∃ v, clear u i w = (.ret (), v) ∧ v.frames = w.frames ∧ w.Marks v i self.slots := by
  have henter : enterClear i w = (.ret (true, self.deferred, self.slots.head?),
      (w.setImpl i (some { self with execCount := self.execCount + 1 })).push
        (.clear i self.slots.head? none true self.deferred)) := by
    have hload : loadImpl i w = (.ret self, w) := deref_eq_ret.mpr ⟨impl, rfl⟩
    have hslots : loadSlots i (w.setImpl i (some { self with execCount := self.execCount + 1 })) =
        (.ret self.slots, w.setImpl i (some { self with execCount := self.execCount + 1 })) :=
      loadSlots_eq_ret.mpr ⟨_, Function.update_self _ _ _, rfl, idle, rfl⟩
    unfold enterClear
    rw [bind_of_ret hload, bind_of_ret (referenceExec_eq_ret (a := ()).mpr ⟨self, impl, rfl⟩),
      bind_of_ret hslots, decide_eq_true during]
    rfl
  have howned : ((w.setImpl i (some { self with execCount := self.execCount + 1 })).push
      (.clear i self.slots.head? none true self.deferred)).owned i = true := by
    refine Eq.trans ?_ owned
    unfold World.owned
    simp [World.push, World.setImpl, Frame.owns]
  have himpl₀ : ((w.setImpl i (some { self with execCount := self.execCount + 1 })).push
      (.clear i self.slots.head? none true self.deferred)).impls i =
        some { self with execCount := self.execCount + 1 } := Function.update_self _ _ _
  obtain ⟨v, hrun, hframes, hmarks⟩ := disconnectLoop_within u self.deferred enough rfl idle himpl₀
    (List.nil_append self.slots).symm nodup next howned ready unique
  obtain ⟨self', deferred, impl', himpls, hkeep, hpending⟩ := hmarks.list
  obtain rfl := Option.some.inj (himpl₀.symm.trans impl')
  have himpl : (v.record (.cleared i)).impls i =
      some { self with execCount := self.execCount + 1, deferred } := by
    show v.impls i = _
    rw [himpls, Function.update_self]
  have hcount : self.execCount + 1 - 1 = self.execCount := BitVec.add_sub_cancel _ _
  have hbusy : self.execCount ≠ 0 := by
    intro hzero
    rw [hzero] at during
    cases during
  -- what is left when the holder has gone
  have hend : (v.record (.cleared i)).decrement i
      { self with execCount := self.execCount + 1, deferred } =
        (v.record (.cleared i)).setImpl i (some { self with deferred }) := by
    unfold World.decrement
    rw [hcount]
  have hmust : mustSweep i ((v.record (.cleared i)).setImpl i (some { self with deferred })).pop =
      (.ret false, ((v.record (.cleared i)).setImpl i (some { self with deferred })).pop) := by
    have hload : loadImpl i ((v.record (.cleared i)).setImpl i (some { self with deferred })).pop =
        (.ret { self with deferred },
          ((v.record (.cleared i)).setImpl i (some { self with deferred })).pop) :=
      deref_eq_ret.mpr ⟨Function.update_self _ _ _, rfl⟩
    unfold mustSweep
    rw [bind_of_ret hload, decide_eq_false hbusy]
    rfl
  refine ⟨((v.record (.cleared i)).setImpl i (some { self with deferred })).pop, ?_, ?_, ?_⟩
  · unfold clear
    rw [bind_of_ret henter]
    show (disconnectLoop u i true self.deferred u.fuel self.slots.head? >>= _) _ = _
    have hdecrement := decrementExec_eq_ret (a := ()).mpr ⟨_, himpl, rfl⟩
    rw [hend] at hdecrement
    rw [bind_of_ret hrun, modify_bind_run, if_pos rfl, pure_bind_run, bind_of_ret hdecrement,
      modify_bind_run, bind_of_ret hmust]
    rfl
  · show v.frames.tail = w.frames
    rw [hframes]
    rfl
  · refine ⟨?_, ⟨self, deferred, impl, ?_, hkeep, hpending⟩, hmarks.rep, hmarks.record,
      hmarks.deleted, hmarks.marked⟩
    · rw [hmarks.same]
      rfl
    · show Function.update v.impls i _ = _
      rw [himpls]
      show Function.update (Function.update (Function.update w.impls i _) i _) i _ = _
      rw [Function.update_idem, Function.update_idem]

end SignalImpl

/-! ## In every run -/

/-- An element whose rep is alive can be disconnected. -/
theorem World.Linked.ready (hl : w.Linked) (impl : w.impls i = some self) (hn : n ∈ self.slots)
    (alive : ∀ r, w.Entry i n r → w.reps r ≠ none) : w.Ready i n := by
  obtain ⟨sl, hsl, howner, -⟩ := hl.element i self n impl hn
  refine ⟨sl, hsl, fun r hr => ?_⟩
  have entry : w.Entry i n r := ⟨⟨self, impl, hn⟩, sl, hsl, hr⟩
  obtain ⟨rep, hrep⟩ := Option.ne_none_iff_exists'.mp (alive r entry)
  refine ⟨rep, hrep, fun d hd => ?_⟩
  have hcleanup := hl.parent n sl i r rep hsl howner hr hrep (by simp [hd])
  obtain ⟨si, y, hrecord, hy, hyr, hyo⟩ := hl.child r rep d hrep ⟨hd, hcleanup⟩
  obtain ⟨hiter, howner', -⟩ := entry.holder hl hy hyr
  rw [hyo] at howner'
  refine ⟨hcleanup, ?_⟩
  rw [hrecord, ← hiter, ← Owner.list.inj howner']

/-- Called while a function runs on the list, `clear()` returns without any other code having run.
Then each element has been disconnected, and none has been removed or destroyed: functors, flags
and positions are as before. -/
theorem Steps.clear_disconnects {script : List (Cmd V)} (h : Steps ({ script } : World V) w)
    (hs : w.Shallow i) {k : Addr} (handle : w.implOf k = some i) (impl : w.impls i = some self)
    (busy : w.execs i ≠ 0) (idle : w.frames.any (Frame.destroys i) = false)
    (alive : ∀ n r, w.Entry i n r → w.reps r ≠ none) (u : Env V)
    (enough : self.slots.length < u.fuel) :
    ∃ v, SignalBase.clear u k w = (.ret (), v) ∧ v.frames = w.frames ∧
      w.Marks v i self.slots := by
  have ht := h.tracked_initial hs
  have hl := ht.sound.linked
  have hcount := ht.discipline.counted.count i self impl
  have hbound : w.execs i < 2 ^ 15 := ht.fits hs self impl
  have during : 0 < self.execCount.toInt := by
    rw [hcount, toInt_ofNat_pos_iff]
    omega
  have next : self.execCount + 1 ≠ 0 := by
    rw [hcount, ← BitVec16.ofNat_succ]
    intro hzero
    have hmod := congrArg BitVec.toNat hzero
    rw [BitVec.toNat_ofNat] at hmod
    simp at hmod
    omega
  unfold SignalBase.clear
  rw [read_bind_run, handle]
  exact SignalImpl.clear_within u enough impl idle (hl.nodup i self impl) during next
    (World.owned_of_implOf handle) (fun n hn => hl.ready impl hn (alive n)) hl.unique

/-- `clear()` is called by the first slot of an emission. -/
theorem clear_disconnects_emission : ∃ v, SignalBase.clear fewCalls 0 duringEmission = (.ret (), v) ∧
    v.frames = duringEmission.frames ∧
      duringEmission.Marks v 3 [.object 9, .object 5, .placeholder 0] := by
  obtain ⟨script, h⟩ := duringEmission_steps
  have impl : duringEmission.impls 3 = some
      { slots := [.object 9, .object 5, .placeholder 0], execCount := 1, deferred := true } := by
    decide +kernel
  refine h.clear_disconnects (by decide +kernel) (k := 0) (by decide +kernel) impl (by decide +kernel)
    (by decide +kernel) (fun n r entry => ?_) fewCalls (by decide)
  have hreps : ∀ m ∈ [SlotAddr.object 9, .object 5, .placeholder 0],
      ((duringEmission.slots m).bind (·.rep)).all
        (fun q => (duringEmission.reps q).isSome) = true := by
    decide +kernel
  obtain ⟨self, himpl, hn⟩ := entry.listed
  obtain ⟨sl, hsl, hr⟩ := entry.slot
  rw [impl] at himpl
  obtain rfl := Option.some.inj himpl
  have hsome := hreps n hn
  rw [hsl, Option.bind_some, hr, Option.all_some] at hsome
  exact Option.isSome_iff_ne_none.mp hsome

end Sigc
