import Sigc.Guarantees
import Sigc.Stack

/-!
# The records of the elements

`add_notification_to_iter()` allocates a `self_and_iter` for each element of a list, and
`notify_self_and_iter_of_invalidated_slot()` deletes it.  Each record stays the parent of its
element until then, so that none is lost, and none is deleted twice.
-/

namespace Sigc

open Reasoning Prog

variable {V : Type} {w w' v : World V} {i d : Addr} {n : SlotAddr} {self : SignalImpl}
  {f g : Frame V} {below : List (Frame V)}

/-- The record that a frame is going to delete. -/
def Frame.cleans : Frame V → Option Addr
  | .cleanup d => some d
  | _ => none

namespace World

/-- The records whose deletion is under way. -/
def cleanups (w : World V) : List Addr := w.frames.filterMap Frame.cleans

theorem mem_cleanups : d ∈ w.cleanups ↔ .cleanup d ∈ w.frames := by
  unfold cleanups
  rw [List.mem_filterMap]
  constructor
  · rintro ⟨f, hf, hd⟩
    cases f with
    | cleanup k => exact Option.some.inj hd ▸ hf
    | _ => cases hd
  · intro hf
    exact ⟨_, hf, rfl⟩

theorem cleanups_of_frames (frames : w'.frames = w.frames) : w'.cleanups = w.cleanups := by
  rw [cleanups, frames, cleanups]

theorem cleanups_push (frames : w'.frames = f :: w.frames) (hf : f.cleans = none) :
    w'.cleanups = w.cleanups := by
  rw [cleanups, frames, List.filterMap_cons_none hf, cleanups]

theorem cleanups_pop (top : w.frames = f :: below) (hf : f.cleans = none)
    (frames : w'.frames = below) : w'.cleanups = w.cleanups := by
  rw [cleanups, frames, cleanups, top, List.filterMap_cons_none hf]

theorem cleanups_setTop (top : w.frames = f :: below) (hf : f.cleans = none)
    (frames : w'.frames = g :: w.frames.tail) (hg : g.cleans = none) :
    w'.cleanups = w.cleanups := by
  rw [cleanups, frames, List.filterMap_cons_none hg, cleanups, top, List.tail_cons,
    List.filterMap_cons_none hf]

end World

/-- What a step does to the records. -/
inductive RecordStep (w w' : World V) : Prop where
  | quiet (records : w'.records = w.records) (cleanups : w'.cleanups = w.cleanups)
  /-- a new element has got its parent -/
  | connect {d : Addr} {si : SelfAndIter} {r : Addr} {rep : SlotRep}
      (records : w'.records = Function.update w.records d (some si))
      (cleanups : w'.cleanups = w.cleanups) (entry : w'.Entry si.self si.iter r)
      (alive : w'.reps r = some rep) (child : rep.ChildOf d)
  /-- an element has been disconnected, and its record is deleted at once -/
  | delete {d : Addr} {si : SelfAndIter} {r : Addr} {rep : SlotRep} (alive : w.reps r = some rep)
      (child : rep.ChildOf d) (record : w.records d = some si)
      (records : w'.records = Function.update w.records d none)
      (cleanups : w'.cleanups = w.cleanups)
  /-- or it is deleted after the element has been erased -/
  | begin {d : Addr} {si : SelfAndIter} {r : Addr} {rep : SlotRep} (alive : w.reps r = some rep)
      (child : rep.ChildOf d) (record : w.records d = some si) (records : w'.records = w.records)
      (cleanups : w'.cleanups = d :: w.cleanups)
  | finish {d : Addr} (records : w'.records = Function.update w.records d none)
      (cleanups : w.cleanups = d :: w'.cleanups)

namespace RecordStep

theorem of_frames (records : w'.records = w.records) (frames : w'.frames = w.frames) :
    RecordStep w w' :=
  .quiet records (World.cleanups_of_frames frames)

theorem push (records : w'.records = w.records) (frames : w'.frames = f :: w.frames)
    (hf : f.cleans = none) : RecordStep w w' :=
  .quiet records (World.cleanups_push frames hf)

theorem pop (records : w'.records = w.records) (top : w.frames = f :: below)
    (hf : f.cleans = none) (frames : w'.frames = w.frames.tail) : RecordStep w w' :=
  .quiet records (World.cleanups_pop top hf (frames.trans (congrArg List.tail top)))

theorem setTop (records : w'.records = w.records) (top : w.frames = f :: below)
    (hf : f.cleans = none) (frames : w'.frames = g :: w.frames.tail) (hg : g.cleans = none) :
    RecordStep w w' :=
  .quiet records (World.cleanups_setTop top hf frames hg)

end RecordStep

theorem TrackableStep.recordStep (h : TrackableStep w w') : RecordStep w w' := by
  cases h with
  | beginNotify alive list idle reason calm => exact .push rfl rfl rfl
  | skip top alive list element inactive => exact .setTop rfl top rfl rfl rfl
  | notifyWeak top alive list element func weak => exact .setTop rfl top rfl rfl rfl
  | endNotify top alive list done => exact .pop rfl top rfl rfl
  | _ => exact .of_frames rfl rfl

theorem WeakStep.recordStep (h : WeakStep w w') : RecordStep w w' := by
  cases h with
  | refer s => exact .of_frames rfl rfl
  | construct user source run =>
    obtain ⟨-, tks, ign, rfl, -⟩ := WeakRawPtr.construct_effect run
    exact .of_frames rfl rfl
  | assign user connection run =>
    obtain ⟨mid, tks, ign, self, from_, -, -, rfl, -⟩ := WeakRawPtr.assign_effect run
    exact .of_frames rfl rfl
  | destroy user connection run =>
    obtain ⟨tks, self, -, rfl, -⟩ := WeakRawPtr.destroy_effect run
    exact .of_frames rfl rfl

/-- Before `slot_rep::disconnect()`, `v` is `w` but for what does not concern the records. -/
theorem Sever.recordStep {r : Addr} (h : Sever r v w') (records : v.records = w.records)
    (cleanups : v.cleanups = w.cleanups)
    (reps : ∀ rep, v.reps r = some rep → ∃ rep₀, w.reps r = some rep₀ ∧
      rep₀.parent = rep.parent ∧ rep₀.cleanup = rep.cleanup) : RecordStep w w' := by
  have hchild {rep : SlotRep} {d : Addr} (alive : v.reps r = some rep)
      (parent : rep.parent = some d)
      (cleanup : rep.cleanup = some .notifySelfAndIterOfInvalidatedSlot) :
      ∃ rep₀, w.reps r = some rep₀ ∧ rep₀.ChildOf d := by
    obtain ⟨rep₀, alive₀, hparent, hcleanup⟩ := reps rep alive
    exact ⟨rep₀, alive₀, hparent.trans parent, hcleanup.trans cleanup⟩
  cases h with
  | none alive parent => exact .quiet records cleanups
  | rep alive parent cleanup calm => exact .quiet records cleanups
  | @expired rep d si alive parent cleanup record expired =>
    obtain ⟨rep₀, alive₀, child⟩ := hchild alive parent cleanup
    refine .delete alive₀ child (records ▸ record) ?_ cleanups
    show Function.update v.records d _ = _
    rw [records]
  | @defer rep d si self alive parent cleanup record owned impl executing =>
    obtain ⟨rep₀, alive₀, child⟩ := hchild alive parent cleanup
    refine .delete alive₀ child (records ▸ record) ?_ cleanups
    show Function.update v.records d _ = _
    rw [records]
  | erase alive parent cleanup record owned impl idle element slot calm =>
    obtain ⟨rep₀, alive₀, child⟩ := hchild alive parent cleanup
    exact .begin alive₀ child (records ▸ record) records (congrArg _ cleanups)

theorem SlotStep.recordStep (h : SlotStep w w') : RecordStep w w' := by
  cases h with
  | construct unlisted functor run =>
    obtain ⟨-, rfl, rfl⟩ | ⟨f, tks, ign, rps, -, -, rfl, rfl⟩ := SlotBase.construct_effect run <;>
      exact .of_frames rfl rfl
  | take unlisted source told run =>
    obtain ⟨sl, -, rfl, rfl⟩ := SlotBase.takeRep_effect run
    exact .of_frames rfl rfl
  | sever h => exact h.recordStep rfl rfl fun rep hrep => ⟨rep, hrep, rfl, rfl⟩
  | @startInvalidation w₁ w' r rep x calm alive run sever =>
    obtain ⟨-, tks, ign, rfl, -⟩ := WeakRawPtr.construct_effect run
    refine sever.recordStep rfl (World.cleanups_push (f := .invalidating r x) rfl rfl)
      fun rep' hrep' => ⟨rep, alive, ?_⟩
    obtain rfl := Option.some.inj ((Function.update_self r _ w.reps).symm.trans hrep')
    exact ⟨rfl, rfl⟩
  | detach top run =>
    obtain ⟨rep, tks, rps, -, -, rfl, -⟩ := SlotRep.detachFunctor_effect run
    exact .of_frames rfl rfl
  | endInvalidation top weak gutted run =>
    obtain ⟨tks, self, -, rfl, -⟩ := WeakRawPtr.destroy_effect run
    exact .pop rfl top rfl rfl
  | endCallback top weak gutted run alive list element =>
    obtain ⟨tks, self, -, rfl, -⟩ := WeakRawPtr.destroy_effect run
    refine .quiet rfl ?_
    unfold World.cleanups World.setTop World.pop
    rw [top]
    rfl
  | beginDelete calm alive idle slot rep unlisted run =>
    obtain ⟨rep', tks, rps, -, -, rfl, -⟩ := SlotRep.detachFunctor_effect run
    exact .push rfl rfl rfl
  | endDelete top alive notified => exact .pop rfl top rfl rfl
  | startCheck calm alive rep unlisted run =>
    obtain ⟨-, tks, ign, rfl, -⟩ := WeakRawPtr.construct_effect run
    exact .push rfl rfl rfl
  | endCheck top run =>
    obtain ⟨tks, self, -, rfl, -⟩ := WeakRawPtr.destroy_effect run
    exact .pop rfl top rfl rfl
  | cloneFor calm unlisted functor run =>
    obtain ⟨rfl, tks, ign, rps, sl, w₂, hcons, alive, hpass, rfl⟩ := SlotBase.cloneFor_effect run
    obtain ⟨-, rfl⟩ | ⟨_, _, _, -, -, -, rfl⟩ := SlotBase.passParent_effect hpass <;>
      exact .push rfl rfl rfl
  | moveFor calm unlisted source told run =>
    obtain ⟨from_, sl, w₂, -, -, -, hpass, rfl⟩ := SlotBase.moveFor_effect run
    obtain ⟨-, rfl⟩ | ⟨_, _, _, -, -, -, rfl⟩ := SlotBase.passParent_effect hpass <;>
      exact .push rfl rfl rfl
  | finishAssign top alive intact unlisted => exact .pop rfl top rfl rfl
  | pushHandler calm alive call => exact .push rfl rfl rfl
  | popHandler top => exact .pop rfl top rfl rfl
  | pushFunctorDtor calm used functor gutted => exact .push rfl rfl rfl
  | nextTarget top => exact .setTop rfl top rfl rfl rfl
  | popFunctorDtor top => exact .pop rfl top rfl rfl
  | _ => exact .of_frames rfl rfl

/-- The element takes its place; before that, `v` has been `w` but for what the element holds. -/
theorem SignalImpl.Placed.recordStep {first : Bool} {sl : SlotBase} {j : Addr}
    (h : SignalImpl.Placed v j first n sl w')
    (records : v.records = w.records) (frames : v.frames = w.frames) : RecordStep w w' := by
  obtain ⟨-, self, q, y, nx, tks, himpl, -, -, rfl⟩ := h
  have hrecords : (v.placed j self first n sl q y nx tks).records =
      Function.update w.records v.next (some { self := j, iter := n }) := by
    show Function.update v.records v.next _ = _
    rw [records]
  have hentry : (v.placed j self first n sl q y nx tks).Entry j n q := by
    refine ⟨⟨_, Function.update_self _ _ _, ?_⟩, _, Function.update_self _ _ _, rfl⟩
    show n ∈ if first then n :: self.slots else self.slots ++ [n]
    cases first <;> simp
  exact .connect hrecords (World.cleanups_of_frames frames) hentry
    (Function.update_self _ _ _) ⟨rfl, rfl⟩

theorem World.letGo_recordStep {old : Option Addr} (run : SignalBase.letGo old v = (.ret old, w'))
    (records : v.records = w.records) (frames : v.frames = w.frames) : RecordStep w w' := by
  obtain ⟨-, rfl⟩ := SignalBase.letGo_effect run
  cases old with
  | none => exact .of_frames records frames
  | some j =>
    refine .push (f := .releasing j) ?_ ((World.letGo_frames v j).trans (congrArg _ frames)) rfl
    rw [← records]
    show (v.letGo j).records = _
    unfold World.letGo
    split <;> rfl

theorem SignalStep.recordStep (h : SignalStep w w') : RecordStep w w' := by
  have hsweep {v v' : World V} {j : Addr} {it : Option SlotAddr}
      (run : SignalImpl.enterSweep j v = (.ret it, v')) (records : v.records = w.records)
      (cleanups : v.cleanups = w.cleanups) : RecordStep w v' := by
    obtain ⟨self, -, -, rfl⟩ := SignalImpl.enterSweep_effect run
    exact .quiet records (Eq.trans (World.cleanups_push (f := .sweep j _ none) rfl rfl) cleanups)
  have hholder {f : Frame V} {j : Addr}
      (holder : f = .sweep j none none ∨ ∃ n, f = .erase j n ∧ w.slots n = none) :
      f.cleans = none := by
    rcases holder with rfl | ⟨n, rfl, -⟩ <;> rfl
  cases h with
  | insertBuilt user owned functor run =>
    obtain ⟨w₁, rep?, hcons, -, hp⟩ := SignalImpl.insertBuilt_effect run
    obtain ⟨-, rfl, rfl⟩ | ⟨f, tks, ign, rps, -, -, rfl, rfl⟩ := SlotBase.construct_effect hcons
    · exact hp.recordStep rfl rfl
    · exact hp.recordStep rfl rfl
  | insertTaken user owned source told run =>
    obtain ⟨w₁, sl, htake, -, -, hp⟩ := SignalImpl.insertTaken_effect run
    obtain ⟨sl', -, rfl, rfl⟩ := SlotBase.takeRep_effect htake
    exact hp.recordStep rfl rfl
  | impl run =>
    obtain ⟨-, rfl⟩ | ⟨-, -, rfl⟩ := SignalBase.impl_effect run <;> exact .of_frames rfl rfl
  | copyConstruct handle run =>
    obtain ⟨j, w₁, hrun, -, rfl⟩ := SignalBase.copyConstruct_effect run
    obtain ⟨-, rfl⟩ | ⟨-, -, rfl⟩ := SignalBase.impl_effect hrun <;> exact .of_frames rfl rfl
  | moveConstruct run =>
    obtain ⟨-, rfl⟩ := SignalBase.moveConstruct_effect run
    exact .of_frames rfl rfl
  | replaceImpl calm owned run =>
    obtain ⟨-, hgo⟩ := SignalBase.replaceImpl_effect run
    exact World.letGo_recordStep hgo rfl rfl
  | dropHandle calm run =>
    obtain ⟨-, hgo⟩ := SignalBase.dropHandle_effect run
    exact World.letGo_recordStep hgo rfl rfl
  | endRelease top done => exact .pop rfl top rfl rfl
  | endCleanup top =>
    refine .finish rfl ?_
    unfold World.cleanups
    rw [top]
    show _ = _ :: (w.frames.tail).filterMap _
    rw [top]
    rfl
  | enterClear calm run =>
    obtain ⟨self, himpl, rfl, rfl, rfl, -, rfl⟩ := SignalImpl.enterClear_effect run
    exact .push rfl rfl rfl
  | clearNext top impl next severed => exact .setTop rfl top rfl rfl rfl
  | clearErase top impl slots alive => exact .setTop rfl top rfl rfl rfl
  | clearErased top gone => exact .setTop rfl top rfl rfl rfl
  | leaveClear top impl cleared quiet => exact .pop rfl top rfl rfl
  | leaveClearSweep top impl cleared sweeps owned run =>
    exact hsweep run rfl (World.cleanups_pop top rfl (congrArg List.tail top))
  | sweepSkip top impl next keep => exact .setTop rfl top rfl rfl rfl
  | sweepErase top impl next element empty alive => exact .setTop rfl top rfl rfl rfl
  | sweepErased top gone => exact .setTop rfl top rfl rfl rfl
  | leaveHolder top holder impl quiet => exact .setTop rfl top (hholder holder) rfl rfl
  | leaveHolderSweep top holder impl sweeps run =>
    exact hsweep run rfl (World.cleanups_setTop top (hholder holder) rfl rfl)
  | startRelease top => exact .setTop rfl top rfl rfl rfl
  | _ => exact .of_frames rfl rfl

theorem EmissionStep.recordStep (h : EmissionStep w w') : RecordStep w w' := by
  cases h with
  | start calm owned run =>
    obtain ⟨self, himpl, -, rfl, rfl⟩ := Emission.start_effect run
    exact .push rfl rfl rfl
  | skip top inside arrived slot uncallable impl next => exact .setTop rfl top rfl rfl rfl
  | beginCall top inside arrived callable => exact .setTop rfl top rfl rfl rfl
  | endCall v top invoking => exact .setTop rfl top rfl rfl rfl
  | advance top invoked impl next => exact .setTop rfl top rfl rfl rfl
  | finish top ends impl element quiet => exact .setTop rfl top rfl rfl rfl
  | finishSweep top ends impl element sweeps run =>
    obtain ⟨x, -, -, rfl⟩ := SignalImpl.enterSweep_effect run
    exact .quiet rfl (Eq.trans (World.cleanups_push (f := .sweep _ _ none) rfl rfl)
      (World.cleanups_setTop top rfl rfl rfl))

theorem Step.recordStep (h : Step w w') : RecordStep w w' := by
  cases h with
  | command script wellFormed => exact .of_frames rfl rfl
  | trackable h => exact h.recordStep
  | weak h => exact h.recordStep
  | slot h => exact h.recordStep
  | signal h => exact h.recordStep
  | emission h => exact h.recordStep

namespace World

/-- No record is deleted twice. -/
structure Recorded (w : World V) : Prop where
  once : w.cleanups.Nodup
  alive : ∀ d ∈ w.cleanups, w.records d ≠ none

/-- A record that is not being deleted is the parent of its element. -/
def Accounted (w : World V) (i : Addr) : Prop :=
  ∀ d si, w.records d = some si → si.self = i → d ∉ w.cleanups →
    ∃ r rep, w.Entry i si.iter r ∧ w.reps r = some rep ∧ rep.ChildOf d

/-- The parent of a rep is not being deleted. -/
theorem Linked.not_cleaned (hl : w.Linked) {r : Addr} {rep : SlotRep} (alive : w.reps r = some rep)
    (child : rep.ChildOf d) : d ∉ w.cleanups := by
  intro hd
  have hlink : some (.cleaning d) ∈ w.links :=
    List.mem_map.mpr ⟨_, mem_cleanups.mp hd, rfl⟩
  exact hl.cleaning d hlink r rep alive child

theorem Recorded.step (h : w.Recorded) (hstep : RecordStep w w') (hl : w.Linked) :
    w'.Recorded := by
  cases hstep with
  | quiet records cleanups =>
    constructor
    · rw [cleanups]
      exact h.once
    · rw [cleanups, records]
      exact h.alive
  | connect records cleanups entry alive child =>
    constructor
    · rw [cleanups]
      exact h.once
    · intro k hk
      rw [cleanups] at hk
      rw [records, Function.update_apply]
      split
      · exact Option.some_ne_none _
      · exact h.alive k hk
  | @delete k si r rep alive child record records cleanups =>
    constructor
    · rw [cleanups]
      exact h.once
    · intro d hd
      rw [cleanups] at hd
      -- The record that goes is a parent still, so it is not one of those being deleted.
      have hne : d ≠ k := fun heq => hl.not_cleaned alive child (heq ▸ hd)
      rw [records, Function.update_of_ne hne]
      exact h.alive d hd
  | @begin k si r rep alive child record records cleanups =>
    constructor
    · rw [cleanups]
      exact List.nodup_cons.mpr ⟨hl.not_cleaned alive child, h.once⟩
    · intro d hd
      rw [cleanups] at hd
      rw [records]
      rcases List.mem_cons.mp hd with rfl | hd
      · rw [record]
        exact Option.some_ne_none si
      · exact h.alive d hd
  | @finish k records cleanups =>
    -- The innermost deletion ends; the records of the others are different ones.
    have hnodup := h.once
    rw [cleanups] at hnodup
    obtain ⟨hk, hnodup⟩ := List.nodup_cons.mp hnodup
    refine ⟨hnodup, fun d hd => ?_⟩
    have hne : d ≠ k := fun heq => hk (heq ▸ hd)
    rw [records, Function.update_of_ne hne]
    exact h.alive d (cleanups ▸ List.mem_cons_of_mem k hd)

end World

/-- A record has been there before, or it has just been allocated for an element. -/
theorem RecordStep.before (h : RecordStep w w') {si : SelfAndIter} (record : w'.records d = some si) :
    (w.records d = some si ∧ (d ∈ w.cleanups → d ∈ w'.cleanups)) ∨
      ∃ r rep, w'.Entry si.self si.iter r ∧ w'.reps r = some rep ∧ rep.ChildOf d := by
  cases h with
  | quiet records cleanups => exact .inl ⟨records ▸ record, fun hd => cleanups ▸ hd⟩
  | connect records cleanups entry alive child =>
    rw [records] at record
    obtain ⟨rfl, heq⟩ | ⟨-, hold⟩ := update_eq_some.mp record
    · obtain rfl := Option.some.inj heq
      exact .inr ⟨_, _, entry, alive, child⟩
    · exact .inl ⟨hold, fun hd => cleanups ▸ hd⟩
  | delete alive child record' records cleanups =>
    rw [records] at record
    obtain ⟨-, heq⟩ | ⟨-, hold⟩ := update_eq_some.mp record
    · cases heq
    · exact .inl ⟨hold, fun hd => cleanups ▸ hd⟩
  | begin alive child record' records cleanups =>
    exact .inl ⟨records ▸ record, fun hd => cleanups ▸ List.mem_cons_of_mem _ hd⟩
  | finish records cleanups =>
    rw [records] at record
    obtain ⟨-, heq⟩ | ⟨hne, hold⟩ := update_eq_some.mp record
    · cases heq
    · refine .inl ⟨hold, fun hd => ?_⟩
      rw [cleanups] at hd
      exact (List.mem_cons.mp hd).resolve_left hne

/-- An element that can be called stays in the list, unless it is disconnected. -/
theorem World.Tracked.entry_step (ht : w.Tracked i) (ht' : w'.Tracked i) (log : w.log <:+ w'.log)
    {r : Addr} {rep : SlotRep} (entry : w.Entry i n r) (alive : w.reps r = some rep)
    (call : rep.call = true) (connected : .disconnected r ∉ w'.log) : ∃ n', w'.Entry i n' r := by
  obtain ⟨self, impl, hn⟩ := entry.listed
  obtain ⟨sl, hsl, hr⟩ := entry.slot
  have hmem : r ∈ w.callables i := by
    rw [World.callables, impl]
    have hlive : w.live n = some r := World.live_eq_some.mpr ⟨sl, rep, hsl, hr, alive, call⟩
    exact List.mem_filterMap.mpr ⟨n, hn, hlive⟩
  have hmem' : r ∈ w'.callables i :=
    (ht.sublist_callables ht' log).subset (List.mem_filter.mpr ⟨hmem, by simpa using connected⟩)
  unfold World.callables at hmem'
  obtain ⟨n', hn', hlive⟩ := List.mem_filterMap.mp hmem'
  obtain ⟨sl', rep', hsl', hr', -⟩ := World.live_eq_some.mp hlive
  cases impl' : w'.impls i with
  | none =>
    rw [impl'] at hn'
    cases hn'
  | some self' =>
    rw [impl'] at hn'
    exact ⟨n', ⟨self', impl', hn'⟩, sl', hsl', hr'⟩

theorem World.Accounted.step (h : w.Accounted i) (ht : w.Tracked i) (ht' : w'.Tracked i)
    (hstep : Step w w') (nonEmpty : ∀ r first, .connected i r first false ∉ w.log) :
    w'.Accounted i := by
  intro d si record hself hd'
  have log : w.log <:+ w'.log := (Steps.proceeds (.single hstep) ht.sound).extension.log
  rcases hstep.recordStep.before record with ⟨hold, hcleaned⟩ | ⟨r, rep, entry, alive, child⟩
  · obtain ⟨r, rep, entry, alive, child⟩ := h d si hold hself fun hd => hd' (hcleaned hd)
    -- no element has been connected empty, so that this one can be called
    have hcall : rep.call = true := by
      by_contra hc
      rw [Bool.not_eq_true] at hc
      rcases ht.origins _ r rep entry alive hc with hnone | ⟨first, hm⟩
      · rw [child.1] at hnone
        cases hnone
      · exact nonEmpty _ first hm
    have hsilent {f : Frame V} (hf : f ∈ w.frames) (hs : f.silences = some r) : False := by
      have hoff := ht.discipline.silences f hf r hs rep alive
      rw [hcall] at hoff
      cases hoff
    cases (hstep.entryStep ht.sound).rep i _ r rep entry alive with
    | same hsame =>
      have hconnected : .disconnected r ∉ w'.log := by
        intro hm
        have hoff := (ht'.told r hm).2 rep hsame
        rw [hcall] at hoff
        cases hoff
      obtain ⟨n', entry'⟩ := ht.entry_step ht' log entry alive hcall hconnected
      obtain ⟨si', sl, hrecord, hsl, hr, -⟩ := ht'.sound.linked.child r rep d hsame child
      obtain rfl := Option.some.inj (record.symm.trans hrecord)
      obtain ⟨rfl, -⟩ := entry'.holder ht'.sound.linked hsl hr
      exact ⟨r, rep, entry', hsame, child⟩
    | deleted frame hnone => exact (hsilent frame rfl).elim
    | detached frame hrep' hparent hoff => exact (hsilent frame rfl).elim
    | severed hrep' hparent hoff log awaits told =>
      rcases told d child with hnone | hcleanup
      · rw [record] at hnone
        cases hnone
      · exact absurd (World.mem_cleanups.mpr hcleanup) hd'
  · exact ⟨r, rep, hself ▸ entry, alive, child⟩

section Guarantees

variable {script : List (Cmd V)}

/-- At every point of every run, a record that a list has allocated is either the parent of its
element or being deleted, and none is deleted twice. -/
theorem Steps.records_accounted (h : Steps ({ script } : World V) w) (hs : w.Shallow i)
    (nonEmpty : ∀ r first, .connected i r first false ∉ w.log) :
    w.cleanups.Nodup ∧ (∀ d ∈ w.cleanups, w.records d ≠ none) ∧
      ∀ d n, (w.records d = some { self := i, iter := n } ∧ d ∉ w.cleanups) ↔
        ∃ r rep, w.Entry i n r ∧ w.reps r = some rep ∧ rep.ChildOf d := by
  let P (v : World V) : Prop :=
    v.Recorded ∧ ((∀ r first, .connected i r first false ∉ v.log) → v.Accounted i)
  have hstart : P { script } :=
    ⟨⟨List.nodup_nil, fun d hd => by cases hd⟩, fun _ d si record => by cases record⟩
  obtain ⟨ht, hrecorded, haccounted⟩ := h.tracked_induction (.initial script i) hs (P := P) hstart
    fun v v' ht bound _ hstep ⟨hrecorded, haccounted⟩ => by
      have hlog := (Steps.single hstep).log_suffix ht.sound
      refine ⟨hrecorded.step hstep.recordStep ht.sound.linked, fun nonEmpty => ?_⟩
      have hbefore r first : .connected i r first false ∉ v.log :=
        fun hm => nonEmpty r first (hlog.subset hm)
      exact (haccounted hbefore).step ht (ht.step hstep bound) hstep hbefore
  have hl := ht.sound.linked
  refine ⟨hrecorded.once, hrecorded.alive, fun d n => ⟨?_, ?_⟩⟩
  · rintro ⟨record, hd⟩
    exact haccounted nonEmpty d _ record rfl hd
  · rintro ⟨r, rep, entry, alive, child⟩
    obtain ⟨si, sl, record, hsl, hr, howner⟩ := hl.child r rep d alive child
    obtain ⟨hiter, howner', -⟩ := entry.holder hl hsl hr
    rw [howner] at howner'
    refine ⟨?_, hl.not_cleaned alive child⟩
    rw [record, ← hiter, ← Owner.list.inj howner']

/-- The record of the slot that has been disconnected is gone, the other ones are parents. -/
theorem records_accounted_afterEmission : afterEmission.records 6 = none ∧
    ∃ r rep, afterEmission.Entry 3 (.object 13) r ∧ afterEmission.reps r = some rep ∧
      rep.ChildOf 14 := by
  obtain ⟨script, h, -⟩ := afterEmission_steps
  have hlog : afterEmission.log = [.connected 3 (some 12) false true, .notified 4 [],
      .disconnected 4, .invoked 8, .started 3 1 1, .connected 3 (some 8) true true,
      .connected 3 (some 4) false true] := by decide +kernel
  have nonEmpty r first : .connected 3 r first false ∉ afterEmission.log := by
    rw [hlog]
    simp
  obtain ⟨-, -, hmatch⟩ := h.records_accounted (by decide +kernel) nonEmpty
  exact ⟨by decide +kernel, (hmatch 14 (.object 13)).mp (by decide +kernel)⟩

end Guarantees

end Sigc
