import Sigc.Traversal
import Sigc.Watching

/-!
# What the log says about a list

A signal is a register of slots: `connect()` enters a slot at one of the ends, and a disconnection
removes it.  The list of a signal is more than that: a disconnected slot may stay in it for a while,
an emission keeps its placeholder in it, and elements are erased in the middle of a traversal.  As
seen through the slots that can be called, it is the register nevertheless.
-/

namespace Sigc

open Reasoning Prog

variable {V : Type} {w w' v : World V} {i r : Addr} {n : SlotAddr} {self self' : SignalImpl}

/-! ## Events -/

/-- Does this event neither connect nor disconnect a slot? -/
def Event.neutral : Event → Bool
  | .connected .. | .disconnected _ => false
  | _ => true

/-- What a step writes to the log. -/
inductive LogStep (w w' : World V) : Prop where
  | quiet (log : w'.log = w.log)
  | other {ev : Event} (neutral : ev.neutral = true)
      (calls : ∀ r, ev = .invoked r → ∃ rep, w.reps r = some rep ∧ rep.call = true)
      (notice : ∀ t deps, ev = .notified t deps → callbacksOf w'.trackables t = {})
      (moves : ∀ r, ev = .moved r true → w.frames.any (Frame.invalidates r) = true)
      (log : w'.log = ev :: w.log)
  | disconnected {r rep} (alive : w.reps r = some rep)
      (log : w'.log = .disconnected r :: w.log ∨
        w'.log = .disconnected r :: .disconnected r :: w.log)
      (call : ∀ rep', w'.reps r = some rep' → rep'.call = false)
  | connected {i self a sl r rep} (first : Bool) (impl : w.impls i = some self)
      (sets : w.Sets w' i { self with
        slots := if first then .object a :: self.slots else self.slots ++ [.object a] })
      (slot : w'.slots (.object a) = some sl) (holds : sl.rep = some r)
      (alive : w'.reps r = some rep)
      (log : w'.log = .connected i (some r) first rep.call :: w.log)

theorem Sever.alive (h : Sever r w w') : ∃ rep, w.reps r = some rep := by
  cases h with
  | none alive parent => exact ⟨_, alive⟩
  | rep alive parent cleanup calm => exact ⟨_, alive⟩
  | expired alive parent cleanup record expired => exact ⟨_, alive⟩
  | defer alive parent cleanup record owned impl executing => exact ⟨_, alive⟩
  | erase alive parent cleanup record owned impl idle element slot calm => exact ⟨_, alive⟩

theorem Sever.logStep {rep : SlotRep} (h : Sever r v w') (alive : w.reps r = some rep)
    (log : v.log = w.log ∨ v.log = .disconnected r :: w.log) : LogStep w w' := by
  have hlog : w'.log = .disconnected r :: v.log := by
    cases h <;> rfl
  refine .disconnected alive ?_ fun rep' hrep' => h.not_call hrep'
  rcases log with heq | heq
  · exact .inl (by rw [hlog, heq])
  · exact .inr (by rw [hlog, heq])

theorem TrackableStep.logStep (h : TrackableStep w w') : LogStep w w' := by
  cases h with
  | notifyNone alive list =>
    refine .other rfl (by simp) (fun t deps heq => ?_) (by simp) rfl
    rw [← (Event.notified.inj heq).1]
    exact callbacksOf_of_list_none alive list
  | endNotify top alive list done =>
    refine .other rfl (by simp) (fun t deps heq => ?_) (by simp) rfl
    rw [← (Event.notified.inj heq).1]
    exact callbacksOf_of_list_none (Function.update_self _ _ _) rfl
  | _ => exact .quiet rfl

theorem WeakStep.logStep (h : WeakStep w w') : LogStep w w' := by
  cases h with
  | refer s => exact .other rfl (by simp) (by simp) (by simp) rfl
  | construct user source run =>
    obtain ⟨-, tks, ign, rfl, -⟩ := WeakRawPtr.construct_effect run
    exact .quiet rfl
  | assign user connection run =>
    obtain ⟨mid, tks, ign, self, from_, -, -, rfl, -⟩ := WeakRawPtr.assign_effect run
    exact .quiet rfl
  | destroy user connection run =>
    obtain ⟨tks, self, -, rfl, -⟩ := WeakRawPtr.destroy_effect run
    exact .quiet rfl

theorem SlotStep.logStep (h : SlotStep w w') : LogStep w w' := by
  cases h with
  | construct unlisted functor run =>
    obtain ⟨-, rfl, rfl⟩ | ⟨f, tks, ign, rps, -, -, rfl, rfl⟩ := SlotBase.construct_effect run <;>
      exact .quiet rfl
  | move r =>
    refine .other rfl (by simp) (by simp) (fun q heq => ?_) rfl
    obtain ⟨rfl, hany⟩ := Event.moved.inj heq
    exact hany
  | take unlisted source told run =>
    obtain ⟨sl, -, rfl, rfl⟩ := SlotBase.takeRep_effect run
    exact .quiet rfl
  | sever h =>
    obtain ⟨rep, alive⟩ := h.alive
    exact h.logStep alive (.inl rfl)
  | startInvalidation calm alive run sever =>
    obtain ⟨-, tks, ign, rfl, -⟩ := WeakRawPtr.construct_effect run
    exact sever.logStep alive (.inr rfl)
  | detach top run =>
    obtain ⟨rep, tks, rps, -, -, rfl, -⟩ := SlotRep.detachFunctor_effect run
    exact .quiet rfl
  | endInvalidation top weak gutted run =>
    obtain ⟨tks, self, -, rfl, -⟩ := WeakRawPtr.destroy_effect run
    exact .quiet rfl
  | endCallback top weak gutted run alive list element =>
    obtain ⟨tks, self, -, rfl, -⟩ := WeakRawPtr.destroy_effect run
    exact .quiet rfl
  | beginDelete calm alive idle slot rep unlisted run =>
    obtain ⟨rep', tks, rps, -, -, rfl, -⟩ := SlotRep.detachFunctor_effect run
    exact .quiet rfl
  | startCheck calm alive rep unlisted run =>
    obtain ⟨-, tks, ign, rfl, -⟩ := WeakRawPtr.construct_effect run
    exact .quiet rfl
  | clearRep top alive intact unlisted => exact .other rfl (by simp) (by simp) (by simp) rfl
  | endCheck top run =>
    obtain ⟨tks, self, -, rfl, -⟩ := WeakRawPtr.destroy_effect run
    exact .quiet rfl
  | cloneFor calm unlisted functor run =>
    obtain ⟨rfl, tks, ign, rps, sl, w₂, hcons, alive, hpass, rfl⟩ := SlotBase.cloneFor_effect run
    obtain ⟨-, rfl⟩ | ⟨_, _, _, -, -, -, rfl⟩ := SlotBase.passParent_effect hpass <;>
      exact .quiet rfl
  | moveFor calm unlisted source told run =>
    obtain ⟨from_, sl, w₂, -, -, -, hpass, rfl⟩ := SlotBase.moveFor_effect run
    obtain ⟨-, rfl⟩ | ⟨_, _, _, -, -, -, rfl⟩ := SlotBase.passParent_effect hpass <;>
      exact .quiet rfl
  | finishAssign top alive intact unlisted => exact .other rfl (by simp) (by simp) (by simp) rfl
  | pushHandler calm alive call =>
    refine .other rfl (fun q heq => ?_) (by simp) (by simp) rfl
    rw [← Event.invoked.inj heq]
    exact ⟨_, alive, call⟩
  | _ => exact .quiet rfl

/-- The element takes its place; before that, `v` has been `w` but for what the element holds. -/
theorem SignalImpl.Placed.logStep {a : Addr} {first : Bool} {sl : SlotBase} {j : Addr}
    (h : SignalImpl.Placed v j first (.object a) sl w') (impls : v.impls = w.impls)
    (log : v.log = w.log) : LogStep w w' := by
  obtain ⟨-, self, q, y, nx, tks, himpl, -, -, rfl⟩ := h
  refine .connected first (impls ▸ himpl) ?_ (Function.update_self _ _ _) rfl
    (Function.update_self _ _ _) ?_
  · show Function.update v.impls j _ = _
    rw [impls]
  · show _ :: v.log = _
    rw [log]

theorem World.letGo_logStep {old : Option Addr} (run : SignalBase.letGo old v = (.ret old, w'))
    (log : v.log = w.log) : LogStep w w' := by
  obtain ⟨-, rfl⟩ := SignalBase.letGo_effect run
  cases old with
  | none => exact .quiet log
  | some i =>
    show LogStep w (v.letGo i)
    unfold World.letGo
    split
    · exact .quiet log
    · have hlog : ((v.record (.expired i (v.frames.any (Frame.execOn i)))).push
          (.releasing i)).log = .expired i (v.frames.any (Frame.execOn i)) :: w.log := by
        rw [← log]
        rfl
      exact .other rfl (by simp) (by simp) (by simp) hlog

theorem SignalStep.logStep (h : SignalStep w w') : LogStep w w' := by
  have hsweep {v v' : World V} {j : Addr} {it : Option SlotAddr}
      (run : SignalImpl.enterSweep j v = (.ret it, v')) (log : v.log = w.log) : LogStep w v' := by
    obtain ⟨self, -, -, rfl⟩ := SignalImpl.enterSweep_effect run
    exact .quiet log
  cases h with
  | insertBuilt user owned functor run =>
    obtain ⟨w₁, rep?, hcons, -, hp⟩ := SignalImpl.insertBuilt_effect run
    obtain ⟨-, rfl, rfl⟩ | ⟨f, tks, ign, rps, -, -, rfl, rfl⟩ := SlotBase.construct_effect hcons <;>
      exact hp.logStep rfl rfl
  | insertTaken user owned source told run =>
    obtain ⟨w₁, sl, htake, -, -, hp⟩ := SignalImpl.insertTaken_effect run
    obtain ⟨sl', -, rfl, rfl⟩ := SlotBase.takeRep_effect htake
    exact hp.logStep rfl rfl
  | impl run =>
    obtain ⟨-, rfl⟩ | ⟨-, -, rfl⟩ := SignalBase.impl_effect run <;> exact .quiet rfl
  | copyConstruct handle run =>
    obtain ⟨j, w₁, hrun, -, rfl⟩ := SignalBase.copyConstruct_effect run
    obtain ⟨-, rfl⟩ | ⟨-, -, rfl⟩ := SignalBase.impl_effect hrun <;> exact .quiet rfl
  | moveConstruct run =>
    obtain ⟨-, rfl⟩ := SignalBase.moveConstruct_effect run
    exact .quiet rfl
  | replaceImpl calm owned run =>
    obtain ⟨-, hgo⟩ := SignalBase.replaceImpl_effect run
    exact World.letGo_logStep hgo rfl
  | dropHandle calm run =>
    obtain ⟨-, hgo⟩ := SignalBase.dropHandle_effect run
    exact World.letGo_logStep hgo rfl
  | enterClear calm run =>
    obtain ⟨self, himpl, rfl, rfl, rfl, -, rfl⟩ := SignalImpl.enterClear_effect run
    exact .quiet rfl
  | recordCleared top => exact .other rfl (by simp) (by simp) (by simp) rfl
  | leaveClearSweep top impl cleared sweeps owned run => exact hsweep run rfl
  | leaveHolderSweep top holder impl sweeps run => exact hsweep run rfl
  | _ => exact .quiet rfl

theorem EmissionStep.logStep (h : EmissionStep w w') : LogStep w w' := by
  cases h with
  | start calm owned run =>
    obtain ⟨self, himpl, -, rfl, rfl⟩ := Emission.start_effect run
    exact .other rfl (by simp) (by simp) (by simp) rfl
  | finishSweep top ends impl element sweeps run =>
    obtain ⟨x, -, -, rfl⟩ := SignalImpl.enterSweep_effect run
    exact .quiet rfl
  | _ => exact .quiet rfl

theorem Step.logStep (h : Step w w') : LogStep w w' := by
  cases h with
  | command script wellFormed => exact .quiet rfl
  | trackable h => exact h.logStep
  | weak h => exact h.logStep
  | slot h => exact h.logStep
  | signal h => exact h.logStep
  | emission h => exact h.logStep

end Sigc
