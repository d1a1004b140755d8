import Sigc.Sweeping

/-!
# The loop of `clear()`

While `clear()` disconnects the slots of a list, no other code runs: its frame is on top of the
stack, unless it is destroying an element.
-/

namespace Sigc

open Reasoning Prog

variable {V : Type} {w w' v : World V} {i : Addr} {self self' : SignalImpl}

/-- Is this frame a `clear()` of `i` that is destroying no element? -/
def Frame.clears (i : Addr) : Frame V → Bool
  | .clear j _ none _ _ => j = i
  | _ => false

theorem Frame.clears_execOn {f : Frame V} (h : f.clears i = true) : f.execOn i = true := by
  unfold Frame.clears at h
  split at h
  · exact h
  · cases h

namespace World

/-- No `clear()` of `i` is suspended, except in the middle of an element's destruction. -/
def OnTop (w : World V) (i : Addr) : Prop := ∀ f ∈ w.frames.tail, f.clears i = false

/-- No `clear()` of `i` is on top of the stack, but for an element's destruction. -/
def Free (w : World V) (i : Addr) : Prop := ∀ f, w.frames.head? = some f → f.clears i = false

theorem Calm.free (h : w.Calm) : w.Free i := by
  intro f hf
  unfold Calm at h
  rw [hf] at h
  cases f with
  | clear j it er during saved =>
    cases er with
    | none => cases h
    | some s => rfl
  | _ => rfl

theorem UserPoint.free (h : w.UserPoint) : w.Free i := by
  intro f hf
  rcases h with hnil | ⟨r, below, htop⟩ | ⟨r, rest, below, htop⟩
  · rw [hnil] at hf
    cases hf
  · rw [htop] at hf
    rw [← Option.some.inj hf]
    rfl
  · rw [htop] at hf
    rw [← Option.some.inj hf]
    rfl

theorem CallsBack.free {r : Addr} (h : w.CallsBack r) : w.Free i := by
  obtain ⟨t, pos, deps, below, tr, l, top, -⟩ := h
  intro f hf
  rw [top] at hf
  rw [← Option.some.inj hf]
  rfl

/-- Where a function may be called, no `clear()` of the list is going on. -/
theorem OnTop.all (h : w.OnTop i) (free : w.Free i) : ∀ f ∈ w.frames, f.clears i = false := by
  intro f hf
  cases hframes : w.frames with
  | nil =>
    rw [hframes] at hf
    cases hf
  | cons g rest =>
    rw [hframes] at hf
    rcases List.mem_cons.mp hf with rfl | hm
    · exact free _ (by rw [hframes, List.head?_cons])
    · exact h f (by rw [hframes]; exact hm)

/-- A function that is the innermost one of all is the innermost one on its list. -/
theorem OnTop.head_users (ho : w.OnTop i) {f g : Frame V} {rest : List (Frame V)}
    (users : w.users i = g :: rest) (hf : f ∈ w.users i) (hclears : f.clears i = true) : f = g := by
  obtain ⟨hm, hexec⟩ := List.mem_filter.mp hf
  cases hframes : w.frames with
  | nil =>
    rw [hframes] at hm
    cases hm
  | cons h t =>
    rw [hframes] at hm
    rcases List.mem_cons.mp hm with rfl | ht
    · rw [users_on hframes hexec] at users
      exact (List.cons.inj users).1
    · have hnot := ho f (by rw [hframes]; exact ht)
      rw [hclears] at hnot
      cases hnot

theorem OnTop.of_tail (h : w.OnTop i) (frames : w'.frames.tail = w.frames.tail) : w'.OnTop i := by
  intro f hf
  exact h f (frames ▸ hf)

theorem OnTop.of_frames (h : w.OnTop i) (frames : w'.frames = w.frames) : w'.OnTop i :=
  h.of_tail (by rw [frames])

theorem OnTop.push (h : w.OnTop i) (free : w.Free i) (g : Frame V) : (w.push g).OnTop i :=
  h.all free

theorem OnTop.pop (h : w.OnTop i) : w.pop.OnTop i := fun f hf => h f (List.mem_of_mem_tail hf)

theorem OnTop.setTop (h : w.OnTop i) (g : Frame V) : (w.setTop g).OnTop i := h

end World

theorem TrackableStep.onTop (h : TrackableStep w w') (ho : w.OnTop i) : w'.OnTop i := by
  cases h with
  | beginNotify alive list idle reason calm => exact World.OnTop.push (w := w) ho calm.free _
  | skip top alive list element inactive => exact ho.setTop _
  | notifyWeak top alive list element func weak => exact World.OnTop.setTop (w := w) ho _
  | endNotify top alive list done => exact World.OnTop.pop (w := w) ho
  | _ => exact ho

theorem WeakStep.onTop (h : WeakStep w w') (ho : w.OnTop i) : w'.OnTop i := by
  cases h with
  | refer s => exact ho
  | construct user source run =>
    obtain ⟨-, tks, ign, rfl, -⟩ := WeakRawPtr.construct_effect run
    exact ho
  | assign user connection run =>
    obtain ⟨mid, tks, ign, self, from_, -, -, rfl, -⟩ := WeakRawPtr.assign_effect run
    exact ho
  | destroy user connection run =>
    obtain ⟨tks, self, -, rfl, -⟩ := WeakRawPtr.destroy_effect run
    exact ho

/-- A disconnection erases an element only where no `clear()` of the list runs. -/
theorem Sever.onTop {q : Addr} (h : Sever q w w') (ho : w.OnTop i)
    (idle : ∀ self, w.impls i = some self → self.execCount = 0 → w.users i = []) : w'.OnTop i := by
  cases h with
  | @erase rep d si self sl alive parent cleanup record owned impl hidle element slot calm =>
    have hall : ∀ f ∈ w.frames, f.clears i = false := by
      rcases calm with hcalm | ⟨during, saved, below, top⟩
      · exact ho.all hcalm.free
      · intro f hf
        by_contra hclears
        rw [Bool.not_eq_false] at hclears
        -- the function would hold the execution count
        by_cases heq : si.self = i
        · subst heq
          have hm : f ∈ w.users si.self :=
            List.mem_filter.mpr ⟨hf, Frame.clears_execOn hclears⟩
          rw [idle self impl hidle] at hm
          cases hm
        · rw [top] at hf
          rcases List.mem_cons.mp hf with rfl | hm
          · exact heq (of_decide_eq_true hclears)
          · have := ho f (by rw [top]; exact hm)
            rw [hclears] at this
            cases this
    intro f hf
    rcases List.mem_cons.mp hf with rfl | hm
    · rfl
    · exact hall f hm
  | _ => exact ho

theorem SlotStep.onTop (h : SlotStep w w') (ho : w.OnTop i)
    (idle : ∀ self, w.impls i = some self → self.execCount = 0 → w.users i = []) : w'.OnTop i := by
  cases h with
  | construct unlisted functor run =>
    obtain ⟨-, rfl, rfl⟩ | ⟨f, tks, ign, rps, -, -, rfl, rfl⟩ := SlotBase.construct_effect run <;>
      exact ho
  | take unlisted source told run =>
    obtain ⟨sl, -, rfl, rfl⟩ := SlotBase.takeRep_effect run
    exact ho
  | sever h => exact h.onTop ho idle
  | @startInvalidation w₁ w' r rep x calm alive run sever =>
    obtain ⟨-, tks, ign, rfl, -⟩ := WeakRawPtr.construct_effect run
    refine sever.onTop (World.OnTop.push (ho.of_frames rfl) ?_ _) fun self impl hidle => ?_
    · rcases calm with hcalm | hback
      · exact hcalm.free
      · exact hback.free
    · rw [← idle self impl hidle]
      exact World.users_off (f := .invalidating r x) rfl rfl
  | detach top run =>
    obtain ⟨rep, tks, rps, -, -, rfl, -⟩ := SlotRep.detachFunctor_effect run
    exact ho
  | endInvalidation top weak gutted run =>
    obtain ⟨tks, self, -, rfl, -⟩ := WeakRawPtr.destroy_effect run
    exact World.OnTop.pop (w := w) ho
  | endCallback top weak gutted run alive list element =>
    obtain ⟨tks, self, -, rfl, -⟩ := WeakRawPtr.destroy_effect run
    exact World.OnTop.setTop (World.OnTop.pop (w := w) ho) _
  | beginDelete calm alive idle' slot rep unlisted run =>
    obtain ⟨rep', tks, rps, -, -, rfl, -⟩ := SlotRep.detachFunctor_effect run
    exact World.OnTop.push (w := w) ho calm.free _
  | endDelete top alive notified => exact World.OnTop.pop (w := w) ho
  | startCheck calm alive rep unlisted run =>
    obtain ⟨-, tks, ign, rfl, -⟩ := WeakRawPtr.construct_effect run
    exact World.OnTop.push (w := w) ho calm.free _
  | endCheck top run =>
    obtain ⟨tks, self, -, rfl, -⟩ := WeakRawPtr.destroy_effect run
    exact World.OnTop.pop (w := w) ho
  | cloneFor calm unlisted functor run =>
    obtain ⟨rfl, tks, ign, rps, sl, w₂, hcons, alive, hpass, rfl⟩ := SlotBase.cloneFor_effect run
    obtain ⟨-, rfl⟩ | ⟨_, _, _, -, -, -, rfl⟩ := SlotBase.passParent_effect hpass <;>
      exact World.OnTop.push (w := w) ho calm.free _
  | moveFor calm unlisted source told run =>
    obtain ⟨from_, sl, w₂, -, -, -, hpass, rfl⟩ := SlotBase.moveFor_effect run
    obtain ⟨-, rfl⟩ | ⟨_, _, _, -, -, -, rfl⟩ := SlotBase.passParent_effect hpass <;>
      exact World.OnTop.push (w := w) ho calm.free _
  | finishAssign top alive intact unlisted => exact World.OnTop.pop (w := w) ho
  | pushHandler calm alive call => exact World.OnTop.push (w := w) ho calm.free _
  | popHandler top => exact ho.pop
  | pushFunctorDtor calm used functor gutted => exact ho.push calm.free _
  | nextTarget top => exact ho.setTop _
  | popFunctorDtor top => exact ho.pop
  | _ => exact ho

theorem World.letGo_onTop {old : Option Addr} (run : SignalBase.letGo old v = (.ret old, w'))
    (frames : v.frames = w.frames) (ho : w.OnTop i) (free : w.Free i) : w'.OnTop i := by
  obtain ⟨-, rfl⟩ := SignalBase.letGo_effect run
  cases old with
  | none => exact ho.of_frames frames
  | some j =>
    have hall := ho.all free
    rw [← frames] at hall
    intro f hf
    refine hall f ?_
    change f ∈ (v.letGo j).frames.tail at hf
    unfold World.letGo at hf
    split at hf <;> exact hf

theorem SignalStep.onTop (h : SignalStep w w') (ho : w.OnTop i) : w'.OnTop i := by
  have hinsert {v v' : World V} {j : Addr} {first : Bool} {n : SlotAddr} {sl : SlotBase}
      (hp : SignalImpl.Placed v j first n sl v') (frames : v.frames = w.frames) : v'.OnTop i := by
    obtain ⟨-, self, r, rep, nx, tks, -, -, -, rfl⟩ := hp
    exact ho.of_frames frames
  -- `sweep()` has been called in the place of the function on top
  have hsweep {v v' : World V} {j : Addr} {it : Option SlotAddr} {g : Frame V}
      (run : SignalImpl.enterSweep j v = (.ret it, v')) (frames : v.frames = g :: w.frames.tail)
      (hg : g.clears i = false) : v'.OnTop i := by
    obtain ⟨self, -, -, rfl⟩ := SignalImpl.enterSweep_effect run
    intro f hf
    change f ∈ v.frames at hf
    rw [frames] at hf
    rcases List.mem_cons.mp hf with rfl | hm
    · exact hg
    · exact ho f hm
  cases h with
  | insertBuilt user owned functor run =>
    obtain ⟨w₁, rep?, hcons, hframes, hp⟩ := SignalImpl.insertBuilt_effect run
    exact hinsert hp hframes
  | insertTaken user owned source told run =>
    obtain ⟨w₁, sl, htake, hframes, -, hp⟩ := SignalImpl.insertTaken_effect run
    exact hinsert hp hframes
  | impl run =>
    obtain ⟨-, rfl⟩ | ⟨-, -, rfl⟩ := SignalBase.impl_effect run <;> exact ho
  | copyConstruct handle run =>
    obtain ⟨j, w₁, hrun, -, rfl⟩ := SignalBase.copyConstruct_effect run
    obtain ⟨-, rfl⟩ | ⟨-, -, rfl⟩ := SignalBase.impl_effect hrun <;> exact ho
  | moveConstruct run =>
    obtain ⟨-, rfl⟩ := SignalBase.moveConstruct_effect run
    exact ho
  | replaceImpl calm owned run =>
    obtain ⟨-, hgo⟩ := SignalBase.replaceImpl_effect run
    exact World.letGo_onTop hgo rfl ho calm.free
  | dropHandle calm run =>
    obtain ⟨-, hgo⟩ := SignalBase.dropHandle_effect run
    exact World.letGo_onTop (w := w) hgo rfl ho calm.free
  | endRelease top done => exact ho.pop
  | endCleanup top => exact World.OnTop.pop (w := w) ho
  | enterClear calm run =>
    obtain ⟨self, himpl, rfl, rfl, rfl, -, rfl⟩ := SignalImpl.enterClear_effect run
    exact World.OnTop.push (w := w) ho calm.free _
  | clearNext top impl next severed => exact ho.setTop _
  | clearErase top impl slots alive => exact World.OnTop.setTop (w := w) ho _
  | clearErased top gone => exact ho.setTop _
  | leaveClear top impl cleared quiet => exact World.OnTop.pop (w := w) ho
  | @leaveClearSweep w' j during saved below self it top impl cleared sweeps owned run =>
    obtain ⟨x, -, -, rfl⟩ := SignalImpl.enterSweep_effect run
    exact ho
  | sweepSkip top impl next keep => exact ho.setTop _
  | sweepErase top impl next element empty alive => exact World.OnTop.setTop (w := w) ho _
  | sweepErased top gone => exact ho.setTop _
  | leaveHolder top holder impl quiet => exact World.OnTop.setTop (w := w) ho _
  | leaveHolderSweep top holder impl sweeps run => exact hsweep run rfl rfl
  | startRelease top => exact ho.setTop _
  | _ => exact ho

theorem EmissionStep.onTop (h : EmissionStep w w') (ho : w.OnTop i) : w'.OnTop i := by
  cases h with
  | start calm owned run =>
    obtain ⟨self, himpl, -, rfl, rfl⟩ := Emission.start_effect run
    exact World.OnTop.push (w := w) ho calm.free _
  | finish top ends impl element quiet => exact World.OnTop.setTop (w := w) ho _
  | finishSweep top ends impl element sweeps run =>
    obtain ⟨x, -, -, rfl⟩ := SignalImpl.enterSweep_effect run
    intro f hf
    rcases List.mem_cons.mp hf with rfl | hm
    · rfl
    · exact ho f hm
  | _ => exact ho.setTop _

theorem Step.onTop (h : Step w w') (hc : w.Counted) (bound : w.Fits i)
    (ho : w.OnTop i) : w'.OnTop i := by
  cases h with
  | command script wellFormed => exact ho
  | trackable h => exact h.onTop ho
  | weak h => exact h.onTop ho
  | slot h => exact h.onTop ho fun self impl idle => hc.users_eq_nil impl (bound self impl) idle
  | signal h => exact h.onTop ho
  | emission h => exact h.onTop ho

end Sigc
