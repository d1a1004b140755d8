import Sigc.RegistrationSteps

/-!
# The stack and the shared pointers

What a step does to the stack: it replaces a few frames on top of it.  What it does to the handles:
where a signal loses its last pointer, its release is on top of the stack afterwards.
-/

namespace Sigc

open Reasoning Prog

variable {V : Type} {w w' v : World V} {i : Addr} {self : SignalImpl}
  {f g : Frame V} {below old new rest : List (Frame V)}

/-- No two handles have one address. -/
def World.Keyed (w : World V) : Prop := (w.handles.map Prod.fst).Nodup

/-- A step from `w` to `w'` replaces `old` on top of the stack by `new`. -/
structure StackStep (w w' : World V) (old new rest : List (Frame V)) : Prop where
  frames : w.frames = old ++ rest
  frames' : w'.frames = new ++ rest
  keyed : w'.Keyed
  /-- a release is over when the signal is shared again, or has been destroyed -/
  kept : ∀ i, .releasing i ∈ old → w.owned i = true ∨ w'.impls i = none
  shared : ∀ i, w.owned i = true → w'.owned i = true ∨ new = [.releasing i]

namespace StackStep

/-- The handles have not changed. -/
theorem of_handles (keyed : w.Keyed) (handles : w'.handles = w.handles)
    (frames : w.frames = old ++ rest) (frames' : w'.frames = new ++ rest)
    (kept : ∀ i, .releasing i ∈ old → w.owned i = true ∨ w'.impls i = none)
    (owns : ∀ i, ∀ f ∈ old, f.owns i = true → (∃ g ∈ new, g.owns i = true) ∨ new = [.releasing i]) :
    StackStep w w' old new rest where
  frames := frames
  frames' := frames'
  keyed := by
    unfold World.Keyed
    rwa [handles]
  kept := kept
  shared i ho := by
    rcases World.owned_iff.mp ho with ⟨h, hm⟩ | ⟨f, hm, hf⟩
    · exact .inl (World.owned_of_handle (h := h) (handles ▸ hm))
    · rw [frames] at hm
      rcases List.mem_append.mp hm with hold | hrest
      · refine (owns i f hold hf).imp_left ?_
        rintro ⟨g, hg, howns⟩
        apply World.owned_of_frame (f := g) _ howns
        rw [frames']
        exact List.mem_append_left _ hg
      · refine .inl (World.owned_of_frame (f := f) ?_ hf)
        rw [frames']
        exact List.mem_append_right _ hrest

theorem quiet (keyed : w.Keyed) (handles : w'.handles = w.handles) (frames : w'.frames = w.frames) :
    StackStep w w' [] [] w.frames :=
  .of_handles keyed handles rfl frames (fun _ h => by cases h) (fun _ _ h => by cases h)

theorem push (keyed : w.Keyed) (handles : w'.handles = w.handles)
    (frames : w'.frames = new ++ w.frames) : StackStep w w' [] new w.frames :=
  .of_handles keyed handles rfl frames (fun _ h => by cases h) (fun _ _ h => by cases h)

/-- The frame on top, which shares nothing, is replaced. -/
theorem replace (keyed : w.Keyed) (handles : w'.handles = w.handles) (top : w.frames = f :: below)
    (frames : w'.frames = new ++ below) (owns : ∀ i, f.owns i = false)
    (hf : ∀ i, f ≠ .releasing i) : StackStep w w' [f] new below := by
  refine .of_handles keyed handles top frames (fun i hm => ?_) (fun i x hm hx => ?_)
  · exact absurd (List.mem_singleton.mp hm).symm (hf i)
  · rw [List.mem_singleton.mp hm, owns i] at hx
    cases hx

/-- The frame on top is replaced by one that shares the same signal, or releases it. -/
theorem swap (keyed : w.Keyed) (handles : w'.handles = w.handles) (top : w.frames = f :: below)
    (frames : w'.frames = g :: below)
    (owns : ∀ i, f.owns i = true → g.owns i = true ∨ g = .releasing i)
    (hf : ∀ i, f ≠ .releasing i) : StackStep w w' [f] [g] below := by
  refine .of_handles keyed handles top frames (fun i hm => ?_) (fun i x hm hx => ?_)
  · exact absurd (List.mem_singleton.mp hm).symm (hf i)
  · rw [List.mem_singleton.mp hm] at hx
    rcases owns i hx with hg | rfl
    · exact .inl ⟨g, List.mem_singleton_self g, hg⟩
    · exact .inr rfl

end StackStep

theorem TrackableStep.stackStep (h : TrackableStep w w') (keyed : w.Keyed) :
    ∃ old new rest, StackStep w w' old new rest := by
  cases h with
  | beginNotify alive list idle reason calm =>
    exact ⟨_, [_], _, .push keyed rfl rfl⟩
  | skip top alive list element inactive =>
    exact ⟨_, [_], _, .replace keyed rfl top (congrArg (_ :: ·) (congrArg List.tail top))
      (fun _ => rfl) (fun _ h => by cases h)⟩
  | notifyWeak top alive list element func weak =>
    exact ⟨_, [_], _, .replace keyed rfl top (congrArg (_ :: ·) (congrArg List.tail top))
      (fun _ => rfl) (fun _ h => by cases h)⟩
  | endNotify top alive list done =>
    exact ⟨_, [], _, .replace keyed rfl top (congrArg List.tail top)
      (fun _ => rfl) (fun _ h => by cases h)⟩
  | _ => exact ⟨_, _, _, .quiet keyed rfl rfl⟩

theorem WeakStep.stackStep (h : WeakStep w w') (keyed : w.Keyed) :
    ∃ old new rest, StackStep w w' old new rest := by
  cases h with
  | refer s => exact ⟨_, _, _, .quiet keyed rfl rfl⟩
  | construct user source run =>
    obtain ⟨-, tks, ign, rfl, -⟩ := WeakRawPtr.construct_effect run
    exact ⟨_, _, _, .quiet keyed rfl rfl⟩
  | assign user connection run =>
    obtain ⟨mid, tks, ign, self, from_, -, -, rfl, -⟩ := WeakRawPtr.assign_effect run
    exact ⟨_, _, _, .quiet keyed rfl rfl⟩
  | destroy user connection run =>
    obtain ⟨tks, self, -, rfl, -⟩ := WeakRawPtr.destroy_effect run
    exact ⟨_, _, _, .quiet keyed rfl rfl⟩

/-- `slot_rep::disconnect()` only calls further functions. -/
theorem Sever.pushes {q : Addr} (h : Sever q w w') :
    w'.handles = w.handles ∧ ∃ new, w'.frames = new ++ w.frames := by
  cases h with
  | erase alive parent cleanup record owned impl idle element slot calm =>
    exact ⟨rfl, [_, _], rfl⟩
  | _ => exact ⟨rfl, [], rfl⟩

theorem SlotStep.stackStep (h : SlotStep w w') (keyed : w.Keyed) :
    ∃ old new rest, StackStep w w' old new rest := by
  have hpop {f : Frame V} {below : List (Frame V)} (handles : w'.handles = w.handles)
      (frames : w'.frames = w.frames.tail) (top : w.frames = f :: below)
      (owns : ∀ i, f.owns i = false) (hf : ∀ i, f ≠ .releasing i) :
      ∃ old new rest, StackStep w w' old new rest :=
    ⟨_, [], _, .replace keyed handles top (frames.trans (congrArg List.tail top)) owns hf⟩
  cases h with
  | construct unlisted functor run =>
    obtain ⟨-, rfl, rfl⟩ | ⟨f, tks, ign, rps, -, -, rfl, rfl⟩ := SlotBase.construct_effect run <;>
      exact ⟨_, _, _, .quiet keyed rfl rfl⟩
  | take unlisted source told run =>
    obtain ⟨sl, -, rfl, rfl⟩ := SlotBase.takeRep_effect run
    exact ⟨_, _, _, .quiet keyed rfl rfl⟩
  | sever h =>
    obtain ⟨handles, new, frames⟩ := h.pushes
    exact ⟨_, new, _, .push keyed handles frames⟩
  | @startInvalidation w₁ w' r rep x calm alive run sever =>
    obtain ⟨-, tks, ign, rfl, -⟩ := WeakRawPtr.construct_effect run
    obtain ⟨handles, new, frames⟩ := sever.pushes
    refine ⟨_, new ++ [.invalidating r x], _, .push keyed handles ?_⟩
    rw [frames, List.append_assoc]
    rfl
  | detach top run =>
    obtain ⟨rep, tks, rps, -, -, rfl, -⟩ := SlotRep.detachFunctor_effect run
    exact ⟨_, _, _, .quiet keyed rfl rfl⟩
  | endInvalidation top weak gutted run =>
    obtain ⟨tks, self, -, rfl, -⟩ := WeakRawPtr.destroy_effect run
    exact hpop rfl rfl top (fun _ => rfl) (fun _ h => by cases h)
  | @endCallback w₁ r x c t pos deps below tr l top weak gutted run alive list element =>
    obtain ⟨tks, self, -, rfl, -⟩ := WeakRawPtr.destroy_effect run
    -- two frames are replaced by one
    have hframes : w.frames = [.invalidating r x, .notifying t pos deps] ++ below := top
    refine ⟨_, [.notifying t (pos + 1) deps], _,
      .of_handles keyed rfl hframes ?_ (fun i hm => ?_) (fun i f hm hf => ?_)⟩
    · exact congrArg (_ :: ·) (congrArg (List.tail ∘ List.tail) top)
    · simp at hm
    · rcases List.mem_cons.mp hm with rfl | hm
      · cases hf
      · rw [List.mem_singleton.mp hm] at hf
        cases hf
  | beginDelete calm alive idle' slot rep unlisted run =>
    obtain ⟨rep', tks, rps, -, -, rfl, -⟩ := SlotRep.detachFunctor_effect run
    exact ⟨_, [_], _, .push keyed rfl rfl⟩
  | endDelete top alive notified => exact hpop rfl rfl top (fun _ => rfl) (fun _ h => by cases h)
  | startCheck calm alive rep unlisted run =>
    obtain ⟨-, tks, ign, rfl, -⟩ := WeakRawPtr.construct_effect run
    exact ⟨_, [_], _, .push keyed rfl rfl⟩
  | endCheck top run =>
    obtain ⟨tks, self, -, rfl, -⟩ := WeakRawPtr.destroy_effect run
    exact hpop rfl rfl top (fun _ => rfl) (fun _ h => by cases h)
  | cloneFor calm unlisted functor run =>
    obtain ⟨rfl, tks, ign, rps, sl, w₂, hcons, alive, hpass, rfl⟩ := SlotBase.cloneFor_effect run
    obtain ⟨-, rfl⟩ | ⟨_, _, _, -, -, -, rfl⟩ := SlotBase.passParent_effect hpass <;>
      exact ⟨_, [_], _, .push keyed rfl rfl⟩
  | moveFor calm unlisted source told run =>
    obtain ⟨from_, sl, w₂, -, -, -, hpass, rfl⟩ := SlotBase.moveFor_effect run
    obtain ⟨-, rfl⟩ | ⟨_, _, _, -, -, -, rfl⟩ := SlotBase.passParent_effect hpass <;>
      exact ⟨_, [_], _, .push keyed rfl rfl⟩
  | finishAssign top alive intact unlisted =>
    exact hpop rfl rfl top (fun _ => rfl) (fun _ h => by cases h)
  | pushHandler calm alive call => exact ⟨_, [_], _, .push keyed rfl rfl⟩
  | popHandler top => exact hpop rfl rfl top (fun _ => rfl) (fun _ h => by cases h)
  | pushFunctorDtor calm used functor gutted => exact ⟨_, [_], _, .push keyed rfl rfl⟩
  | nextTarget top =>
    exact ⟨_, [_], _, .replace keyed rfl top (congrArg (_ :: ·) (congrArg List.tail top))
      (fun _ => rfl) (fun _ h => by cases h)⟩
  | popFunctorDtor top => exact hpop rfl rfl top (fun _ => rfl) (fun _ h => by cases h)
  | _ => exact ⟨_, _, _, .quiet keyed rfl rfl⟩

/-! ## Handles -/

theorem World.Keyed.implOf (keyed : w.Keyed) {h : Addr} (hm : (h, some i) ∈ w.handles) :
    w.implOf h = some i := by
  have hlookup : w.handles.lookup h = some (some i) := by
    obtain ⟨before, after, hsplit⟩ := List.append_of_mem hm
    refine List.lookup_eq_some_iff.mpr ⟨before, after, hsplit, fun p hp => ?_⟩
    unfold World.Keyed at keyed
    rw [hsplit, List.map_append, List.nodup_append] at keyed
    have hne := keyed.2.2 p.1 (List.mem_map_of_mem hp) h List.mem_cons_self
    exact bne_iff_ne.mpr hne.symm
  rw [World.implOf, hlookup]
  rfl

theorem World.keys_setHandle (w : World V) (h : Addr) (o : Option Addr) :
    (w.setHandle h o).handles.map Prod.fst = w.handles.map Prod.fst := by
  unfold World.setHandle
  rw [List.map_map]
  apply List.map_congr_left
  intro p _
  show (if p.1 = h then (h, o) else p).1 = p.1
  split
  · rename_i heq
    exact heq.symm
  · rfl

theorem World.mem_setHandle_of_ne {h k : Addr} {o : Option Addr} (hne : k ≠ h)
    (hm : (k, some i) ∈ w.handles) : (k, some i) ∈ (w.setHandle h o).handles :=
  List.mem_map.mpr ⟨_, hm, by simp [hne]⟩

theorem World.letGo_frames (w : World V) (i : Addr) :
    (w.letGo i).frames = .releasing i :: w.frames := by
  unfold World.letGo
  split
  · rfl
  · rfl

/-- A handle has let go of `old`. -/
theorem World.letGo_stackStep {old : Option Addr} (run : SignalBase.letGo old v = (.ret old, w'))
    (keyed : v.Keyed) (frames : v.frames = w.frames)
    (handles : ∀ h i, (h, some i) ∈ w.handles → (h, some i) ∈ v.handles ∨ old = some i) :
    ∃ old new rest, StackStep w w' old new rest := by
  obtain ⟨-, rfl⟩ := SignalBase.letGo_effect run
  have hshared {u : World V} (i : Addr) (ho : w.owned i = true)
      (hh : ∀ h, (h, some i) ∈ w.handles → (h, some i) ∈ u.handles)
      (hf : ∀ f ∈ w.frames, f ∈ u.frames) : u.owned i = true := by
    rcases World.owned_iff.mp ho with ⟨h, hm⟩ | ⟨f, hm, howns⟩
    · exact World.owned_of_handle (hh h hm)
    · exact World.owned_of_frame (hf f hm) howns
  cases old with
  -- The handle was null: the stack is the same.
  | none =>
    refine ⟨[], [], w.frames, ⟨rfl, frames, keyed, fun i h => (List.not_mem_nil h).elim,
      fun i ho => .inl ?_⟩⟩
    apply hshared i ho
    · intro h hm
      exact (handles h i hm).resolve_right (by simp)
    · intro f hf
      exact frames ▸ hf
  | some j =>
    -- It shared a list: whether that list goes is decided on top of the stack.
    have hframes : (v.letGo j).frames = [.releasing j] ++ w.frames :=
      (World.letGo_frames v j).trans (congrArg (_ :: ·) frames)
    have hhandles : (v.letGo j).handles = v.handles := by
      unfold World.letGo
      split
      · rfl
      · rfl
    refine ⟨[], [.releasing j], w.frames, ⟨rfl, hframes, ?_, fun i h => (List.not_mem_nil h).elim,
      fun i ho => ?_⟩⟩
    · unfold World.Keyed
      show ((v.letGo j).handles.map Prod.fst).Nodup
      rwa [hhandles]
    · by_cases heq : j = i
      · exact .inr (by rw [heq])
      · refine .inl (hshared (u := v.letGo j) i ho (fun h hm => ?_) fun f hf => ?_)
        · rw [hhandles]
          exact (handles h i hm).resolve_right (by simpa using heq)
        · rw [hframes]
          exact List.mem_cons_of_mem _ hf

/-- `sweep()` is called before a holder lets go. -/
theorem SignalImpl.enterSweep_stackStep {it : Option SlotAddr}
    (run : SignalImpl.enterSweep i v = (.ret it, w')) (keyed : w.Keyed)
    (handles : v.handles = w.handles) (top : w.frames = f :: below)
    (frames : v.frames = .holding i :: below) (owns : ∀ j, f.owns j = true → i = j)
    (hf : ∀ j, f ≠ .releasing j) : ∃ old new rest, StackStep w w' old new rest := by
  obtain ⟨self, -, -, rfl⟩ := SignalImpl.enterSweep_effect run
  refine ⟨[f], [.sweep i self.slots.head? none, .holding i], below,
    .of_handles keyed handles top (congrArg _ frames) (fun j hm => ?_) (fun j x hm hx => ?_)⟩
  · exact absurd (List.mem_singleton.mp hm).symm (hf j)
  · rw [List.mem_singleton.mp hm] at hx
    exact .inl ⟨.holding i, List.mem_cons_of_mem _ (List.mem_singleton_self _),
      decide_eq_true (owns j hx)⟩

namespace StackStep

/-- Handles are added, but none of them goes. -/
theorem adds (keyed' : w'.Keyed) (frames : w'.frames = w.frames)
    (handles : ∀ h i, (h, some i) ∈ w.handles → ∃ k, (k, some i) ∈ w'.handles) :
    ∃ old new rest, StackStep w w' old new rest := by
  refine ⟨[], [], w.frames, ⟨rfl, frames, keyed', fun i h => (List.not_mem_nil h).elim,
    fun i ho => .inl ?_⟩⟩
  rcases World.owned_iff.mp ho with ⟨h, hm⟩ | ⟨f, hm, howns⟩
  · obtain ⟨k, hk⟩ := handles h i hm
    exact World.owned_of_handle hk
  · exact World.owned_of_frame (frames ▸ hm) howns

/-- The function on top goes on, or is the last one to share the signal. -/
theorem goes (keyed : w.Keyed) (handles : w'.handles = w.handles)
    (frames : w'.frames = g :: w.frames.tail) (top : w.frames = f :: below)
    (owns : ∀ i, f.owns i = true → g.owns i = true ∨ g = .releasing i)
    (hf : ∀ i, f ≠ .releasing i) : ∃ old new rest, StackStep w w' old new rest :=
  ⟨_, [g], _, .swap keyed handles top (frames.trans (congrArg _ (congrArg List.tail top))) owns hf⟩

/-- An element has been inserted in `v`. -/
theorem of_placed {j : Addr} {first : Bool} {n : SlotAddr} {sl : SlotBase} (keyed : w.Keyed)
    (hp : SignalImpl.Placed v j first n sl w') (frames : v.frames = w.frames)
    (handles : v.handles = w.handles) : ∃ old new rest, StackStep w w' old new rest := by
  obtain ⟨-, self, r, rep, nx, tks, -, -, -, rfl⟩ := hp
  exact ⟨_, _, _, .quiet keyed handles frames⟩

end StackStep

/-- What `impl()` leaves of the handles. -/
theorem SignalBase.impl_handles {h j : Addr} (keyed : w.Keyed)
    (run : SignalBase.impl h w = (.ret j, v)) :
    v.Keyed ∧ v.frames = w.frames ∧ w.next ≤ v.next ∧
      (∀ p ∈ v.handles.map Prod.fst, p ∈ w.handles.map Prod.fst) ∧
      ∀ h i, (h, some i) ∈ w.handles → (h, some i) ∈ v.handles := by
  obtain ⟨-, rfl⟩ | ⟨hnone, -, rfl⟩ := SignalBase.impl_effect run
  · exact ⟨keyed, rfl, Nat.le_refl _, fun _ hp => hp, fun _ _ hm => hm⟩
  · have hkeys := World.keys_setHandle (World.setImpl { w with next := w.next + 1 } j (some {})) h
      (some j)
    refine ⟨?_, rfl, Nat.le_succ _, fun p hp => hkeys ▸ hp, fun k i hm => ?_⟩
    · unfold World.Keyed
      rwa [hkeys]
    · apply World.mem_setHandle_of_ne _ hm
      rintro rfl
      rw [keyed.implOf hm] at hnone
      cases hnone

/-- A new handle is not one of those that there are. -/
theorem World.Keyed.fresh (hw : WellAddressed w) {h : Addr} (hh : w.next ≤ h) :
    h ∉ w.handles.map Prod.fst := by
  intro hm
  obtain ⟨p, hp, heq⟩ := List.mem_map.mp hm
  have hlt : p.1 < w.next := (hw.handles p hp).1
  rw [heq] at hlt
  exact absurd hlt (Nat.not_lt.mpr hh)

namespace SignalStep

variable {h src : Addr} {j : Option Addr} {old : Option Addr}

theorem new_stackStep (hw : WellAddressed w) (keyed : w.Keyed) : ∃ old new rest,
    StackStep w { w with next := w.next + 1, handles := (w.next, none) :: w.handles }
      old new rest := by
  refine StackStep.adds ?_ rfl fun h i hm => ⟨h, List.mem_cons_of_mem _ hm⟩
  exact List.nodup_cons.mpr ⟨World.Keyed.fresh hw (Nat.le_refl _), keyed⟩

theorem copyConstruct_stackStep (hw : WellAddressed w) (keyed : w.Keyed)
    (run : SignalBase.copyConstruct src w = (.ret h, w')) :
    ∃ old new rest, StackStep w w' old new rest := by
  obtain ⟨j, w₁, hrun, rfl, rfl⟩ := SignalBase.copyConstruct_effect run
  obtain ⟨hkeyed, hframes, hnext, hkeys, hhandles⟩ := SignalBase.impl_handles keyed hrun
  refine StackStep.adds ?_ hframes fun h i hm => ⟨h, List.mem_cons_of_mem _ (hhandles h i hm)⟩
  exact List.nodup_cons.mpr ⟨fun hm => World.Keyed.fresh hw hnext (hkeys _ hm), hkeyed⟩

/-- The new handle has the list that the old one had. -/
theorem moveConstruct_stackStep (hw : WellAddressed w) (keyed : w.Keyed)
    (run : SignalBase.moveConstruct src w = (.ret h, w')) :
    ∃ old new rest, StackStep w w' old new rest := by
  obtain ⟨rfl, rfl⟩ := SignalBase.moveConstruct_effect run
  refine StackStep.adds ?_ rfl fun h i hm => ?_
  · refine List.nodup_cons.mpr ⟨?_, ?_⟩
    · rw [World.keys_setHandle]
      exact World.Keyed.fresh hw (Nat.le_refl _)
    · rwa [World.keys_setHandle]
  · by_cases heq : h = src
    · subst heq
      exact ⟨w.next, List.mem_cons.mpr (.inl (by rw [keyed.implOf hm]))⟩
    · exact ⟨h, List.mem_cons_of_mem _ (World.mem_setHandle_of_ne heq hm)⟩

theorem replaceImpl_stackStep (keyed : w.Keyed)
    (run : SignalBase.replaceImpl h j w = (.ret old, w')) :
    ∃ old new rest, StackStep w w' old new rest := by
  obtain ⟨rfl, hgo⟩ := SignalBase.replaceImpl_effect run
  refine World.letGo_stackStep hgo ?_ rfl fun k i hm => ?_
  · unfold World.Keyed
    rwa [World.keys_setHandle]
  · by_cases heq : k = h
    · exact .inr (heq ▸ keyed.implOf hm)
    · exact .inl (World.mem_setHandle_of_ne heq hm)

theorem dropHandle_stackStep (keyed : w.Keyed)
    (run : SignalBase.dropHandle h w = (.ret old, w')) :
    ∃ old new rest, StackStep w w' old new rest := by
  obtain ⟨rfl, hgo⟩ := SignalBase.dropHandle_effect run
  refine World.letGo_stackStep (w := w) hgo ?_ rfl fun k i hm => ?_
  · exact keyed.sublist (List.filter_sublist.map _)
  · by_cases heq : k = h
    · exact .inr (heq ▸ keyed.implOf hm)
    · exact .inl (List.mem_filter.mpr ⟨hm, by simpa using heq⟩)

end SignalStep

theorem SignalStep.stackStep (h : SignalStep w w') (hw : WellAddressed w) (keyed : w.Keyed) :
    ∃ old new rest, StackStep w w' old new rest := by
  cases h with
  | insertBuilt user owned functor run =>
    obtain ⟨w₁, rep?, hcons, hframes, hp⟩ := SignalImpl.insertBuilt_effect run
    obtain ⟨-, rfl, rfl⟩ | ⟨f, tks, ign, rps, -, -, rfl, rfl⟩ := SlotBase.construct_effect hcons <;>
      exact StackStep.of_placed keyed hp rfl rfl
  | insertTaken user owned source told run =>
    obtain ⟨w₁, sl, htake, hframes, -, hp⟩ := SignalImpl.insertTaken_effect run
    obtain ⟨sl, -, rfl, rfl⟩ := SlotBase.takeRep_effect htake
    exact StackStep.of_placed keyed hp rfl rfl
  | new => exact new_stackStep hw keyed
  | impl run =>
    obtain ⟨hkeyed, hframes, -, -, hhandles⟩ := SignalBase.impl_handles keyed run
    exact StackStep.adds hkeyed hframes fun h i hm => ⟨h, hhandles h i hm⟩
  | copyConstruct handle run => exact copyConstruct_stackStep hw keyed run
  | moveConstruct run => exact moveConstruct_stackStep hw keyed run
  | replaceImpl calm owned run => exact replaceImpl_stackStep keyed run
  | dropHandle calm run => exact dropHandle_stackStep keyed run
  | @endRelease j below top done =>
    refine ⟨[.releasing j], [], below, .of_handles keyed rfl top (congrArg List.tail top)
      (fun i hm => ?_) (fun i x hm hx => ?_)⟩
    · cases List.mem_singleton.mp hm
      exact done
    · rw [List.mem_singleton.mp hm] at hx
      cases hx
  | endDispose top unowned idle alive empty => exact ⟨_, _, _, .quiet keyed rfl rfl⟩
  | endCleanup top =>
    exact ⟨_, [], _, .replace keyed rfl top (congrArg List.tail top) (fun _ => rfl)
      (fun _ h => by cases h)⟩
  | enterClear calm run =>
    obtain ⟨self, himpl, rfl, rfl, rfl, -, rfl⟩ := SignalImpl.enterClear_effect run
    exact ⟨_, [_], _, .push keyed rfl rfl⟩
  | clearNext top impl next severed =>
    exact StackStep.goes keyed rfl rfl top (fun _ => .inl) (fun _ h => by cases h)
  | recordCleared top => exact ⟨_, _, _, .quiet keyed rfl rfl⟩
  | restoreDeferred top impl => exact ⟨_, _, _, .quiet keyed rfl rfl⟩
  | clearErase top impl slots alive =>
    exact StackStep.goes keyed rfl rfl top (fun _ => .inl) (fun _ h => by cases h)
  | clearErased top gone =>
    exact StackStep.goes keyed rfl rfl top (fun _ => .inl) (fun _ h => by cases h)
  | leaveClear top impl cleared quiet =>
    exact ⟨_, [], _, .replace keyed rfl top (congrArg List.tail top) (fun _ => rfl)
      (fun _ h => by cases h)⟩
  | @leaveClearSweep w' j during saved below self it top impl cleared sweeps owned run =>
    obtain ⟨x, -, -, rfl⟩ := SignalImpl.enterSweep_effect run
    exact StackStep.goes keyed rfl rfl top (fun _ h => by cases h) (fun _ h => by cases h)
  | sweepSkip top impl next keep =>
    exact StackStep.goes keyed rfl rfl top (fun _ => .inl) (fun _ h => by cases h)
  | sweepErase top impl next element empty alive =>
    exact StackStep.goes keyed rfl rfl top (fun _ => .inl) (fun _ h => by cases h)
  | sweepErased top gone =>
    exact StackStep.goes keyed rfl rfl top (fun _ => .inl) (fun _ h => by cases h)
  | @leaveHolder j below f self top holder impl quiet =>
    refine StackStep.goes (g := .holding j) keyed rfl rfl top (fun i howns => .inl ?_)
      fun i heq => ?_
    · obtain rfl | ⟨n, rfl, -⟩ := holder <;> exact howns
    · obtain rfl | ⟨n, rfl, -⟩ := holder <;> cases heq
  | @leaveHolderSweep w' j below f self it top holder impl sweeps run =>
    refine SignalImpl.enterSweep_stackStep run keyed rfl top
      (congrArg (_ :: ·) (congrArg List.tail top)) (fun i howns => ?_) fun i heq => ?_
    · obtain rfl | ⟨n, rfl, -⟩ := holder <;> exact of_decide_eq_true howns
    · obtain rfl | ⟨n, rfl, -⟩ := holder <;> cases heq
  | @startRelease j below top =>
    refine StackStep.goes keyed rfl rfl top (fun i howns => .inr ?_) (fun _ h => by cases h)
    exact congrArg _ (of_decide_eq_true howns)

theorem EmissionStep.stackStep (h : EmissionStep w w') (keyed : w.Keyed) :
    ∃ old new rest, StackStep w w' old new rest := by
  have hgo {v : World V} {e e' : Emission V} {below : List (Frame V)}
      (handles : v.handles = w.handles) (frames : v.frames = .emission e' :: w.frames.tail)
      (top : w.frames = .emission e :: below) (impl : e'.impl = e.impl) :
      ∃ old new rest, StackStep w v old new rest := by
    refine ⟨_, [.emission e'], _, .swap keyed handles top
      (frames.trans (congrArg _ (congrArg List.tail top))) (fun i howns => .inl ?_)
      (fun _ h => by cases h)⟩
    show decide (e'.impl = i) = true
    rwa [impl]
  cases h with
  | start calm owned run =>
    obtain ⟨self, himpl, -, rfl, rfl⟩ := Emission.start_effect run
    exact ⟨_, [_], _, .push keyed rfl rfl⟩
  | skip top inside arrived slot uncallable impl next => exact hgo rfl rfl top rfl
  | beginCall top inside arrived callable => exact hgo rfl rfl top rfl
  | endCall v top invoking => exact hgo rfl rfl top rfl
  | advance top invoked impl next => exact hgo rfl rfl top rfl
  | @finish e below self completed top ends impl element quiet =>
    exact ⟨_, [.holding e.impl], _, .swap keyed rfl top (congrArg (_ :: ·) (congrArg List.tail top))
      (fun i howns => .inl howns) (fun _ h => by cases h)⟩
  | @finishSweep w' e below self completed it top ends impl element sweeps run =>
    exact SignalImpl.enterSweep_stackStep run keyed rfl top
      (congrArg (_ :: ·) (congrArg List.tail top)) (fun i howns => of_decide_eq_true howns)
      (fun _ h => by cases h)

theorem Step.stackStep (h : Step w w') (hw : WellAddressed w) (keyed : w.Keyed) :
    ∃ old new rest, StackStep w w' old new rest := by
  cases h with
  | command script wellFormed => exact ⟨_, _, _, .quiet keyed rfl rfl⟩
  | trackable h => exact h.stackStep keyed
  | weak h => exact h.stackStep keyed
  | slot h => exact h.stackStep keyed
  | signal h => exact h.stackStep hw keyed
  | emission h => exact h.stackStep keyed

end Sigc
