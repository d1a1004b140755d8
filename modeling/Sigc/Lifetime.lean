import Sigc.Safety
import Sigc.Stack

/-!
# The end of a signal

The functions that run on the list of a signal share its `signal_impl`, so that it outlives them.
A `clear()` does not: the last handle may go while it destroys the elements.
-/

namespace Sigc

open Reasoning Prog

variable {V : Type} {w w' : World V} {i : Addr} {self self' : SignalImpl}

/-- The last pointer to `i` was released when a function was running on the list. -/
def World.ReleasedInUse (w : World V) (i : Addr) : Prop :=
  ∃ below, .releasing i :: below <:+ w.frames ∧ below.any (Frame.execOn i) = true

/-- How the functions on the list `i` end, and the list with them. -/
structure World.Lifetime (w : World V) (i : Addr) : Prop where
  keyed : w.Keyed
  saved : w.impls i ≠ none → ∀ it er saved, .clear i it er false saved ∈ w.users i → saved = false
  within : w.impls i ≠ none → ∀ it er saved, .clear i it er true saved ∈ w.users i →
    2 ≤ (w.users i).length
  released : w.owned i = false → ∀ self, w.impls i = some self → self.deferred = true →
    w.ReleasedInUse i

/-- No function but `clear()` runs on a list that is not shared. -/
theorem World.clears_of_unowned (unowned : w.owned i = false) {f : Frame V} (hf : f ∈ w.users i) :
    ∃ it er during saved, f = .clear i it er during saved := by
  obtain ⟨hm, hexec⟩ := List.mem_filter.mp hf
  have howns : f.owns i = false := by
    by_contra h
    rw [Bool.not_eq_false] at h
    rw [World.owned_of_frame hm h] at unowned
    cases unowned
  cases f with
  | clear j it er during saved =>
    obtain rfl : j = i := of_decide_eq_true hexec
    exact ⟨it, er, during, saved, rfl⟩
  | emission e => exact absurd (howns.symm.trans hexec) (by simp)
  | sweep j it er => exact absurd (howns.symm.trans hexec) (by simp)
  | erase j n => exact absurd (howns.symm.trans hexec) (by simp)
  | _ => cases hexec

/-- A release that goes on stays where it is. -/
theorem StackStep.releasing {old new rest below : List (Frame V)}
    (h : StackStep w w' old new rest) (hs : .releasing i :: below <:+ w.frames)
    (unowned : w.owned i = false) (alive : w'.impls i ≠ none) :
    .releasing i :: below <:+ w'.frames := by
  have hnot : Frame.releasing i ∉ old := by
    intro hm
    rcases h.kept i hm with howned | hnone
    · rw [unowned] at howned
      cases howned
    · exact alive hnone
  rw [h.frames] at hs
  rw [h.frames']
  rcases List.suffix_or_suffix_of_suffix hs (List.suffix_append old rest) with hrest | hbeyond
  · exact hrest.trans (List.suffix_append new rest)
  · -- it would have been replaced
    rcases List.suffix_cons_iff.mp hbeyond with heq | hbelow
    · exact heq ▸ List.suffix_append new rest
    · obtain ⟨t, rfl⟩ := hbelow
      obtain ⟨s, hs⟩ := hs
      have hold : s ++ .releasing i :: t = old := by
        have happend : (s ++ .releasing i :: t) ++ rest = old ++ rest := by
          rw [← hs]
          simp
        exact List.append_cancel_right happend
      exact absurd (hold ▸ List.mem_append_right s List.mem_cons_self) hnot

/-- No `clear()` waits for another function on its list, but in the middle of a destruction. -/
theorem World.OnTop.rest_users (ho : w.OnTop i) {f g : Frame V} {rest : List (Frame V)}
    (users : w.users i = g :: rest) (hf : f ∈ rest) : f.clears i = false := by
  cases hframes : w.frames with
  | nil =>
    rw [World.users, hframes] at users
    cases users
  | cons h t =>
    apply ho
    rw [hframes, List.tail_cons]
    cases hexec : h.execOn i with
    | true =>
      rw [World.users_on hframes hexec] at users
      rw [← (List.cons.inj users).2] at hf
      exact (List.mem_filter.mp hf).1
    | false =>
      have hm : f ∈ w.users i := users ▸ List.mem_cons_of_mem g hf
      rw [World.users_off hframes hexec] at hm
      exact (List.mem_filter.mp hm).1

/-- A `clear()` goes on with the locals that it began with. -/
theorem Frame.Moves.of_clear {f g : Frame V} {l l' : List SlotAddr} (h : Frame.Moves i w f l g l')
    {it er : Option SlotAddr} {during saved : Bool} (hg : g = .clear i it er during saved) :
    ∃ it₀ er₀, f = .clear i it₀ er₀ during saved := by
  cases h with
  | emit placeholder => cases hg
  | clearNext next severed =>
    cases hg
    exact ⟨_, _, rfl⟩
  | clearErase =>
    cases hg
    exact ⟨_, _, rfl⟩
  | clearErased =>
    cases hg
    exact ⟨_, _, rfl⟩
  | sweepSkip next keep => cases hg
  | sweepErase next empty => cases hg
  | sweepErased => cases hg

namespace UseStep

theorem saved (h : UseStep w w' i self self')
    (hs : ∀ it er saved, .clear i it er false saved ∈ w.users i → saved = false)
    {it er : Option SlotAddr} {saved : Bool} (hm : .clear i it er false saved ∈ w'.users i) :
    saved = false := by
  cases h with
  | quiet same users => exact hs it er saved (users ▸ hm)
  | insert first slots deferred users => exact hs it er saved (users ▸ hm)
  | defer slots deferred users owned => exact hs it er saved (users ▸ hm)
  | restore slots top users deferred => exact hs it er saved (users ▸ hm)
  | erase idle slots users =>
    rw [users, List.mem_singleton] at hm
    cases hm
  | beginClear idle slots users deferred =>
    rw [users, List.mem_singleton] at hm
    cases hm
    rfl
  | clearWithin slots deferred users busy =>
    rw [users] at hm
    rcases List.mem_cons.mp hm with heq | hm
    · cases heq
    · exact hs it er saved hm
  | start slots deferred users =>
    rw [users] at hm
    rcases List.mem_cons.mp hm with heq | hm
    · cases heq
    · exact hs it er saved hm
  | @move f g rest moves deferred users users' =>
    rw [users'] at hm
    rcases List.mem_cons.mp hm with heq | hm
    -- A clear() that has moved on keeps the value it has saved.
    · obtain ⟨it₀, er₀, rfl⟩ := moves.of_clear heq.symm
      exact hs it₀ er₀ saved (users ▸ List.mem_cons_self)
    · exact hs it er saved (users ▸ List.mem_cons_of_mem _ hm)
  | leave slots deferred last users users' =>
    exact hs it er saved (users ▸ List.mem_cons_of_mem _ (users' ▸ hm))
  | finish impl slots deferred users users' =>
    exact hs it er saved (users ▸ List.mem_cons_of_mem _ (users' ▸ hm))
  | sweep slots last users users' =>
    rw [users', List.mem_singleton] at hm
    cases hm

/-- A `clear()` that was called within another function is the innermost one, and does not outlive
that function. -/
theorem within (h : UseStep w w' i self self') (ho : w.OnTop i) (ho' : w'.OnTop i)
    (hs : ∀ it er saved, .clear i it er true saved ∈ w.users i → 2 ≤ (w.users i).length)
    {it : Option SlotAddr} {saved : Bool} (hm : .clear i it none true saved ∈ w'.users i) :
    2 ≤ (w'.users i).length := by
  -- no such function is suspended
  have hrest {f : Frame V} {rest : List (Frame V)} (users : w.users i = f :: rest)
      (users' : w'.users i = rest) : 2 ≤ (w'.users i).length := by
    rw [users'] at hm
    have hnot := ho.rest_users users hm
    exact absurd ((decide_eq_true rfl : decide (i = i) = true).symm.trans hnot) (by simp)
  cases h with
  | quiet same users => exact users ▸ hs it none saved (users ▸ hm)
  | insert first slots deferred users => exact users ▸ hs it none saved (users ▸ hm)
  | defer slots deferred users owned => exact users ▸ hs it none saved (users ▸ hm)
  | restore slots top users deferred => exact users ▸ hs it none saved (users ▸ hm)
  | erase idle slots users =>
    rw [users, List.mem_singleton] at hm
    cases hm
  | beginClear idle slots users deferred =>
    rw [users, List.mem_singleton] at hm
    cases hm
  | clearWithin slots deferred users busy =>
    rw [users, List.length_cons]
    have hpos := List.length_pos_of_ne_nil busy
    omega
  | start slots deferred users =>
    have hhead := ho'.head_users users hm (decide_eq_true rfl)
    cases hhead
  | @move f g rest moves deferred users users' =>
    have hhead := ho'.head_users users' hm (decide_eq_true rfl)
    obtain ⟨it₀, er₀, rfl⟩ := moves.of_clear hhead.symm
    have hold := hs it₀ er₀ saved (users ▸ List.mem_cons_self)
    rw [users, List.length_cons] at hold
    rw [users', List.length_cons]
    exact hold
  | leave slots deferred last users users' => exact hrest users users'
  | finish impl slots deferred users users' => exact hrest users users'
  | sweep slots last users users' =>
    rw [users', List.mem_singleton] at hm
    cases hm

end UseStep

theorem UseStep.released (h : UseStep w w' i self self') (hl : w.Lifetime i)
    (impl : w.impls i = some self) (unowned : w.owned i = false) (unowned' : w'.owned i = false)
    (deferred' : self'.deferred = true) : self.deferred = true := by
  have hshared {f : Frame V} (hm : f ∈ w'.users i) (howns : f.owns i = true) : False := by
    rw [World.owned_of_frame (List.mem_filter.mp hm).1 howns] at unowned'
    cases unowned'
  cases h with
  | quiet same users => exact same ▸ deferred'
  | insert first slots deferred users => exact deferred ▸ deferred'
  | defer slots deferred users owned =>
    rw [unowned] at owned
    cases owned
  | @restore saved rest slots top users deferred =>
    obtain rfl := hl.saved (by simp [impl]) none none saved (top ▸ List.mem_cons_self)
    rw [deferred] at deferred'
    cases deferred'
  | erase idle slots users =>
    exact (hshared (users ▸ List.mem_singleton_self _) (by simp [Frame.owns])).elim
  | beginClear idle slots users deferred => exact deferred ▸ deferred'
  | clearWithin slots deferred users busy => exact deferred ▸ deferred'
  | start slots deferred users => exact deferred ▸ deferred'
  | move moves deferred users users' => exact deferred ▸ deferred'
  | leave slots deferred last users users' => exact deferred ▸ deferred'
  | finish impl slots deferred users users' => exact deferred ▸ deferred'
  | sweep slots last users users' =>
    exact (hshared (users' ▸ List.mem_singleton_self _) (by simp [Frame.owns])).elim

theorem World.Lifetime.step (hl : w.Lifetime i) (ht : w.Tracked i) (bound : w.Fits i)
    (h : Step w w') : w'.Lifetime i := by
  obtain ⟨old, new, rest, hstack⟩ := h.stackStep ht.sound.toWellAddressed hl.keyed
  have ht' : w'.Tracked i := ht.step h bound
  have hnew (self' : SignalImpl) (impl : w.impls i = none) (impl' : w'.impls i = some self') :
      w'.users i = [] := (h.listStep.created ht.sound.toWellAddressed impl impl').2
  have huse (self self' : SignalImpl) (impl : w.impls i = some self)
      (impl' : w'.impls i = some self') : UseStep w w' i self self' :=
    h.listStep.useStep ht.sound.toWellAddressed ht.discipline.counted (bound self impl) impl impl'
  refine ⟨hstack.keyed, fun hne it er saved hm => ?_, fun hne it er saved hm => ?_,
    fun unowned' self' impl' deferred' => ?_⟩
  · obtain ⟨self', impl'⟩ := Option.ne_none_iff_exists'.mp hne
    cases impl : w.impls i with
    | none =>
      rw [hnew self' impl impl'] at hm
      cases hm
    | some self => exact (huse self self' impl impl').saved (hl.saved (by simp [impl])) hm
  · obtain ⟨self', impl'⟩ := Option.ne_none_iff_exists'.mp hne
    obtain rfl := ht'.depth.within hne it er saved hm
    cases impl : w.impls i with
    | none =>
      rw [hnew self' impl impl'] at hm
      cases hm
    | some self =>
      exact (huse self self' impl impl').within ht.discipline.onTop ht'.discipline.onTop
        (hl.within (by simp [impl])) hm
  -- A removal is pending only where a function runs on the list.
  · have hbusy : w'.users i ≠ [] := by
      intro hnil
      have hidle := ht'.discipline.counted.idle i self' impl'
        (World.length_users.symm.trans (congrArg List.length hnil))
      rw [deferred'] at hidle
      cases hidle
    cases unowned : w.owned i with
    | true =>
      -- The last pointer goes in this step, so that the list is being released on top of the
      -- function.
      obtain rfl := (hstack.shared i unowned).resolve_left (by simp [unowned'])
      have hframes : w'.frames = .releasing i :: rest := hstack.frames'
      rw [World.users_off hframes rfl] at hbusy
      obtain ⟨f, hf⟩ := List.exists_mem_of_ne_nil _ hbusy
      obtain ⟨hm, hexec⟩ := List.mem_filter.mp hf
      exact ⟨rest, hframes ▸ List.suffix_rfl, List.any_eq_true.mpr ⟨f, hm, hexec⟩⟩
    | false =>
      cases impl : w.impls i with
      | none => exact absurd (hnew self' impl impl') hbusy
      | some self =>
        -- It had gone before: nothing sets deferred_ once nobody owns the list.
        have hdeferred := (huse self self' impl impl').released hl impl unowned unowned' deferred'
        obtain ⟨below, hsuffix, hany⟩ := hl.released unowned self impl hdeferred
        exact ⟨below, hstack.releasing hsuffix unowned (by simp [impl']), hany⟩

theorem World.Lifetime.initial (script : List (Cmd V)) (i : Addr) :
    ({ script } : World V).Lifetime i where
  keyed := List.nodup_nil
  saved h := absurd rfl h
  within h := absurd rfl h
  released _ _ h := by cases h

theorem Steps.lifetime {script : List (Cmd V)} (h : Steps ({ script } : World V) w)
    (hs : w.Shallow i) : w.Tracked i ∧ w.Lifetime i :=
  h.tracked_induction (P := fun v => v.Lifetime i) (.initial script i) hs (.initial script i)
    fun _ _ ht bound _ hstep hl => hl.step ht bound hstep

/-- `shared_from_this()` never throws: no removal is deferred in a list that nobody shares. -/
theorem Steps.sweeps_shared {script : List (Cmd V)} (h : Steps ({ script } : World V) w)
    (hs : ∀ i, w.Shallow i) : ¬Stuck .badWeakPtr w := by
  intro stuck
  cases stuck with
  | @expired _ i during saved below self top impl sweeps unowned =>
    obtain ⟨ht, hl⟩ := h.lifetime (hs i)
    have hdeferred : self.deferred = true := by
      unfold SignalImpl.sweepsNext at sweeps
      rw [Bool.and_eq_true] at sweeps
      exact sweeps.2
    obtain ⟨inner, hsuffix, hany⟩ := hl.released unowned self impl hdeferred
    -- the function below would hold the execution count as well
    have husers := World.users_on top (i := i) (by simp [Frame.execOn])
    have hnil := ht.discipline.counted.alone impl (ht.fits (hs i) self impl) sweeps husers
    rw [top] at hsuffix
    rcases List.suffix_cons_iff.mp hsuffix with heq | hbelow
    · cases (List.cons.inj heq).1
    · obtain ⟨f, hf, hexec⟩ := List.any_eq_true.mp hany
      have hm : f ∈ below.filter (Frame.execOn i) :=
        List.mem_filter.mpr ⟨hbelow.subset (List.mem_cons_of_mem _ hf), hexec⟩
      rw [hnil] at hm
      cases hm

theorem sweeps_shared_disconnected : ¬Stuck .badWeakPtr duringEmission := by
  obtain ⟨script, h⟩ := duringEmission_steps
  apply h.sweeps_shared
  apply World.shallow_of_inRange
  decide +kernel

/-- A function that is suspended on a list which is not shared destroys an element. -/
theorem World.OnTop.destroys (ho : w.OnTop i) {f g : Frame V} {below : List (Frame V)}
    (top : w.frames = g :: below) (unowned : w.owned i = false) (hf : f ∈ below)
    (hexec : f.execOn i = true) : ∃ it n during saved, f = .clear i it (some n) during saved := by
  have hm : f ∈ w.users i := by
    apply List.mem_filter.mpr
    rw [top]
    exact ⟨List.mem_cons_of_mem g hf, hexec⟩
  obtain ⟨it, er, during, saved, rfl⟩ := World.clears_of_unowned unowned hm
  cases er with
  | some n => exact ⟨it, n, during, saved, rfl⟩
  | none =>
    have hnot := ho _ (by rw [top]; exact hf)
    exact absurd ((decide_eq_true rfl : decide (i = i) = true).symm.trans hnot) (by simp)

/-- Where the last pointer to a signal goes while a function runs on its list, this function is
`clear()`, and it is destroying an element. -/
theorem Steps.released_in_clear {script : List (Cmd V)} (h : Steps ({ script } : World V) w)
    (hs : ∀ i, w.Shallow i) (stuck : Stuck .implInUse w) :
    ∃ i it n during saved below, .releasing i :: below <:+ w.frames ∧ w.owned i = false ∧
      .clear i it (some n) during saved ∈ below := by
  cases stuck with
  | @inUse _ i below top unowned busy =>
    obtain ⟨ht, -⟩ := h.lifetime (hs i)
    obtain ⟨f, hf, hexec⟩ := List.any_eq_true.mp busy
    rw [top] at hf
    have hbelow : f ∈ below := by
      rcases List.mem_cons.mp hf with rfl | hbelow
      · cases hexec
      · exact hbelow
    obtain ⟨it, n, during, saved, rfl⟩ := ht.discipline.onTop.destroys top unowned hbelow hexec
    exact ⟨i, it, n, during, saved, below, top ▸ List.suffix_rfl, unowned, hbelow⟩
  | @leftover _ i saved' below self top unowned impl elements =>
    obtain ⟨ht, hl⟩ := h.lifetime (hs i)
    have husers := World.users_on top (i := i) (by simp [Frame.execOn])
    have hlength := hl.within (by simp [impl]) none none saved' (husers ▸ List.mem_cons_self)
    rw [husers, List.length_cons] at hlength
    -- the function that `clear()` was called within
    obtain ⟨f, hf⟩ := List.exists_mem_of_length_pos (by omega :
      0 < ((.releasing i :: below).filter (Frame.execOn i)).length)
    obtain ⟨hm, hexec⟩ := List.mem_filter.mp hf
    have hbelow : f ∈ below := by
      rcases List.mem_cons.mp hm with rfl | hbelow
      · cases hexec
      · exact hbelow
    obtain ⟨it, n, during, saved, rfl⟩ := ht.discipline.onTop.destroys top unowned hm hexec
    exact ⟨i, it, n, during, saved, below, top ▸ List.suffix_cons _ _, unowned, hbelow⟩

/-- The destructor of a functor runs in the middle of a `clear()`. -/
@[irreducible] def duringClear : World Unit :=
  (run 60 [.newSignal, .makeSlot [], .connect 0 (.object 2) false false, .clear 0]).2

theorem duringClear_steps :
    ∃ script, Steps ({ script } : World Unit) duringClear ∧ duringClear.UserPoint := by
  have hstops : stops (run (V := Unit) 60 [.newSignal, .makeSlot [],
    .connect 0 (.object 2) false false, .clear 0]).1 = true := by decide +kernel
  unfold duringClear
  exact (Reachable.of_run hstops).steps

/-- It destroys the only handle of the signal. -/
theorem released_in_clear_dtor : ∃ w : World Unit, Stuck .implInUse w ∧
    ∃ i it n during saved below, .releasing i :: below <:+ w.frames ∧ w.owned i = false ∧
      .clear i it (some n) during saved ∈ below := by
  obtain ⟨script, h, user⟩ := duringClear_steps
  have hvalue : (SignalBase.dropHandle 0 duringClear).1.value = some (some 3) := by decide +kernel
  have hsteps := h.tail (.signal (.dropHandle user.calm (run_of_value hvalue)))
  have top : (SignalBase.dropHandle 0 duringClear).2.frames = .releasing 3 :: duringClear.frames := by
    obtain ⟨hold, hgo⟩ := SignalBase.dropHandle_effect (run_of_value hvalue)
    obtain ⟨-, hw⟩ := SignalBase.letGo_effect hgo
    rw [hw]
    exact World.letGo_frames _ 3
  have stuck := Stuck.inUse top (by decide +kernel) (by decide +kernel)
  exact ⟨_, stuck, hsteps.released_in_clear (World.shallow_of_inRange (by decide +kernel)) stuck⟩

end Sigc
