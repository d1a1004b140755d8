import Sigc.Elements
import Sigc.Reasoning.Subscribers

/-!
# The way of an emission through its list

The slots that an emission finds in its list stay there until it ends, in the same order and with
its placeholder right behind them, whatever the slots do that it calls: they may connect and
disconnect slots, clear the list and emit the signal themselves.  So the iterator of the emission
meets each of those slots once, and no other one.
-/

namespace Sigc

open Reasoning Prog

variable {V : Type} {w w' : World V} {i : Addr} {self self' : SignalImpl} {e e' : Emission V}

namespace Emission

/-- What the emission has to go through: the slots that it has found, and its placeholder. -/
def range (e : Emission V) : List SlotAddr := e.snapshot ++ [e.placeholder]

/-- How far the emission has come. -/
structure Progress (e : Emission V) : Prop where
  position : ∃ passed rest, e.range = passed ++ e.it :: rest ∧
    e.reached.map Prod.fst = if e.phase = .arrived then passed else passed ++ [e.it]
  inside : e.phase ≠ .arrived → e.it ≠ e.placeholder
  called : e.called = (e.reached.filter Prod.snd).map Prod.fst
  results : e.results.length + (if e.phase = .invoking then 1 else 0) = e.called.length

/-- What an emission has done when it is over: at its end, it has reached each slot that it has
found once and in order, and no other slot; where a slot has thrown an exception, it has not gone
further.  It has called the slots that could be called when they were reached. -/
structure Contract (e : Emission V) (completed : Bool) : Prop where
  once : e.snapshot.Nodup
  reached : if completed then e.reached.map Prod.fst = e.snapshot
    else e.reached.map Prod.fst <+: e.snapshot
  called : e.called = (e.reached.filter Prod.snd).map Prod.fst
  results : e.results.length + (if completed then 0 else 1) = e.called.length

theorem Moves.range_eq (h : e.Moves w e') : e'.range = e.range := by
  cases h <;> rfl

theorem Moves.impl_eq (h : e.Moves w e') : e'.impl = e.impl := by
  cases h <;> rfl

/-- `++it` leads from one slot of the range to the next. -/
theorem range_next {passed rest : List SlotAddr} (hspan : e.range <:+: self.slots)
    (nodup : self.slots.Nodup) (hrange : e.range = passed ++ e.it :: rest)
    (hne : e.it ≠ e.placeholder) :
    ∃ it rest', rest = it :: rest' ∧ following e.it self.slots = some (some it) := by
  obtain ⟨before, after, hslots⟩ := hspan
  rw [hrange] at hslots
  have hsplit : self.slots = (before ++ passed) ++ e.it :: (rest ++ after) := by
    rw [← hslots]
    simp
  have hit : e.it ∉ before ++ passed := by
    rw [hsplit] at nodup
    intro hm
    exact (List.nodup_append.mp nodup).2.2 _ hm _ List.mem_cons_self rfl
  rw [hsplit, following_split hit]
  cases rest with
  | nil =>
    -- the placeholder comes last
    have hlast := congrArg List.getLast? hrange
    rw [range, List.getLast?_concat, List.getLast?_append_of_ne_nil _ (by simp)] at hlast
    exact absurd (Option.some.inj hlast).symm hne
  | cons x rest' => exact ⟨x, rest', rfl, rfl⟩

theorem following_range {passed rest : List SlotAddr} {it : SlotAddr}
    (hspan : e.range <:+: self.slots) (nodup : self.slots.Nodup)
    (hrange : e.range = passed ++ e.it :: rest) (hne : e.it ≠ e.placeholder)
    (next : following e.it self.slots = some (some it)) : ∃ rest', rest = it :: rest' := by
  obtain ⟨x, rest', rfl, hx⟩ := range_next hspan nodup hrange hne
  rw [next] at hx
  obtain rfl := Option.some.inj (Option.some.inj hx)
  exact ⟨rest', rfl⟩

theorem Moves.progress (h : e.Moves w e') (hp : e.Progress) (impl : w.impls e.impl = some self)
    (hspan : e.range <:+: self.slots) (nodup : self.slots.Nodup) : e'.Progress := by
  obtain ⟨passed, rest, hrange, hreached⟩ := hp.position
  cases h with
  | @skip x it' inside arrived uncallable himpl next =>
    obtain rfl := Option.some.inj (impl.symm.trans himpl)
    obtain ⟨rest', rfl⟩ := following_range hspan nodup hrange inside next
    -- An element that is not called is passed.
    rw [if_pos arrived] at hreached
    refine ⟨⟨passed ++ [e.it], rest', ?_, ?_⟩, fun h => absurd arrived h, ?_, ?_⟩
    · show e.range = _
      rw [hrange]
      simp
    · simp [arrived, hreached]
    · simp [hp.called]
    · exact hp.results
  | @beginCall r inside arrived callable =>
    -- The call begins: the iterator stays, and the element counts as reached from now on.
    rw [if_pos arrived] at hreached
    have hresults := hp.results
    refine ⟨⟨passed, rest, hrange, ?_⟩, fun _ => inside, ?_, ?_⟩
    · simp [hreached]
    · simp [hp.called]
    · simp [arrived] at hresults ⊢
      exact hresults
  | @endCall v invoking =>
    -- The call returns: its result is kept, and the iterator stays.
    rw [if_neg (by simp [invoking])] at hreached
    have hresults := hp.results
    refine ⟨⟨passed, rest, hrange, ?_⟩, fun _ => hp.inside (by simp [invoking]), hp.called, ?_⟩
    · simp [hreached]
    · simp [invoking] at hresults ⊢
      exact hresults
  | @advance x it' invoked himpl next =>
    -- The iterator goes on from the element that has been called.
    obtain rfl := Option.some.inj (impl.symm.trans himpl)
    have hne := hp.inside (by simp [invoked])
    obtain ⟨rest', rfl⟩ := following_range hspan nodup hrange hne next
    rw [if_neg (by simp [invoked])] at hreached
    have hresults := hp.results
    refine ⟨⟨passed ++ [e.it], rest', ?_, ?_⟩, fun h => absurd rfl h, hp.called, ?_⟩
    · show e.range = _
      rw [hrange]
      simp
    · simp [hreached]
    · simp [invoked] at hresults ⊢
      exact hresults

/-- An emission that has just started. -/
theorem Progress.start {placeholder : SlotAddr} (new : e = {
    impl := e.impl, placeholder, it := self.slots.headD placeholder, snapshot := self.slots }) :
    e.Progress := by
  rw [new]
  refine ⟨?_, fun h => absurd rfl h, rfl, rfl⟩
  cases hslots : self.slots with
  | nil => exact ⟨[], [], by simp [range], rfl⟩
  | cons x xs => exact ⟨[], xs ++ [placeholder], by simp [range], rfl⟩

theorem Progress.contract {completed : Bool} (hp : e.Progress) (hover : e.Over completed)
    (nodup : e.range.Nodup) : e.Contract completed := by
  obtain ⟨passed, rest, hrange, hreached⟩ := hp.position
  have hresults := hp.results
  have hnodup : e.snapshot.Nodup := (List.nodup_append.mp nodup).1
  cases completed with
  | true =>
    obtain ⟨hit, arrived⟩ : e.it = e.placeholder ∧ e.phase = .arrived := hover
    rw [if_pos arrived] at hreached
    refine ⟨hnodup, ?_, hp.called, ?_⟩
    · -- nothing comes after the placeholder
      have hrest : rest = [] := by
        by_contra hne
        have hlast := congrArg List.getLast? hrange
        obtain ⟨x, hx⟩ := List.getLast?_isSome.mpr hne |> Option.isSome_iff_exists.mp
        rw [range, List.getLast?_concat, List.getLast?_append_of_ne_nil _ (by simp),
          List.getLast?_cons_of_ne_nil hne, hx] at hlast
        rw [hrange] at nodup
        have hm : e.it ∈ rest := by
          rw [hit, Option.some.inj hlast]
          exact List.mem_of_getLast? hx
        exact (List.nodup_cons.mp (List.nodup_append.mp nodup).2.1).1 hm
      rw [hrest, hit, range] at hrange
      rw [if_pos rfl, hreached]
      exact (List.append_cancel_right hrange).symm
    · simpa [arrived] using hresults
  | false =>
    have invoking : e.phase = .invoking := hover
    rw [if_neg (by simp [invoking])] at hreached
    refine ⟨hnodup, ?_, hp.called, ?_⟩
    -- A handler has thrown: the rest of the snapshot lies between the iterator and the placeholder.
    · rw [if_neg (by simp), hreached]
      rcases List.eq_nil_or_concat rest with rfl | ⟨rest', x, rfl⟩
      · have hlast := congrArg List.getLast? hrange
        rw [range, List.getLast?_concat, List.getLast?_concat] at hlast
        exact absurd (Option.some.inj hlast).symm (hp.inside (by simp [invoking]))
      · rw [range, List.concat_eq_append, ← List.cons_append, ← List.append_assoc] at hrange
        have hsnapshot := List.append_inj_left' hrange rfl
        exact ⟨rest', by rw [hsnapshot]; simp⟩
    · simpa [invoking] using hresults

end Emission

/-! ## Nested emissions -/

/-- An emission that is called from another one has a placeholder of its own. -/
def Frame.Above (f g : Frame V) : Prop :=
  ∀ e e', f = .emission e → g = .emission e' → e.placeholder ∉ e'.range

theorem Frame.Above.of_not_emission {f : Frame V} (h : ∀ e, f ≠ .emission e) (g : Frame V) :
    f.Above g :=
  fun e _ he _ => absurd he (h e)

/-- What is known of the emissions of a list at every point of a run. -/
structure World.Traversed (w : World V) (i : Addr) : Prop where
  /-- no slot that an emission has to go through has been erased, or moved -/
  spans : ∀ e, .emission e ∈ w.users i → ∃ self, w.impls i = some self ∧ e.range <:+: self.slots
  nested : (w.users i).Pairwise Frame.Above
  progress : ∀ e, .emission e ∈ w.users i → e.Progress
  finished : ∀ e completed, (e, completed) ∈ w.finished → e.impl = i → e.Contract completed

theorem World.emission_user (he : .emission e ∈ w.frames) : .emission e ∈ w.users e.impl :=
  List.mem_filter.mpr ⟨he, by simp [Frame.execOn]⟩

theorem World.impl_of_user (he : .emission e ∈ w.users i) : e.impl = i :=
  of_decide_eq_true (List.mem_filter.mp he).2

/-- A list keeps the slots that an emission has to go through. -/
theorem UseStep.spans (h : UseStep w w' i self self') (hs : Stacked (w.users i))
    (hn : (w.users i).Pairwise Frame.Above) (he : .emission e ∈ w.users i)
    (he' : .emission e ∈ w'.users i) (hspan : e.range <:+: self.slots) :
    e.range <:+: self'.slots := by
  cases h with
  | quiet same users => rwa [same]
  | insert first slots deferred users =>
    rw [slots]
    cases first with
    | true => exact hspan.trans (List.suffix_cons _ _).isInfix
    | false => exact hspan.trans (List.prefix_append _ _).isInfix
  | defer slots deferred users => rwa [slots]
  | restore slots top users => rwa [slots]
  | erase idle slots users =>
    rw [idle] at he
    cases he
  | beginClear idle slots users => rwa [slots]
  | clearWithin slots deferred users => rwa [slots]
  | start slots deferred users =>
    -- The placeholder of the inner emission, the only element that goes, is not in this emission's
    -- range.
    rw [slots]
    exact hspan.trans (List.prefix_append _ _).isInfix
  | @move f g rest moves deferred users users' =>
    rcases moves.slots_eq with herases | hslots
    · -- the emission would not be the only function on the list
      rw [users, hs f rest (users ▸ List.suffix_rfl) herases, List.mem_singleton] at he
      rw [← he] at herases
      cases herases
    · rwa [hslots]
  | leave slots deferred last users users' => rwa [slots]
  | @finish e₁ rest impl slots deferred users users' =>
    rw [users] at hn
    rw [users'] at he'
    rw [slots]
    exact infix_erase hspan ((List.pairwise_cons.mp hn).1 _ he' e₁ e rfl rfl)
  | sweep slots last users users' =>
    rw [users', List.mem_singleton] at he'
    cases he'

theorem UseStep.nested (h : UseStep w w' i self self') (nodup : self'.slots.Nodup)
    (hspans : ∀ e, .emission e ∈ w.users i → e.range <:+: self.slots)
    (hn : (w.users i).Pairwise Frame.Above) : (w'.users i).Pairwise Frame.Above := by
  cases h with
  | quiet same users => rwa [users]
  | insert first slots deferred users => rwa [users]
  | defer slots deferred users => rwa [users]
  | restore slots top users => rwa [users]
  | erase idle slots users =>
    rw [users]
    exact List.pairwise_singleton _ _
  | beginClear idle slots users =>
    rw [users]
    exact List.pairwise_singleton _ _
  | clearWithin slots deferred users =>
    rw [users]
    exact List.pairwise_cons.mpr ⟨fun g _ => .of_not_emission (by simp) g, hn⟩
  | @start e₁ slots deferred users =>
    rw [users]
    refine List.pairwise_cons.mpr ⟨fun g hg e e' he he' hm => ?_, hn⟩
    -- the new placeholder would be in the list twice
    subst he'
    obtain rfl := Frame.emission.inj he
    rw [slots] at nodup
    exact (List.nodup_append.mp nodup).2.2 _ ((hspans e' hg).subset hm) _
      (List.mem_singleton_self _) rfl
  | @move f g rest moves deferred users users' =>
    rw [users] at hn
    rw [users']
    obtain ⟨habove, hrest⟩ := List.pairwise_cons.mp hn
    refine List.pairwise_cons.mpr ⟨fun f' hf' e e' he he' => ?_, hrest⟩
    subst he
    generalize self.slots = l at *
    generalize self'.slots = l' at *
    cases moves with
    | @emit e₀ e₁ l placeholder =>
      rw [placeholder]
      exact habove f' hf' e₀ e' rfl he'
  | leave slots deferred last users users' =>
    rw [users] at hn
    rw [users']
    exact (List.pairwise_cons.mp hn).2
  | finish impl slots deferred users users' =>
    rw [users] at hn
    rw [users']
    exact (List.pairwise_cons.mp hn).2
  | sweep slots last users users' =>
    rw [users']
    exact List.pairwise_singleton _ _

namespace World.Traversed

theorem spans_step (ht : w.Traversed i) (hd : w.Discipline i) (h : Step w w') (hw : Sound w)
    (bound : w.Fits i) (he : .emission e ∈ w'.users i) :
    ∃ self, w'.impls i = some self ∧ e.range <:+: self.slots := by
  have himpl := World.impl_of_user he
  rcases (h.entryStep hw).emissions e (List.mem_filter.mp he).1 with
    hold | ⟨e₀, below, top, -, impls, moves⟩ | ⟨self, self', -, impl', slots, -, -, new⟩
  · have he₀ := World.emission_user hold
    rw [himpl] at he₀
    obtain ⟨self, impl, hspan⟩ := ht.spans e he₀
    cases impl' : w'.impls i with
    | none =>
      rw [(h.listStep.disposed impl impl').2] at he
      cases he
    | some self' =>
      have huse := h.listStep.useStep hw.toWellAddressed hd.counted (bound self impl) impl impl'
      exact ⟨self', rfl, huse.spans (hd.stacked self impl) ht.nested he₀ he hspan⟩
  · have he₀ : .emission e₀ ∈ w.users i := by
      rw [← himpl, moves.impl_eq]
      exact World.emission_user (top ▸ List.mem_cons_self)
    rw [impls, moves.range_eq]
    exact ht.spans e₀ he₀
  · rw [himpl] at impl'
    refine ⟨self', impl', ?_⟩
    rw [slots, Emission.range, new]

theorem progress_step (ht : w.Traversed i) (h : Step w w') (hw : Sound w)
    (he : .emission e ∈ w'.users i) : e.Progress := by
  have himpl := World.impl_of_user he
  rcases (h.entryStep hw).emissions e (List.mem_filter.mp he).1 with
    hold | ⟨e₀, below, top, -, impls, moves⟩ | ⟨self, self', -, -, -, -, -, new⟩
  · exact ht.progress e (himpl ▸ World.emission_user hold)
  · have hi : e₀.impl = i := moves.impl_eq ▸ himpl
    have he₀ : .emission e₀ ∈ w.users i := hi ▸ World.emission_user (top ▸ List.mem_cons_self)
    obtain ⟨self, impl, hspan⟩ := ht.spans e₀ he₀
    exact moves.progress (ht.progress e₀ he₀) (hi ▸ impl) hspan (hw.linked.nodup i self impl)
  · exact .start new

/-- The emissions of the list go on as they must. -/
theorem step (ht : w.Traversed i) (hd : w.Discipline i) (h : Step w w') (hw : Sound w)
    (bound : w.Fits i) : w'.Traversed i where
  spans e he := ht.spans_step hd h hw bound he
  nested := by
    cases impl' : w'.impls i with
    | none =>
      have hnone : ∀ f ∈ w'.users i, ∀ e, f ≠ .emission e := by
        rintro f hf e rfl
        obtain ⟨self, impl, -⟩ := ht.spans_step hd h hw bound hf
        rw [impl'] at impl
        cases impl
      exact List.pairwise_of_forall_mem_list fun f hf g _ => .of_not_emission (hnone f hf) g
    | some self' =>
      cases impl : w.impls i with
      | none =>
        rw [(h.listStep.created hw.toWellAddressed impl impl').2]
        exact .nil
      | some self =>
        have huse := h.listStep.useStep hw.toWellAddressed hd.counted (bound self impl) impl impl'
        refine huse.nested ((h.sound hw).linked.nodup i self' impl') (fun e he => ?_) ht.nested
        obtain ⟨x, hx, hspan⟩ := ht.spans e he
        obtain rfl := Option.some.inj (hx.symm.trans impl)
        exact hspan
  progress e he := ht.progress_step h hw he
  finished e completed hm himpl := by
    rcases (h.entryStep hw).finished with hsame | ⟨e₀, below, c, top, hover, hcons⟩
    · exact ht.finished e completed (hsame ▸ hm) himpl
    · rw [hcons] at hm
      rcases List.mem_cons.mp hm with heq | hm
      · obtain ⟨rfl, rfl⟩ := Prod.mk.inj heq
        have he : .emission e ∈ w.users i := himpl ▸ World.emission_user (top ▸ List.mem_cons_self)
        obtain ⟨self, impl, hspan⟩ := ht.spans e he
        exact (ht.progress e he).contract hover
          ((hw.linked.nodup i self impl).sublist hspan.sublist)
      · exact ht.finished e completed hm himpl

end World.Traversed

end Sigc
