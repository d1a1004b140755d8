import Sigc.Depth

/-!
# Iterators

All functions that go through the list of a signal hold an iterator, while they call code that may
change the list.  None of these iterators is ever invalidated.
-/

namespace Sigc

open Reasoning Prog

variable {V : Type} {w w' : World V} {i : Addr} {self self' : SignalImpl}

/-- The iterator of a function, unless it is `end()`. -/
def Frame.iterator : Frame V → Option SlotAddr
  | .emission e => some e.it
  | .sweep _ it _ | .clear _ it _ _ _ => it
  | _ => none

/-- The iterators of the functions on a list are at its elements. -/
def World.Iterators (w : World V) (i : Addr) : Prop :=
  ∀ self, w.impls i = some self → ∀ f ∈ w.users i, ∀ c, f.iterator = some c → c ∈ self.slots

/-- The iterator of an emission stays between the slots that it has found and its placeholder. -/
theorem World.Traversed.iterator (ht : w.Traversed i) (impl : w.impls i = some self)
    {e : Emission V} (he : .emission e ∈ w.users i) : e.it ∈ self.slots := by
  obtain ⟨x, hx, hspan⟩ := ht.spans e he
  obtain rfl := Option.some.inj (hx.symm.trans impl)
  obtain ⟨passed, rest, hrange, -⟩ := (ht.progress e he).position
  apply hspan.subset
  rw [hrange]
  exact List.mem_append_right _ List.mem_cons_self

theorem following_ne {l : List SlotAddr} {x y : SlotAddr} (nodup : l.Nodup)
    (next : following x l = some (some y)) : y ≠ x := by
  induction l with
  | nil => cases next
  | cons z zs ih =>
    obtain ⟨hz, hzs⟩ := List.nodup_cons.mp nodup
    unfold following at next
    split at next
    · rename_i heq
      rw [← heq]
      rintro rfl
      exact hz (List.mem_of_head? (Option.some.inj next))
    · exact ih hzs next

/-- The function on top goes on with an iterator at an element. -/
theorem Frame.Moves.iterator {f g : Frame V} {l l' : List SlotAddr} (h : Frame.Moves i w f l g l')
    (nodup : l.Nodup) (hg : ∀ e, g ≠ .emission e) (hf : ∀ c, f.iterator = some c → c ∈ l)
    {c : SlotAddr} (hc : g.iterator = some c) : c ∈ l' := by
  cases h with
  | emit placeholder => exact absurd rfl (hg _)
  | @clearNext it it' during saved l next severed =>
    obtain rfl : it' = some c := hc
    exact following_mem next
  | clearErase => cases hc
  | clearErased => cases hc
  | @sweepSkip it it' l next keep =>
    obtain rfl : it' = some c := hc
    exact following_mem next
  | @sweepErase it it' l next empty =>
    obtain rfl : it' = some c := hc
    exact (List.mem_erase_of_ne (following_ne nodup next)).mpr (following_mem next)
  | sweepErased => exact hf c hc

theorem UseStep.iterators (h : UseStep w w' i self self') (hd : w.Discipline i) (hw : Sound w)
    (hdepth : w.Depth i) (impl : w.impls i = some self)
    (hi : ∀ f ∈ w.users i, ∀ c, f.iterator = some c → c ∈ self.slots) {f : Frame V}
    (hf : f ∈ w'.users i) (hne : ∀ e, f ≠ .emission e) {c : SlotAddr} (hc : f.iterator = some c) :
    c ∈ self'.slots := by
  cases h with
  | quiet same users =>
    rw [same]
    exact hi f (users ▸ hf) c hc
  | insert first slots deferred users =>
    have hm := hi f (users ▸ hf) c hc
    rw [slots]
    cases first with
    | true => exact List.mem_cons_of_mem _ hm
    | false => exact List.mem_append_left _ hm
  | defer slots deferred users =>
    rw [slots]
    exact hi f (users ▸ hf) c hc
  | restore slots top users =>
    rw [slots]
    exact hi f (users ▸ hf) c hc
  | erase idle slots users =>
    rw [users, List.mem_singleton] at hf
    subst hf
    cases hc
  | beginClear idle slots users =>
    rw [users, List.mem_singleton] at hf
    subst hf
    rw [slots]
    exact List.mem_of_head? hc
  | clearWithin slots deferred users =>
    rw [slots]
    rw [users] at hf
    rcases List.mem_cons.mp hf with rfl | hf
    · exact List.mem_of_head? hc
    · exact hi f hf c hc
  | start slots deferred users =>
    rw [slots]
    rw [users] at hf
    rcases List.mem_cons.mp hf with rfl | hf
    · exact absurd rfl (hne _)
    · exact List.mem_append_left _ (hi f hf c hc)
  | @move g g' rest moves deferred users users' =>
    rw [users'] at hf
    rcases List.mem_cons.mp hf with rfl | hf
    · exact moves.iterator (hw.linked.nodup i self impl) hne
        (fun c hc => hi g (users ▸ List.mem_cons_self) c hc) hc
    · have hm := hi f (users ▸ List.mem_cons_of_mem g hf) c hc
      rcases moves.slots_eq with herases | hslots
      · rw [hd.stacked self impl g rest (users ▸ List.suffix_rfl) herases] at hf
        cases hf
      · rwa [hslots]
  | @leave g rest slots deferred last users users' =>
    rw [users'] at hf
    rw [slots]
    exact hi f (users ▸ List.mem_cons_of_mem g hf) c hc
  | @finish e rest himpl slots deferred users users' =>
    rw [users'] at hf
    have hm : f ∈ w.users i := users ▸ List.mem_cons_of_mem _ hf
    -- no function but an emission has its iterator at a placeholder
    have hobject : f.cursor = some c → c ≠ e.placeholder := by
      intro hcur heq
      obtain ⟨a, rfl⟩ := hd.cursors self impl f hm c hcur
      have he : .emission e ∈ w.frames :=
        (List.mem_filter.mp (users ▸ List.mem_cons_self : Frame.emission e ∈ w.users i)).1
      obtain ⟨d, hd⟩ := hw.linked.emitting _ _ (List.mem_map.mpr ⟨_, he, rfl⟩)
      rw [hd] at heq
      cases heq
    have hkeep : c ≠ e.placeholder := by
      cases f with
      | emission e₁ => exact absurd rfl (hne e₁)
      | sweep j it er => exact hobject hc
      | clear j it er during saved =>
        cases during with
        | false => exact hobject hc
        | true =>
          obtain rfl : j = i := of_decide_eq_true (List.mem_filter.mp hm).2
          obtain rfl := hdepth.within (by simp [impl]) it er saved hm
          cases hd.onTop.head_users users hm (decide_eq_true rfl)
      | _ => cases hc
    rw [slots]
    exact (List.mem_erase_of_ne hkeep).mpr (hi f hm c hc)
  | sweep slots last users users' =>
    rw [users', List.mem_singleton] at hf
    subst hf
    exact List.mem_of_head? hc

theorem World.Iterators.step (hi : w.Iterators i) (h : Step w w') (hw : Sound w)
    (hd : w.Discipline i) (ht : w.Traversed i) (hdepth : w.Depth i) (bound : w.Fits i) :
    w'.Iterators i := by
  intro self' impl' f hf c hc
  by_cases hne : ∃ e, f = .emission e
  · obtain ⟨e, rfl⟩ := hne
    obtain rfl := Option.some.inj hc
    exact (ht.step hd h hw bound).iterator impl' hf
  · cases impl : w.impls i with
    | none =>
      rw [(h.listStep.created hw.toWellAddressed impl impl').2] at hf
      cases hf
    | some self =>
      have huse := h.listStep.useStep hw.toWellAddressed hd.counted (bound self impl) impl impl'
      exact huse.iterators hd hw hdepth impl (hi self impl) hf (fun e he => hne ⟨e, he⟩) hc

end Sigc
