import Sigc.Iterators

/-!
# What `clear()` removes

Outside emission, `clear()` disconnects all slots and erases them; within emission, it disconnects
them, and they are erased when the first of the functions on the list has ended.
-/

namespace Sigc

open Reasoning Prog

variable {V : Type} {w w' : World V} {i : Addr} {n : SlotAddr} {self self' : SignalImpl}

namespace World

/-- A `clear()` of the list `i` is at an element from which it is going to reach `n`. -/
def Reaches (w : World V) (i : Addr) (l : List SlotAddr) (n : SlotAddr) : Prop :=
  ∃ c during saved, .clear i (some c) none during saved ∈ w.users i ∧ Ahead l c n

/-- An element `n` of the list `i` has been disconnected, or `clear()` is going to disconnect it. -/
def Doomed (w : World V) (i : Addr) (n : SlotAddr) : Prop :=
  ∀ self, w.impls i = some self → n ∈ self.slots → ∃ r rep, w.Entry i n r ∧ w.reps r = some rep ∧
    .deleting r ∉ w.frames ∧ (rep.parent = none ∨ rep.call = true ∧ w.Reaches i self.slots n)

end World

theorem UseStep.reaches (h : UseStep w w' i self self') (ho : w.OnTop i)
    (nodup : self.slots.Nodup) (connected : ¬w.Disconnected n)
    (hr : w.Reaches i self.slots n) : w'.Reaches i self'.slots n := by
  obtain ⟨c, during, saved, hf, ha⟩ := hr
  have hclears : Frame.clears i (.clear i (some c) none during saved : Frame V) = true :=
    decide_eq_true rfl
  have hidle (idle : w.users i = []) : False := by
    rw [idle] at hf
    cases hf
  cases h with
  | quiet same users => exact ⟨c, during, saved, users ▸ hf, same ▸ ha⟩
  | insert first slots deferred users =>
    refine ⟨c, during, saved, users ▸ hf, ?_⟩
    rw [slots]
    cases first with
    | true => exact ha.cons _
    | false => exact ha.concat _
  | defer slots deferred users => exact ⟨c, during, saved, users ▸ hf, slots ▸ ha⟩
  | restore slots top users => exact ⟨c, during, saved, users ▸ hf, slots ▸ ha⟩
  | erase idle slots users => exact (hidle idle).elim
  | beginClear idle slots users => exact (hidle idle).elim
  | clearWithin slots deferred users =>
    exact ⟨c, during, saved, users ▸ List.mem_cons_of_mem _ hf, slots ▸ ha⟩
  | start slots deferred users =>
    refine ⟨c, during, saved, users ▸ List.mem_cons_of_mem _ hf, ?_⟩
    rw [slots]
    exact ha.concat _
  | @move f g rest moves deferred users users' =>
    obtain rfl := ho.head_users users hf hclears
    generalize self.slots = l at *
    generalize self'.slots = l' at *
    cases moves with
    | @clearNext it it' during saved l next severed =>
      -- The loop of clear() disconnects what it passes, and n is connected still.
      obtain ⟨c', rfl, ha', -⟩ := ha.next nodup next fun heq => connected (heq ▸ severed)
      exact ⟨c', during, saved, users' ▸ List.mem_cons_self, ha'⟩
  | @leave f rest slots deferred last users users' =>
    obtain rfl := ho.head_users users hf hclears
    -- A clear() that leaves has come to the end of its loop.
    rcases last with ⟨saved', heq⟩ | ⟨saved', heq, -⟩ | heq | ⟨m, heq, -⟩ <;> cases heq
  | finish impl slots deferred users users' =>
    cases ho.head_users users hf hclears
  | sweep slots last users users' =>
    exact absurd (ho.head_users users hf hclears).symm (last c none during saved)

namespace World.Discipline

theorem doomed_step (hd : w.Discipline i) (h : Step w w') (hw : Sound w) (bound : w.Fits i)
    {a : Addr} (ha : a < w.next) (doomed : w.Doomed i (.object a)) : w'.Doomed i (.object a) := by
  have hp : Proceeds w w' := Steps.proceeds (.single h) hw
  have hstep := h.entryStep hw
  intro self' impl' hn'
  obtain ⟨self, sl, sl', impl, hn, hsl, hsl', hkeep⟩ := hp.element_before hw impl' ha hn'
  obtain ⟨r, rep, entry, hrep, hdel, hcase⟩ := doomed self impl hn
  obtain ⟨x, hx, hr⟩ := entry.slot
  obtain rfl := Option.some.inj (hsl.symm.trans hx)
  have entry' : w'.Entry i (.object a) r := ⟨⟨self', impl', hn'⟩, sl', hsl', hkeep r hr⟩
  have hdel' : .deleting r ∉ w'.frames := by
    intro hm
    rcases hstep.silences _ hm r rfl with hold | ⟨-, hnone⟩
    · exact hdel hold
    · exact hnone rfl i _ entry
  cases hstep.rep i _ r rep entry hrep with
  | same hsame =>
    refine ⟨r, rep, entry', hsame, hdel', hcase.imp_right fun ⟨hcall, hreaches⟩ => ⟨hcall, ?_⟩⟩
    have huse := h.listStep.useStep hw.toWellAddressed hd.counted (bound self impl) impl impl'
    refine huse.reaches hd.onTop (hw.linked.nodup i self impl) ?_ hreaches
    intro hdis
    rw [hdis sl i r rep hsl (entry.holder hw.linked hsl hr).2.1 hr hrep] at hcall
    cases hcall
  | deleted frame hnone => exact absurd frame hdel
  | detached frame hrep' hparent hoff =>
    rcases hcase with hnone | ⟨hcall, -⟩
    · exact ⟨r, _, entry', hrep', hdel', .inl (hparent.trans hnone)⟩
    · rw [hd.silences _ frame r rfl rep hrep] at hcall
      cases hcall
  | severed hrep' hparent hoff log awaits => exact ⟨r, _, entry', hrep', hdel', .inl hparent⟩

end World.Discipline

end Sigc
