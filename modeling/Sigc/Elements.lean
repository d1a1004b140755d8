import Sigc.Clearing

/-!
# The elements of a list along a run

What is known of the elements of one list at every point of a run, as long as fewer than `2 ^ 15`
functions run on the list at once: which of them can be called, which of them wait for their
removal, and by whom they are going to be removed.
-/

namespace Sigc

open Reasoning Prog

variable {V : Type} {w w' : World V} {i : Addr} {n : SlotAddr} {r : Addr}
  {self self' : SignalImpl}

namespace World

/-- A rep that is being invalidated or deleted cannot be called. -/
def Silences (w : World V) : Prop := ∀ f ∈ w.frames, ∀ q, f.silences = some q → w.Silent q

/-- The elements of `i` are slots with reps, and placeholders. -/
def AllFilled (w : World V) (i : Addr) : Prop :=
  ∀ self a, w.impls i = some self → .object a ∈ self.slots → w.Filled (.object a)

/-- An element that can be called has a parent, which is going to be told when it cannot be called
any more. -/
def Parented (w : World V) (i : Addr) : Prop :=
  ∀ n r rep, w.Entry i n r → w.reps r = some rep → rep.call = true → rep.parent ≠ none

/-- A disconnected element waits for its removal. -/
def AllAwait (w : World V) (i : Addr) : Prop :=
  w.owned i = true → ∀ self n r rep, w.impls i = some self → w.Entry i n r →
    w.reps r = some rep → rep.parent = none → w.Awaits i self n

/-- A `clear()` outside emission has disconnected what its iterator has passed. -/
def Cleared (w : World V) (i : Addr) : Prop :=
  ∀ self it er saved, w.impls i = some self → .clear i it er false saved ∈ w.users i →
    ∀ n ∈ self.slots, w.Disconnected n ∨ ∃ c, it = some c ∧ Ahead self.slots c n

end World

/-! ## Elements before and after a step -/

/-- An element that has not been created in between has been there before, with the rep that it had
then. -/
theorem Proceeds.element_before (h : Proceeds w w') (hw : Sound w) (impl' : w'.impls i = some self')
    {a : Addr} (ha : a < w.next) (hn : .object a ∈ self'.slots) :
    ∃ self sl sl', w.impls i = some self ∧ .object a ∈ self.slots ∧
      w.slots (.object a) = some sl ∧ w'.slots (.object a) = some sl' ∧
        ∀ r, sl.rep = some r → sl'.rep = some r := by
  obtain ⟨sl', hsl', howner', hdying'⟩ := h.sound.linked.element i self' _ impl' hn
  obtain ⟨sl, hsl, howner, hdying, hrep⟩ := h.extension.slots.old ha hsl'
  have hlist : sl.owner = .list i := howner.symm.trans howner'
  have halive : sl.dying = false := by
    by_contra hd
    rw [Bool.not_eq_false] at hd
    rw [(hdying hd).1] at hdying'
    cases hdying'
  obtain ⟨self, himpl, hm⟩ := hw.linked.listed i _ sl hsl hlist halive
  exact ⟨self, sl, sl', himpl, hm, hsl, hsl', fun r hr => hrep i r hlist hr⟩

/-- An entry has been there before, or its slot has just been connected. -/
theorem Proceeds.entry_before (h : Proceeds w w') (hw : Sound w) (hf : w.AllFilled i)
    (entry : w'.Entry i n r) : w.Entry i n r ∨ ∃ a, n = .object a ∧ w.next ≤ a := by
  obtain ⟨self', impl', hn⟩ := entry.listed
  obtain ⟨x, hx, hxr⟩ := entry.slot
  cases n with
  | placeholder d =>
    obtain ⟨hnone, -⟩ := h.sound.placeholder d x hx
    rw [hnone] at hxr
    cases hxr
  | object a =>
    by_cases ha : a < w.next
    · obtain ⟨self, sl, sl', himpl, hm, hsl, hsl', hrep⟩ := h.element_before hw impl' ha hn
      obtain ⟨y, q, hy, hq⟩ := hf self a himpl hm
      rw [hsl] at hy
      obtain rfl := Option.some.inj hy
      rw [hx] at hsl'
      obtain rfl := Option.some.inj hsl'
      have heq := hrep q hq
      rw [hxr] at heq
      obtain rfl := Option.some.inj heq
      exact .inl ⟨⟨self, himpl, hm⟩, sl, hsl, hq⟩
    · exact .inr ⟨a, rfl, Nat.not_lt.mp ha⟩

/-- The rep of an entry that is alive was alive before. -/
theorem Proceeds.rep_before (h : Proceeds w w') (hw : Sound w) (entry : w.Entry i n r)
    {rep' : SlotRep} (hr : w'.reps r = some rep') :
    ∃ rep, w.reps r = some rep ∧ (rep'.call = true → rep.call = true) := by
  obtain ⟨rep, hrep, hcall, -⟩ := h.extension.reps.old (entry.lt hw.toWellAddressed) hr
  exact ⟨rep, hrep, hcall⟩

namespace EntryStep

/-- An element that has just been connected. -/
theorem entry_fresh (h : EntryStep w w') (hl' : w'.Linked) {a : Addr} (ha : w.next ≤ a)
    (impl' : w'.impls i = some self') (hn : .object a ∈ self'.slots) :
    w.UserPoint ∧ w.frames.any (Frame.destroys i) = false ∧ ∃ sl r rep,
      w'.slots (.object a) = some sl ∧ sl.rep = some r ∧ w'.reps r = some rep ∧
        rep.parent ≠ none := by
  obtain ⟨sl, hsl, howner, -⟩ := hl'.element i self' _ impl' hn
  obtain ⟨huser, hidle, r, rep, hr, hrep, hparent, -⟩ := h.fresh a sl i ha hsl howner
  exact ⟨huser, hidle, sl, r, rep, hsl, hr, hrep, hparent⟩

theorem silences' (h : EntryStep w w') (hw : Sound w) (hp : Proceeds w w') (hs : w.Silences) :
    w'.Silences := by
  intro f hf q hq rep' hrep'
  rcases h.silences f hf q hq with hold | ⟨hcall, -⟩
  · have hlt : q < w.next := by
      have hok := hw.frames f hold
      cases f with
      | invalidating r x => exact Option.some.inj hq ▸ hok.1
      | deleting r => exact Option.some.inj hq ▸ hok
      | _ => cases hq
    obtain ⟨rep, hrep, hcall, -⟩ := hp.extension.reps.old hlt hrep'
    by_contra hc
    rw [Bool.not_eq_false] at hc
    have := hs f hold q hq rep hrep
    rw [hcall hc] at this
    cases this
  · exact hcall rep' hrep'

theorem allFilled (h : EntryStep w w') (hw : Sound w) (hp : Proceeds w w') (hf : w.AllFilled i) :
    w'.AllFilled i := by
  intro self' a impl' hn
  by_cases ha : a < w.next
  · obtain ⟨self, sl, sl', himpl, hm, hsl, hsl', hrep⟩ := hp.element_before hw impl' ha hn
    obtain ⟨y, q, hy, hq⟩ := hf self a himpl hm
    rw [hsl] at hy
    obtain rfl := Option.some.inj hy
    exact ⟨sl', q, hsl', hrep q hq⟩
  · obtain ⟨-, -, sl, q, rep, hsl, hq, -⟩ :=
      h.entry_fresh hp.sound.linked (Nat.not_lt.mp ha) impl' hn
    exact ⟨sl, q, hsl, hq⟩

/-- The rep of an entry has a parent, or it had none before, or it has just been disconnected. -/
theorem parent_before (h : EntryStep w w') (hw : Sound w) (hp : Proceeds w w')
    (hf : w.AllFilled i) (entry : w'.Entry i n r) {rep' : SlotRep} (hr : w'.reps r = some rep') :
    rep'.parent ≠ none ∨ w.Entry i n r ∧ ∃ rep, w.reps r = some rep ∧
      (rep'.call = true → rep.call = true ∧ rep'.parent = rep.parent) ∧
      (rep.parent = none ∨ rep'.parent = none ∧ .disconnected r ∈ w'.log ∧
        (w.owned i = false ∨ ∃ self', w'.impls i = some self' ∧ self'.deferred = true)) := by
  rcases hp.entry_before hw hf entry with hold | ⟨a, rfl, ha⟩
  · obtain ⟨rep, hrep, hcall⟩ := hp.rep_before hw hold hr
    by_cases hparent : rep'.parent = none
    · refine .inr ⟨hold, rep, hrep, ?_⟩
      cases h.rep i n r rep hold hrep with
      | same hsame =>
        rw [hr] at hsame
        obtain rfl := Option.some.inj hsame
        exact ⟨fun hc => ⟨hc, rfl⟩, .inl hparent⟩
      | deleted frame hnone =>
        rw [hr] at hnone
        cases hnone
      | detached frame hrep' hsame hc =>
        rw [hr] at hrep'
        obtain rfl := Option.some.inj hrep'
        exact ⟨fun h => absurd (hc.symm.trans h) Bool.false_ne_true, .inl (hsame.symm.trans hparent)⟩
      | severed hrep' hnone hc log awaits =>
        rw [hr] at hrep'
        obtain rfl := Option.some.inj hrep'
        refine ⟨fun h => absurd (hc.symm.trans h) Bool.false_ne_true, ?_⟩
        -- Where the rep has been disconnected by this step, its element waits for the removal.
        rcases awaits with hold | hunowned | hdeferred | hgone
        · exact .inl hold
        · exact .inr ⟨hparent, log, .inl hunowned⟩
        · exact .inr ⟨hparent, log, .inr hdeferred⟩
        -- A new entry has just been connected: its parent is the record.
        · obtain ⟨self', impl', hn⟩ := entry.listed
          exact absurd hn (hgone self' impl')
    · exact .inl hparent
  · obtain ⟨self', impl', hn⟩ := entry.listed
    obtain ⟨-, -, sl, q, rep, hsl, hq, hrep, hparent⟩ := h.entry_fresh hp.sound.linked ha impl' hn
    obtain ⟨x, hx, hxr⟩ := entry.slot
    rw [hsl] at hx
    obtain rfl := Option.some.inj hx
    obtain rfl := Option.some.inj (hq.symm.trans hxr)
    obtain rfl := Option.some.inj (hrep.symm.trans hr)
    exact .inl hparent

theorem parented (h : EntryStep w w') (hw : Sound w) (hp : Proceeds w w') (hf : w.AllFilled i)
    (hpar : w.Parented i) : w'.Parented i := by
  intro n r rep' entry hr hcall
  rcases h.parent_before hw hp hf entry hr with hparent | ⟨hold, rep, hrep, hsame, -⟩
  · exact hparent
  · obtain ⟨hc, heq⟩ := hsame hcall
    rw [heq]
    exact hpar n r rep hold hrep hc

end EntryStep

/-! ## Elements that wait -/

/-- A step changes no list, or one that is there, or allocates or destroys an empty list on which no
function runs. -/
theorem ListStep.lists (h : ListStep w w') : w'.impls = w.impls ∨
    (∃ j x y, w.impls j = some x ∧ w.Sets w' j y) ∨
    (∃ j, w.next ≤ j ∧ w.Sets w' j {} ∧ w'.holders = w.holders) ∨
    ∃ j x, w.impls j = some x ∧ x.slots = [] ∧ w.frames.any (Frame.execOn j) = false ∧
      w'.impls = Function.update w.impls j none ∧ w'.holders = w.holders := by
  have hset {j : Addr} {x y : SignalImpl} (himpl : w.impls j = some x) (sets : w.Sets w' j y) :
      ∃ j x y, w.impls j = some x ∧ w.Sets w' j y := ⟨j, x, y, himpl, sets⟩
  cases h with
  | quiet impls holders => exact .inl impls
  | insert first user impl sets holders => exact .inr (.inl (hset impl sets))
  | @alloc j fresh sets holders => exact .inr (.inr (.inl ⟨j, fresh, sets, holders⟩))
  | @dispose j x unowned idle impl empty impls holders =>
    exact .inr (.inr (.inr ⟨j, x, impl, empty, idle, impls, holders⟩))
  | defer owned impl executing sets holders => exact .inr (.inl (hset impl sets))
  | erase calm owned impl idle element sets holders => exact .inr (.inl (hset impl sets))
  | enterClear calm impl sets holders => exact .inr (.inl (hset impl sets))
  | clearNext top impl next severed same => exact .inl (by rw [same]; rfl)
  | restoreDeferred top impl same => exact .inr (.inl (hset impl (congrArg World.impls same)))
  | clearErase top impl slots alive same =>
    exact .inr (.inl (hset impl (congrArg World.impls same)))
  | clearErased top gone same => exact .inl (by rw [same]; rfl)
  | leaveClear top impl cleared quiet same =>
    exact .inr (.inl (hset impl (congrArg World.impls same)))
  | leaveClearSweep top impl cleared sweeps same =>
    exact .inr (.inl (hset impl (congrArg World.impls same)))
  | sweepSkip top impl next keep same => exact .inl (by rw [same]; rfl)
  | sweepErase top impl next element empty alive same =>
    exact .inr (.inl (hset impl (congrArg World.impls same)))
  | sweepErased top gone same => exact .inl (by rw [same]; rfl)
  | leaveHolder top holder impl quiet same =>
    exact .inr (.inl (hset impl (congrArg World.impls same)))
  | leaveHolderSweep top holder impl sweeps same =>
    exact .inr (.inl (hset impl (congrArg World.impls same)))
  | start calm owned impl new sets holders => exact .inr (.inl (hset impl sets))
  | emit top impl placeholder it same => exact .inl (by rw [same]; rfl)
  | @finish e below x completed top ends impl element quiet same =>
    refine .inr (.inl (hset (y := { x with
      slots := x.slots.erase e.placeholder, execCount := x.execCount - 1 }) impl ?_))
    rw [same]
    simp [World.Sets, World.setTop, World.decrement, World.erasePlaceholder, World.setImpl,
      World.setSlot]
  | @finishSweep e below x completed top ends impl element sweeps same =>
    refine .inr (.inl (hset (y := { x with
      slots := x.slots.erase e.placeholder, deferred := false }) impl ?_))
    rw [same]
    simp [World.Sets, World.push, World.setTop, World.erasePlaceholder, World.setImpl,
      World.setSlot]

theorem World.users_eq_nil_of_idle (idle : w.frames.any (Frame.execOn i) = false) :
    w.users i = [] := by
  apply List.filter_eq_nil_iff.mpr
  intro f hf hexec
  have hany : w.frames.any (Frame.execOn i) = true := List.any_eq_true.mpr ⟨f, hf, hexec⟩
  rw [idle] at hany
  cases hany

/-- A list that has just been allocated has no elements, and no function runs on it. -/
theorem ListStep.created (h : ListStep w w') (hw : WellAddressed w) (impl : w.impls i = none)
    (impl' : w'.impls i = some self') : self'.slots = [] ∧ w'.users i = [] := by
  rcases h.lists with hsame | ⟨j, x, y, hx, sets⟩ | ⟨j, fresh, sets, holders⟩ |
    ⟨j, x, hx, -, -, impls, -⟩
  · rw [hsame, impl] at impl'
    cases impl'
  · obtain ⟨rfl, -⟩ | ⟨-, hold⟩ := update_eq_some.mp (sets ▸ impl')
    · rw [impl] at hx
      cases hx
    · rw [impl] at hold
      cases hold
  · obtain ⟨rfl, hself⟩ | ⟨-, hold⟩ := update_eq_some.mp (sets ▸ impl')
    · refine ⟨by rw [← Option.some.inj hself], ?_⟩
      rw [World.users_of_holders holders]
      apply List.eq_nil_of_length_eq_zero
      rw [World.length_users]
      exact World.execs_fresh hw fresh
    · rw [impl] at hold
      cases hold
  · obtain ⟨-, hself⟩ | ⟨-, hold⟩ := update_eq_some.mp (impls ▸ impl')
    · cases hself
    · rw [impl] at hold
      cases hold

/-- A list that is destroyed has no elements, and no function runs on it. -/
theorem ListStep.disposed (h : ListStep w w') (impl : w.impls i = some self)
    (impl' : w'.impls i = none) : self.slots = [] ∧ w'.users i = [] := by
  have hset {j : Addr} {y : SignalImpl} (sets : w.Sets w' j y) : False := by
    rw [sets, Function.update_apply] at impl'
    split at impl'
    · cases impl'
    · rw [impl] at impl'
      cases impl'
  rcases h.lists with hsame | ⟨j, x, y, hx, sets⟩ | ⟨j, fresh, sets, holders⟩ |
    ⟨j, x, hx, empty, idle, impls, holders⟩
  · rw [hsame, impl] at impl'
    cases impl'
  · exact (hset sets).elim
  · exact (hset sets).elim
  · by_cases heq : i = j
    · subst heq
      obtain rfl := Option.some.inj (impl.symm.trans hx)
      refine ⟨empty, ?_⟩
      rw [World.users_of_holders holders]
      exact World.users_eq_nil_of_idle idle
    · rw [impls, Function.update_of_ne heq, impl] at impl'
      cases impl'

theorem World.Entry.empty (entry : w.Entry i n r) {rep : SlotRep} (hr : w.reps r = some rep)
    (hcall : rep.call = false) : w.Empty n := by
  obtain ⟨sl, hsl, hsr⟩ := entry.slot
  refine ⟨sl, hsl, fun q hq => ?_⟩
  obtain rfl := Option.some.inj (hsr.symm.trans hq)
  exact ⟨rep, hr, hcall⟩

theorem World.Parented.empty (h : w.Parented i) (entry : w.Entry i n r) {rep : SlotRep}
    (hr : w.reps r = some rep) (hparent : rep.parent = none) : w.Empty n := by
  refine entry.empty hr ?_
  by_contra hc
  rw [Bool.not_eq_false] at hc
  exact h n r rep entry hr hc hparent

/-- What is needed to see how the elements wait. -/
structure World.Discipline (w : World V) (i : Addr) : Prop where
  counted : w.Counted
  onTop : w.OnTop i
  silences : w.Silences
  filled : w.AllFilled i
  parented : w.Parented i
  stacked : ∀ self, w.impls i = some self → Stacked (w.users i)
  cursors : ∀ self, w.impls i = some self → w.Cursors i
  await : w.AllAwait i
  cleared : w.Cleared i

theorem World.Counted.deferred_of_idle (hc : w.Counted) (impl : w.impls i = some self)
    (idle : w.users i = []) : self.deferred = false := by
  apply hc.idle i self impl
  rw [← World.length_users, idle, List.length_nil]

namespace World.Discipline

theorem allAwait (hd : w.Discipline i) (h : Step w w') (hw : Sound w) (hp : Proceeds w w')
    (bound : w.Fits i) : w'.AllAwait i := by
  intro howned self' n r rep' impl' entry hr hparent
  have hstep := h.entryStep hw
  rcases hstep.parent_before hw hp hd.filled entry hr with hne | ⟨hold, rep, hrep, -, hbefore⟩
  · exact absurd hparent hne
  · obtain ⟨self, impl, hn⟩ := hold.listed
    have hlt : i < w.next := hw.impls i self impl
    have howned₀ : w.owned i = true := by
      by_contra hu
      rw [Bool.not_eq_true] at hu
      rw [hp.extension.unowned i hlt hu] at howned
      cases howned
    have huse := h.listStep.useStep hw.toWellAddressed hd.counted (bound self impl) impl impl'
    rcases hbefore with hnone | ⟨-, -, hunowned | ⟨x, hx, hdeferred⟩⟩
    · obtain ⟨x, hx, hn'⟩ := entry.listed
      obtain rfl := Option.some.inj (hx.symm.trans impl')
      exact huse.awaits hw.linked impl (hd.stacked self impl) (hd.cursors self impl)
        (hd.counted.deferred_of_idle impl) hn' (hd.parented.empty hold hrep hnone)
        (hd.await howned₀ self n r rep impl hold hrep hnone)
    · rw [howned₀] at hunowned
      cases hunowned
    · obtain rfl := Option.some.inj (hx.symm.trans impl')
      exact .inl hdeferred

end World.Discipline

/-! ## Elements that `clear()` has passed -/

theorem UseStep.cleared (h : UseStep w w' i self self') (hl : w.Linked)
    (impl : w.impls i = some self) (hs : Stacked (w.users i)) (hc : w.Cursors i)
    (hcl : ∀ it er saved, .clear i it er false saved ∈ w.users i →
      w.Disconnected n ∨ ∃ c, it = some c ∧ Ahead self.slots c n)
    (hn : n ∈ self.slots) (hn' : n ∈ self'.slots) {it er : Option SlotAddr} {saved : Bool}
    (hf : .clear i it er false saved ∈ w'.users i) :
    w.Disconnected n ∨ ∃ c, it = some c ∧ Ahead self'.slots c n := by
  -- the frame was there before
  have hold (hmem : .clear i it er false saved ∈ w.users i)
      (slots : ∀ c, it = some c → Ahead self.slots c n → Ahead self'.slots c n) :
      w.Disconnected n ∨ ∃ c, it = some c ∧ Ahead self'.slots c n := by
    rcases hcl it er saved hmem with hd | ⟨c, hit, ha⟩
    · exact .inl hd
    · exact .inr ⟨c, hit, slots c hit ha⟩
  cases h with
  | quiet same users => exact hold (users ▸ hf) fun c _ h => same ▸ h
  | insert first slots deferred users =>
    refine hold (users ▸ hf) fun c _ ha => ?_
    rw [slots]
    cases first with
    | true => exact ha.cons _
    | false => exact ha.concat _
  | defer slots deferred users => exact hold (users ▸ hf) fun c _ h => slots ▸ h
  | restore slots top users => exact hold (users ▸ hf) fun c _ h => slots ▸ h
  | erase idle slots users =>
    rw [users, List.mem_singleton] at hf
    cases hf
  | beginClear idle slots users =>
    rw [users, List.mem_singleton] at hf
    cases hf
    rw [slots]
    exact .inr (Ahead.head hn)
  | clearWithin slots deferred users =>
    rw [users] at hf
    rcases List.mem_cons.mp hf with heq | hf
    · cases heq
    · exact hold hf fun c _ h => slots ▸ h
  | start slots deferred users =>
    rw [users] at hf
    rcases List.mem_cons.mp hf with heq | hf
    · cases heq
    · refine hold hf fun c _ ha => ?_
      rw [slots]
      exact ha.concat _
  | @move f g rest moves deferred users users' =>
    rw [users'] at hf
    rcases List.mem_cons.mp hf with heq | hf
    · subst heq
      have nodup := hl.nodup i self impl
      have htop : f ∈ w.users i := users ▸ List.mem_cons_self
      generalize self.slots = l at *
      generalize self'.slots = l' at *
      cases moves with
      | @clearNext it₀ it' during saved₀ l next severed =>
        rcases hcl _ _ _ htop with hd | ⟨c, hit, ha⟩
        · exact .inl hd
        · obtain rfl := Option.some.inj hit
          by_cases hnc : n = it₀
          · rw [hnc]
            exact .inl severed
          · obtain ⟨c', hc', ha', -⟩ := ha.next nodup next hnc
            exact .inr ⟨c', hc', ha'⟩
      | clearErase =>
        rcases hcl _ _ _ htop with hd | ⟨c, hit, -⟩
        · exact .inl hd
        · cases hit
      | clearErased =>
        rcases hcl _ _ _ htop with hd | ⟨c, hit, -⟩
        · exact .inl hd
        · cases hit
    · have hslots : self'.slots = self.slots := by
        rcases moves.slots_eq with he | heq
        · rw [hs f rest (users ▸ List.suffix_rfl) he] at hf
          cases hf
        · exact heq
      exact hold (users ▸ List.mem_cons_of_mem f hf) fun c _ h => hslots ▸ h
  | @leave f rest slots deferred last users users' =>
    rw [users'] at hf
    exact hold (users ▸ List.mem_cons_of_mem f hf) fun c _ h => slots ▸ h
  | @finish e rest himpl slots deferred users users' =>
    rw [users'] at hf
    have hmem : .clear i it er false saved ∈ w.users i := users ▸ List.mem_cons_of_mem _ hf
    refine hold hmem fun c hit ha => ?_
    rw [slots] at hn' ⊢
    exact hl.ahead_erase impl hc (users ▸ List.mem_cons_self) hmem hit hn' ha
  | sweep slots last users users' =>
    rw [users', List.mem_singleton] at hf
    cases hf

/-- Where a slot is connected, no `clear()` of the list is going on. -/
theorem World.OnTop.not_clear (ho : w.OnTop i) (user : w.UserPoint)
    (idle : w.frames.any (Frame.destroys i) = false) {it er : Option SlotAddr}
    {during saved : Bool} : .clear i it er during saved ∉ w.users i := by
  intro hm
  have hf := (List.mem_filter.mp hm).1
  cases er with
  | none =>
    have hclears := ho.all user.free _ hf
    simp [Frame.clears] at hclears
  | some s =>
    have hany : w.frames.any (Frame.destroys i) = true :=
      List.any_eq_true.mpr ⟨_, hf, by simp [Frame.destroys]⟩
    rw [idle] at hany
    cases hany

/-- A `clear()` outside emission has been running before, or begins now and no slot is connected. -/
theorem UseStep.clear_before (h : UseStep w w' i self self') {it er : Option SlotAddr}
    {saved : Bool} (hf : .clear i it er false saved ∈ w'.users i) :
    (∃ it er saved, .clear i it er false saved ∈ w.users i) ∨ self'.slots = self.slots := by
  cases h with
  | quiet same users => exact .inr (by rw [same])
  | insert first slots deferred users => exact .inl ⟨it, er, saved, users ▸ hf⟩
  | defer slots deferred users => exact .inr slots
  | restore slots top users => exact .inr slots
  | erase idle slots users =>
    rw [users, List.mem_singleton] at hf
    cases hf
  -- The only step in which such a clear() appears.
  | beginClear idle slots users => exact .inr slots
  | clearWithin slots deferred users => exact .inr slots
  | start slots deferred users =>
    rw [users] at hf
    rcases List.mem_cons.mp hf with heq | hf
    · cases heq
    · exact .inl ⟨it, er, saved, hf⟩
  | @move f g rest moves deferred users users' =>
    rw [users'] at hf
    rcases List.mem_cons.mp hf with heq | hf
    · subst heq
      have htop : f ∈ w.users i := users ▸ List.mem_cons_self
      generalize self.slots = l at *
      generalize self'.slots = l' at *
      cases moves with
      | clearNext next severed => exact .inl ⟨_, _, _, htop⟩
      | clearErase => exact .inl ⟨_, _, _, htop⟩
      | clearErased => exact .inl ⟨_, _, _, htop⟩
    · exact .inl ⟨it, er, saved, users ▸ List.mem_cons_of_mem f hf⟩
  | @leave f rest slots deferred last users users' => exact .inr slots
  | @finish e rest himpl slots deferred users users' =>
    rw [users'] at hf
    exact .inl ⟨it, er, saved, users ▸ List.mem_cons_of_mem _ hf⟩
  | sweep slots last users users' =>
    rw [users', List.mem_singleton] at hf
    cases hf

/-- What has been disconnected is not connected again. -/
theorem Proceeds.disconnected (h : Proceeds w w') (hw : Sound w) (hf : w.AllFilled i) {a : Addr}
    (ha : a < w.next) (impl' : w'.impls i = some self') (hn : .object a ∈ self'.slots)
    (hd : w.Disconnected (.object a)) : w'.Disconnected (.object a) := by
  intro sl' j q rep' hsl' howner' hq' hrep'
  rcases h.entry_before hw hf ⟨⟨self', impl', hn⟩, sl', hsl', hq'⟩ with hold | ⟨b, hb, hlt⟩
  · obtain ⟨rep, hrep, hcall⟩ := h.rep_before hw hold hrep'
    obtain ⟨sl, hsl, hq⟩ := hold.slot
    have howner := (hold.holder hw.linked hsl hq).2.1
    have hoff := hd sl i q rep hsl howner hq hrep
    by_contra hc
    rw [Bool.not_eq_false] at hc
    rw [hcall hc] at hoff
    cases hoff
  · obtain rfl := SlotAddr.object.inj hb
    exact absurd ha (Nat.not_lt.mpr hlt)

namespace World.Discipline

theorem cleared' (hd : w.Discipline i) (h : Step w w') (hw : Sound w) (hp : Proceeds w w')
    (bound : w.Fits i) : w'.Cleared i := by
  intro self' it er saved impl' hf n hn
  cases himpl : w.impls i with
  | none =>
    rw [(h.listStep.created hw.toWellAddressed himpl impl').1] at hn
    cases hn
  | some self =>
    have huse := h.listStep.useStep hw.toWellAddressed hd.counted (bound self himpl) himpl impl'
    cases n with
    | placeholder d =>
      refine .inl fun sl j q rep hsl _ hq _ => ?_
      rw [(hp.sound.placeholder d sl hsl).1] at hq
      cases hq
    | object a =>
      have hlisted (hm : .object a ∈ self.slots) : a < w.next := by
        obtain ⟨sl, hsl, -⟩ := hw.linked.element i self _ himpl hm
        exact hw.slots a sl hsl
      by_cases ha : a < w.next
      · obtain ⟨x, sl, sl', hx, hm, -⟩ := hp.element_before hw impl' ha hn
        obtain rfl := Option.some.inj (himpl.symm.trans hx)
        rcases huse.cleared hw.linked himpl (hd.stacked self himpl) (hd.cursors self himpl)
          (fun it er saved hclear => hd.cleared self it er saved himpl hclear _ hm) hm hn hf with
          hdis | hahead
        · exact .inl (hp.disconnected hw hd.filled ha impl' hn hdis)
        · exact .inr hahead
      · -- the element has been connected by client code
        obtain ⟨huser, hidle, -⟩ :=
          (h.entryStep hw).entry_fresh hp.sound.linked (Nat.not_lt.mp ha) impl' hn
        rcases huse.clear_before hf with ⟨it, er, saved, hclear⟩ | hslots
        · exact absurd hclear (hd.onTop.not_clear huser hidle)
        · exact absurd (hlisted (hslots ▸ hn)) ha

/-- The discipline is kept. -/
theorem step (hd : w.Discipline i) (h : Step w w') (hw : Sound w) (bound : w.Fits i) :
    w'.Discipline i := by
  have hp : Proceeds w w' := Steps.proceeds (.single h) hw
  have hstep := h.entryStep hw
  have huse {self' : SignalImpl} (impl' : w'.impls i = some self') :
      Stacked (w'.users i) ∧ w'.Cursors i := by
    cases impl : w.impls i with
    | none =>
      have hnil := (h.listStep.created hw.toWellAddressed impl impl').2
      unfold Cursors
      rw [hnil]
      exact ⟨.nil, by simp⟩
    | some self =>
      have huse := h.listStep.useStep hw.toWellAddressed hd.counted (bound self impl) impl impl'
      exact ⟨huse.stacked (hd.stacked self impl), huse.cursors hw.linked hp.sound.linked impl impl'
        (hd.stacked self impl) (hd.cursors self impl)⟩
  exact {
    counted := h.listStep.counted hw.toWellAddressed hd.counted
    onTop := h.onTop hd.counted bound hd.onTop
    silences := hstep.silences' hw hp hd.silences
    filled := hstep.allFilled hw hp hd.filled
    parented := hstep.parented hw hp hd.filled hd.parented
    stacked := fun _ impl' => (huse impl').1
    cursors := fun _ impl' => (huse impl').2
    await := hd.allAwait h hw hp bound
    cleared := hd.cleared' h hw hp bound }

end World.Discipline

end Sigc
