import Sigc.History

/-!
# A signal is a register of slots

The slots of a signal that can be called are those that have been connected and not disconnected
since, in the order of their connections.  The list never shows that it is cleaned up lazily, as long
as fewer than `2 ^ 15` functions run on it at once.
-/

namespace Sigc

open Reasoning Prog

variable {V : Type} {w w' : World V} {i r : Addr} {n : SlotAddr} {self self' : SignalImpl}

/-- What an event means to the signal `i`. -/
def Event.subscription (i : Addr) : Event → Option (Subscription Addr)
  | .connected j (some r) first true => if j = i then some (.enter first r) else none
  | .disconnected r => some (.leave r)
  | _ => none

theorem Event.leave_mem {log : List Event} :
    .leave r ∈ log.filterMap (Event.subscription i) ↔ .disconnected r ∈ log := by
  rw [List.mem_filterMap]
  constructor
  · rintro ⟨ev, hm, hev⟩
    cases ev with
    | disconnected q =>
      obtain rfl : q = r := Subscription.leave.inj (Option.some.inj hev)
      exact hm
    | connected j q first nonEmpty =>
      cases q <;> cases nonEmpty <;> simp [Event.subscription] at hev
    | _ => cases hev
  · intro hm
    exact ⟨_, hm, rfl⟩

namespace World

/-- The slots of the signal `i`, as the log tells. -/
def subscribed (w : World V) (i : Addr) : List Addr :=
  subscribers (w.log.filterMap (Event.subscription i))

/-- The rep in the slot `n`, if it can be called. -/
def live (w : World V) (n : SlotAddr) : Option Addr :=
  ((w.slots n).bind (·.rep)).filter fun r => (w.reps r).any (·.call)

/-- The slots of the signal `i` that can be called. -/
def callables (w : World V) (i : Addr) : List Addr :=
  ((w.impls i).elim [] (·.slots)).filterMap w.live

/-- A rep that has been disconnected cannot be called. -/
def Told (w : World V) : Prop :=
  ∀ r, .disconnected r ∈ w.log → r < w.next ∧ ∀ rep, w.reps r = some rep → rep.call = false

theorem live_eq_some : w.live n = some r ↔ ∃ sl rep, w.slots n = some sl ∧ sl.rep = some r ∧
    w.reps r = some rep ∧ rep.call = true := by
  unfold live
  rw [Option.filter_eq_some_iff, Option.bind_eq_some_iff, Option.any_eq_true]
  constructor
  · rintro ⟨⟨sl, hsl, hr⟩, rep, hrep, hcall⟩
    exact ⟨sl, rep, hsl, hr, hrep, hcall⟩
  · rintro ⟨sl, rep, hsl, hr, hrep, hcall⟩
    exact ⟨⟨sl, hsl, hr⟩, rep, hrep, hcall⟩

theorem live_eq_none (h : ∀ sl r rep, w.slots n = some sl → sl.rep = some r →
    w.reps r = some rep → rep.call = false) : w.live n = none := by
  apply Option.eq_none_iff_forall_ne_some.mpr
  intro r hr
  obtain ⟨sl, rep, hsl, hsr, hrep, hcall⟩ := live_eq_some.mp hr
  rw [h sl r rep hsl hsr hrep] at hcall
  cases hcall

theorem live_placeholder (hw : WellAddressed w) (d : Nat) : w.live (.placeholder d) = none := by
  refine live_eq_none fun sl r rep hsl hr _ => ?_
  rw [(hw.placeholder d sl hsl).1] at hr
  cases hr

theorem Linked.live_emission (hl : w.Linked) (hw : WellAddressed w) {e : Emission V}
    (he : .emission e ∈ w.frames) : w.live e.placeholder = none := by
  obtain ⟨d, hd⟩ := hl.emitting _ _ (List.mem_map.mpr ⟨_, he, rfl⟩)
  rw [hd]
  exact live_placeholder hw d

theorem Empty.live (h : w.Empty n) : w.live n = none := by
  obtain ⟨sl, hsl, hempty⟩ := h
  refine live_eq_none fun x r rep hx hr hrep => ?_
  rw [hsl] at hx
  obtain rfl := Option.some.inj hx
  obtain ⟨y, hy, hcall⟩ := hempty r hr
  rw [hrep] at hy
  rw [Option.some.inj hy]
  exact hcall

theorem Disconnected.live (h : w.Disconnected n) (hl : w.Linked) (impl : w.impls i = some self)
    (hn : n ∈ self.slots) : w.live n = none := by
  obtain ⟨sl, hsl, howner, -⟩ := hl.element i self n impl hn
  refine live_eq_none fun x r rep hx hr hrep => ?_
  rw [hsl] at hx
  obtain rfl := Option.some.inj hx
  exact h sl i r rep hsl howner hr hrep

/-! ## What has been disconnected stays disconnected -/

theorem Told.step (ht : w.Told) (h : Step w w') (hw : WellAddressed w) : w'.Told := by
  have hextends := (h.advances hw).extension
  -- a rep that cannot be called will never be called again
  have hkeep {r : Addr} (hr : .disconnected r ∈ w.log) :
      r < w'.next ∧ ∀ rep, w'.reps r = some rep → rep.call = false := by
    obtain ⟨hlt, hcall⟩ := ht r hr
    refine ⟨Nat.lt_of_lt_of_le hlt hextends.next, fun rep' hrep' => ?_⟩
    obtain ⟨rep, hrep, hback, -⟩ := hextends.reps.old hlt hrep'
    by_contra hc
    rw [Bool.not_eq_false] at hc
    have hoff := hcall rep hrep
    rw [hback hc] at hoff
    cases hoff
  intro r hr
  cases h.logStep with
  | quiet log => exact hkeep (log ▸ hr)
  | @other ev neutral calls notice moves log =>
    rw [log] at hr
    rcases List.mem_cons.mp hr with rfl | hr
    · cases neutral
    · exact hkeep hr
  | @disconnected q rep alive log call =>
    by_cases heq : r = q
    · subst heq
      exact ⟨Nat.lt_of_lt_of_le (hw.reps r rep alive) hextends.next, call⟩
    · have hold : .disconnected r ∈ w.log := by
        rcases log with log | log <;> simpa [log, heq] using hr
      exact hkeep hold
  | connected first impl sets slot holds alive log =>
    rw [log] at hr
    rcases List.mem_cons.mp hr with heq | hr
    · cases heq
    · exact hkeep hr

theorem Told.not_logged (ht : w.Told) (h : w.live n = some r) : .disconnected r ∉ w.log := by
  obtain ⟨sl, rep, -, -, hrep, hcall⟩ := live_eq_some.mp h
  intro hlog
  rw [(ht r hlog).2 rep hrep] at hcall
  cases hcall

/-- No slot is called after it has been disconnected. -/
def NotCalledLate (w : World V) : Prop :=
  ∀ later earlier r, w.log = later ++ .invoked r :: earlier → .disconnected r ∉ earlier

theorem NotCalledLate.step (hc : w.NotCalledLate) (ht : w.Told) (h : Step w w') :
    w'.NotCalledLate := by
  -- the event that has been added calls no disconnected slot
  have hcons {ev : Event} {log : List Event} (hlog : ∀ later earlier r,
      log = later ++ .invoked r :: earlier → .disconnected r ∉ earlier)
      (hev : ∀ r, ev = .invoked r → .disconnected r ∉ log) (later earlier : List Event) (r : Addr)
      (heq : ev :: log = later ++ .invoked r :: earlier) : .disconnected r ∉ earlier := by
    cases later with
    | nil =>
      obtain ⟨rfl, rfl⟩ := List.cons.inj heq
      exact hev r rfl
    | cons ev' later =>
      obtain ⟨-, heq⟩ := List.cons.inj heq
      exact hlog later earlier r heq
  unfold NotCalledLate
  cases h.logStep with
  | quiet log =>
    rw [log]
    exact hc
  | other neutral calls notice moves log =>
    rw [log]
    refine hcons hc fun r heq hlog => ?_
    obtain ⟨rep, hrep, hcall⟩ := calls r heq
    rw [(ht r hlog).2 rep hrep] at hcall
    cases hcall
  | disconnected alive log call =>
    rcases log with log | log
    · rw [log]
      exact hcons hc (by simp)
    · rw [log]
      exact hcons (hcons hc (by simp)) (by simp)
  | connected first impl sets slot holds alive log =>
    rw [log]
    exact hcons hc (by simp)

/-- A slot in the list that cannot be called and has not been disconnected was connected like
that. -/
def Origins (w : World V) (i : Addr) : Prop :=
  ∀ n r rep, w.Entry i n r → w.reps r = some rep → rep.call = false →
    rep.parent = none ∨ ∃ first, .connected i (some r) first false ∈ w.log

theorem Origins.step (ho : w.Origins i) (hd : w.Discipline i) (h : Step w w') (hw : Sound w) :
    w'.Origins i := by
  have hp : Proceeds w w' := Steps.proceeds (.single h) hw
  have hstep := h.entryStep hw
  have hlog := hp.extension.log
  intro n r rep' entry hrep' hcall'
  have hold (entry : w.Entry i n r) {rep : SlotRep} (hrep : w.reps r = some rep)
      (hcall : rep.call = false) :
      rep.parent = none ∨ ∃ first, .connected i (some r) first false ∈ w'.log :=
    (ho n r rep entry hrep hcall).imp_right fun ⟨first, hm⟩ => ⟨first, hlog.subset hm⟩
  -- The entry was there before the step, or it is what has been connected.
  rcases hp.entry_before hw hd.filled entry with hentry | ⟨a, rfl, ha⟩
  · obtain ⟨rep, hrep, -⟩ := hp.rep_before hw hentry hrep'
    cases hstep.rep i n r rep hentry hrep with
    | same hsame =>
      obtain rfl := Option.some.inj (hrep'.symm.trans hsame)
      exact hold hentry hrep hcall'
    | deleted frame hnone =>
      rw [hrep'] at hnone
      cases hnone
    | detached frame hsame hparent hoff =>
      obtain rfl := Option.some.inj (hrep'.symm.trans hsame)
      rw [hparent]
      exact hold hentry hrep (hd.silences _ frame r rfl rep hrep)
    | severed hsame hparent hoff log awaits =>
      obtain rfl := Option.some.inj (hrep'.symm.trans hsame)
      exact .inl hparent
  · obtain ⟨self', impl', hn⟩ := entry.listed
    obtain ⟨sl, hsl, hr⟩ := entry.slot
    obtain ⟨x, hx, howner, -⟩ := hp.sound.linked.element i self' _ impl' hn
    obtain rfl := Option.some.inj (hsl.symm.trans hx)
    obtain ⟨-, -, q, rep, hq, hrep, -, first, log⟩ := hstep.fresh a sl i ha hsl howner
    obtain rfl := Option.some.inj (hr.symm.trans hq)
    obtain rfl := Option.some.inj (hrep'.symm.trans hrep)
    refine .inr ⟨first, ?_⟩
    rw [log, hcall']
    exact List.mem_cons_self

/-! ## A step of the list is a step of the register -/

namespace Discipline

/-- An element that stays in the list can be called as before, unless it has been disconnected. -/
theorem live_step (hd : w.Discipline i) (ht' : w'.Told) (h : EntryStep w w') (hw : Sound w)
    (hp : Proceeds w w') (impl : w.impls i = some self) (impl' : w'.impls i = some self')
    (hn : n ∈ self.slots) (hn' : n ∈ self'.slots) :
    w'.live n = (w.live n).filter fun r => .disconnected r ∉ w'.log := by
  cases n with
  | placeholder d =>
    rw [live_placeholder hw.toWellAddressed, live_placeholder hp.sound.toWellAddressed]
    rfl
  | object a =>
    have ha : a < w.next := by
      obtain ⟨sl, hsl, -⟩ := hw.linked.element i self _ impl hn
      exact hw.slots a sl hsl
    apply Option.ext
    intro r
    rw [Option.filter_eq_some_iff, decide_eq_true_eq, live_eq_some, live_eq_some]
    constructor
    · rintro ⟨sl', rep', hsl', hr', hrep', hcall'⟩
      have hold : w.Entry i (.object a) r := by
        rcases hp.entry_before hw hd.filled ⟨⟨self', impl', hn'⟩, sl', hsl', hr'⟩ with
          hold | ⟨b, hb, hlt⟩
        · exact hold
        · obtain rfl := SlotAddr.object.inj hb
          exact absurd ha (Nat.not_lt.mpr hlt)
      obtain ⟨rep, hrep, hcall⟩ := hp.rep_before hw hold hrep'
      obtain ⟨sl, hsl, hr⟩ := hold.slot
      refine ⟨⟨sl, rep, hsl, hr, hrep, hcall hcall'⟩, fun hlog => ?_⟩
      have hoff := (ht' r hlog).2 rep' hrep'
      rw [hcall'] at hoff
      cases hoff
    · rintro ⟨⟨sl, rep, hsl, hr, hrep, hcall⟩, hlog⟩
      have entry : w.Entry i (.object a) r := ⟨⟨self, impl, hn⟩, sl, hsl, hr⟩
      obtain ⟨x, y, sl', hx, -, hy, hsl', hkeep⟩ := hp.element_before hw impl' ha hn'
      rw [hsl] at hy
      obtain rfl := Option.some.inj hy
      refine ⟨sl', rep, hsl', hkeep r hr, ?_, hcall⟩
      -- only a rep that cannot be called is deleted or loses its functor
      have hsilent {f : Frame V} (hf : f ∈ w.frames) (hs : f.silences = some r) : False := by
        have hoff := hd.silences f hf r hs rep hrep
        rw [hcall] at hoff
        cases hoff
      cases h.rep i _ r rep entry hrep with
      | same hsame => exact hsame
      | deleted frame hnone => exact (hsilent frame rfl).elim
      | detached frame hrep' hparent hoff => exact (hsilent frame rfl).elim
      | severed hrep' hparent hoff log awaits => exact absurd log hlog

/-- A new element has been connected. -/
theorem not_inserted (h : Step w w') (hw : Sound w)
    (unconnected : ∀ r first b, w'.log ≠ .connected i (some r) first b :: w.log)
    (impl : w.impls i = some self) (impl' : w'.impls i = some self') (first : Bool) {a : Addr}
    (slots : self'.slots = if first then .object a :: self.slots else self.slots ++ [.object a]) :
    False := by
  have hp : Proceeds w w' := Steps.proceeds (.single h) hw
  have hnodup := hp.sound.linked.nodup i self' impl'
  have hm : .object a ∈ self'.slots := by
    rw [slots]
    cases first <;> simp
  obtain ⟨sl, hsl, howner, -⟩ := hp.sound.linked.element i self' _ impl' hm
  by_cases ha : a < w.next
  · -- it would be in the list twice
    obtain ⟨x, _, _, hx, hm', -⟩ := hp.element_before hw impl' ha hm
    obtain rfl := Option.some.inj (impl.symm.trans hx)
    rw [slots] at hnodup
    cases first with
    | true => exact (List.nodup_cons.mp hnodup).1 hm'
    | false => exact (List.nodup_append.mp hnodup).2.2 _ hm' _ (List.mem_singleton_self _) rfl
  · obtain ⟨-, -, r, rep, -, -, -, b, log⟩ :=
      (h.entryStep hw).fresh a sl i (Nat.not_lt.mp ha) hsl howner
    exact unconnected r b rep.call log

/-- A list that has been created holds nothing that can be called. -/
theorem callables_created (h : Step w w') (hw : Sound w) (impl : w.impls i = none) :
    w'.callables i = [] := by
  unfold callables
  cases impl' : w'.impls i with
  | none => rfl
  | some self' =>
    show self'.slots.filterMap w'.live = []
    rw [(h.listStep.created hw.toWellAddressed impl impl').1]
    rfl

/-- Nor does a list that is disposed of. -/
theorem callables_disposed (h : Step w w') (impl : w.impls i = some self)
    (impl' : w'.impls i = none) : w.callables i = [] := by
  rw [callables, impl]
  show self.slots.filterMap w.live = []
  rw [(h.listStep.disposed impl impl').1]
  rfl

/-- An element that is erased outside of all functions on the list has just been disconnected. -/
theorem disconnected_of_erase (h : Step w w') (hw : Sound w) {x : SlotAddr}
    (idle : w.users i = []) (users : w'.users i = [.erase i x]) :
    (w.live x).filter (fun r => .disconnected r ∉ w'.log) = none := by
  have hm : .erase i x ∈ w'.frames :=
    (List.mem_filter.mp (users ▸ List.mem_singleton_self _ : Frame.erase i x ∈ w'.users i)).1
  rcases (h.entryStep hw).erasures i x hm with hold | ⟨q, entry, log⟩
  · have hu : .erase i x ∈ w.users i := List.mem_filter.mpr ⟨hold, by simp [Frame.execOn]⟩
    rw [idle] at hu
    cases hu
  · obtain ⟨sl, hsl, hq⟩ := entry.slot
    rw [Option.filter_eq_none_iff]
    intro r hr
    obtain ⟨y, rep, hy, hyr, -⟩ := live_eq_some.mp hr
    rw [hsl] at hy
    obtain rfl := Option.some.inj hy
    obtain rfl := Option.some.inj (hq.symm.trans hyr)
    simpa using log

/-- Where an element is inserted that is not a connected slot, it is a placeholder. -/
theorem live_of_inserted (h : Step w w') (hw : Sound w)
    (unconnected : ∀ r first b, w'.log ≠ .connected i (some r) first b :: w.log)
    (impl : w.impls i = some self) (impl' : w'.impls i = some self') (first : Bool) {x : SlotAddr}
    (slots : self'.slots = if first then x :: self.slots else self.slots ++ [x]) :
    w'.live x = none := by
  cases x with
  | placeholder d => exact live_placeholder (h.sound hw).toWellAddressed d
  | object a => exact (not_inserted h hw unconnected impl impl' first slots).elim

/-- Where no slot is connected, the slots that can be called are those that have not been
disconnected. -/
theorem callables_filter (hd : w.Discipline i) (ht' : w'.Told) (h : Step w w') (hw : Sound w)
    (bound : w.Fits i)
    (unconnected : ∀ r first b, w'.log ≠ .connected i (some r) first b :: w.log) :
    w'.callables i = (w.callables i).filter fun r => .disconnected r ∉ w'.log := by
  have hp : Proceeds w w' := Steps.proceeds (.single h) hw
  have hstep := h.entryStep hw
  cases impl : w.impls i with
  | none =>
    rw [callables_created h hw impl, callables, impl]
    rfl
  | some self =>
  cases impl' : w'.impls i with
  | none =>
    rw [callables_disposed h impl impl', callables, impl']
    rfl
  | some self' =>
  rw [callables, callables, impl, impl']
  show self'.slots.filterMap w'.live = (self.slots.filterMap w.live).filter _
  have hlive {x : SlotAddr} (hx : x ∈ self.slots) (hx' : x ∈ self'.slots) :=
    hd.live_step ht' hstep hw hp impl impl' hx hx'
  -- The list is the same: a slot drops out of the register only by being disconnected.
  have hsame (slots : self'.slots = self.slots) :
      self'.slots.filterMap w'.live =
        (self.slots.filterMap w.live).filter fun r => .disconnected r ∉ w'.log := by
    rw [slots]
    exact filterMap_eq_filter _ fun x hx => hlive hx (slots ▸ hx)
  -- An element goes, which had been disconnected already or is so by this step.
  have herase {x : SlotAddr} (slots : self'.slots = self.slots.erase x)
      (hx : (w.live x).filter (fun r => .disconnected r ∉ w'.log) = none) :
      self'.slots.filterMap w'.live =
        (self.slots.filterMap w.live).filter fun r => .disconnected r ∉ w'.log := by
    rw [slots]
    exact filterMap_erase_eq_filter _
      (fun y hy => hlive (List.mem_of_mem_erase hy) (slots ▸ hy)) hx
  -- What cannot be called is not in the register.
  have hdead {x : SlotAddr} (hx : w.live x = none) :
      (w.live x).filter (fun r => .disconnected r ∉ w'.log) = none := by
    rw [hx]
    rfl
  cases h.listStep.useStep hw.toWellAddressed hd.counted (bound self impl) impl impl' with
  | quiet same users => exact hsame (by rw [same])
  | defer slots deferred users => exact hsame slots
  | restore slots top users => exact hsame slots
  | beginClear idle slots users => exact hsame slots
  | clearWithin slots deferred users => exact hsame slots
  | leave slots deferred last users users' => exact hsame slots
  | @insert x first slots deferred users =>
    -- What comes in without being connected is a slot without functor.
    rw [slots, filterMap_insert, live_of_inserted h hw unconnected impl impl' first slots]
    refine filterMap_eq_filter _ fun y hy => hlive hy ?_
    rw [slots]
    cases first <;> simp [hy]
  | erase idle slots users => exact herase slots (disconnected_of_erase h hw idle users)
  | @start e slots deferred users =>
    have he : .emission e ∈ w'.frames :=
      (List.mem_filter.mp (users ▸ List.mem_cons_self : Frame.emission e ∈ w'.users i)).1
    rw [slots, List.filterMap_append, List.filterMap_cons_none
      (hp.sound.linked.live_emission hp.sound.toWellAddressed he), List.filterMap_nil, List.append_nil]
    exact filterMap_eq_filter _ fun x hx => hlive hx (slots ▸ List.mem_append_left _ hx)
  | @move f g rest moves deferred users users' =>
    have htop : f ∈ w.users i := users ▸ List.mem_cons_self
    generalize hl : self.slots = l at *
    generalize hl' : self'.slots = l' at *
    cases moves with
    | emit placeholder => exact hsame rfl
    | clearNext next severed => exact hsame rfl
    | @clearErase saved s l =>
      refine herase (x := s) (by rw [List.erase_cons_head]) (hdead ?_)
      have hs : s ∈ self.slots := hl ▸ List.mem_cons_self
      -- clear() erases an element only after it has disconnected it.
      rcases hd.cleared self none none saved impl htop s hs with hdis | ⟨c, hc, -⟩
      · exact hdis.live hw.linked impl hs
      · cases hc
    | clearErased => exact hsame rfl
    | sweepSkip next keep => exact hsame rfl
    | sweepErase next empty => exact herase rfl (hdead empty.live)
    | sweepErased => exact hsame rfl
  | @finish e rest himpl slots deferred users users' =>
    have he : .emission e ∈ w.frames :=
      (List.mem_filter.mp (users ▸ List.mem_cons_self : Frame.emission e ∈ w.users i)).1
    exact herase slots (hdead (hw.linked.live_emission hw.toWellAddressed he))
  | @sweep f slots last users users' =>
    rcases slots with slots | ⟨e, rfl, himpl, slots⟩
    · exact hsame slots
    · have he : .emission e ∈ w.frames :=
        (List.mem_filter.mp (users ▸ List.mem_singleton_self _ : Frame.emission e ∈ w.users i)).1
      exact herase slots (hdead (hw.linked.live_emission hw.toWellAddressed he))

theorem callables_connected (hd : w.Discipline i) (ht : w.Told) (ht' : w'.Told) (h : Step w w')
    (hw : Sound w) (impl : w.impls i = some self) {a : Addr} {sl : SlotBase} {rep : SlotRep}
    (first : Bool) (sets : w.Sets w' i { self with
      slots := if first then .object a :: self.slots else self.slots ++ [.object a] })
    (slot : w'.slots (.object a) = some sl) (holds : sl.rep = some r)
    (alive : w'.reps r = some rep) (log : w'.log = .connected i (some r) first rep.call :: w.log) :
    w'.callables i = if rep.call then (Subscription.enter first r).apply (w.callables i)
      else w.callables i := by
  have hp : Proceeds w w' := Steps.proceeds (.single h) hw
  have impl' := Function.update_self i (some { self with
      slots := if first then .object a :: self.slots else self.slots ++ [.object a] }) w.impls
  rw [← sets] at impl'
  -- The other elements are called as before: the step disconnects nothing.
  have hrest : self.slots.filterMap w'.live = self.slots.filterMap w.live := by
    refine List.filterMap_congr fun x hx => ?_
    rw [hd.live_step ht' (h.entryStep hw) hw hp impl impl' hx (by cases first <;> simp [hx])]
    cases hq : w.live x with
    | none => rfl
    | some q =>
      apply Option.filter_some_pos
      rw [decide_eq_true_eq, log, List.mem_cons, not_or]
      exact ⟨by simp, ht.not_logged hq⟩
  rw [callables, callables, impl, impl']
  show (if first then .object a :: self.slots else self.slots ++ [.object a]).filterMap w'.live =
    if rep.call then (Subscription.enter first r).apply (self.slots.filterMap w.live)
      else self.slots.filterMap w.live
  rw [filterMap_insert, hrest]
  cases hcall : rep.call with
  | true =>
    rw [live_eq_some.mpr ⟨sl, rep, slot, holds, alive, hcall⟩]
    rfl
  | false =>
    rw [live_eq_none]
    · rfl
    · intro x q y hx hq hy
      rw [slot] at hx
      obtain rfl := Option.some.inj hx
      obtain rfl := Option.some.inj (holds.symm.trans hq)
      rw [alive] at hy
      rw [← Option.some.inj hy]
      exact hcall

/-- The list keeps up with the register. -/
theorem subscribed_step (hd : w.Discipline i) (ht : w.Told) (h : Step w w') (hw : Sound w)
    (bound : w.Fits i) (hr : w.callables i = w.subscribed i) :
    w'.callables i = w'.subscribed i := by
  have ht' := ht.step h hw.toWellAddressed
  -- a slot that can be called has not been disconnected
  have hkeep (log : ∀ r, .disconnected r ∈ w'.log → .disconnected r ∈ w.log) :
      ((w.callables i).filter fun r => .disconnected r ∉ w'.log) = w.callables i := by
    apply List.filter_eq_self.mpr
    intro r hm
    obtain ⟨n, -, hn⟩ := List.mem_filterMap.mp hm
    rw [decide_eq_true_eq]
    exact fun hlog => ht.not_logged hn (log r hlog)
  have hfilter (unconnected : ∀ r first b, w'.log ≠ .connected i (some r) first b :: w.log) :=
    hd.callables_filter ht' h hw bound unconnected
  cases h.logStep with
  | quiet log =>
    rw [hfilter (fun r first b hlog => by simp [log] at hlog), hkeep fun r hm => log ▸ hm, hr,
      subscribed, subscribed, log]
  | @other ev neutral calls notice moves log =>
    have hsub : ev.subscription i = none := by
      cases ev <;> first | rfl | cases neutral
    rw [hfilter fun r first b hlog => ?_, hkeep fun r hm => ?_, hr, subscribed, subscribed, log,
      List.filterMap_cons_none hsub]
    · rw [log] at hm
      rcases List.mem_cons.mp hm with heq | hm
      · rw [← heq] at neutral
        cases neutral
      · exact hm
    · obtain ⟨rfl, -⟩ := List.cons.inj (log.symm.trans hlog)
      cases neutral
  | @disconnected q rep alive log call =>
    have hsub : w'.subscribed i = (Subscription.leave q).apply (w.subscribed i) := by
      rcases log with log | log
      · rw [subscribed, log]
        rfl
      · rw [subscribed, log]
        show (Subscription.leave q).apply ((Subscription.leave q).apply (w.subscribed i)) = _
        simp [Subscription.apply]
    rw [hfilter, hsub, ← hr]
    · apply List.filter_congr
      intro r hm
      obtain ⟨n, -, hn⟩ := List.mem_filterMap.mp hm
      have hold := ht.not_logged hn
      rcases log with log | log <;> simp [log, hold]
    · intro r first b hlog
      rcases log with log | log <;> simp [log] at hlog
  | @connected j self a sl r rep first impl sets slot holds alive log =>
    by_cases hj : j = i
    · subst hj
      rw [hd.callables_connected ht ht' h hw impl first sets slot holds alive log, hr, subscribed,
        subscribed, log]
      cases hcall : rep.call with
      | true =>
        rw [List.filterMap_cons_some (b := .enter first r) (by simp [Event.subscription])]
        rfl
      | false =>
        rw [List.filterMap_cons_none rfl]
        rfl
    · have hsub : (Event.connected j (some r) first rep.call).subscription i = none := by
        cases rep.call <;> simp [Event.subscription, hj]
      rw [hfilter fun r' first' b hlog => ?_, hkeep fun q hm => ?_, hr, subscribed, subscribed, log,
        List.filterMap_cons_none hsub]
      · rw [log] at hm
        rcases List.mem_cons.mp hm with heq | hm
        · cases heq
        · exact hm
      · obtain ⟨heq, -⟩ := List.cons.inj (log.symm.trans hlog)
        exact hj (Event.connected.inj heq).1

end Discipline

end World

end Sigc
