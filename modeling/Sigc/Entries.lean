import Sigc.ListSteps

/-!
# Steps, seen from the elements of lists

What a step can do to the rep of a slot in a list.  While the slot stays where it is, its rep keeps
its parent and can be called, unless it is disconnected: then it is known that the list will be
swept.
-/

namespace Sigc

open Reasoning Prog

variable {V : Type} {w w' v : World V} {i r : Addr} {n : SlotAddr} {rep : SlotRep}

/-- The rep that this frame invalidates or deletes. -/
def Frame.silences : Frame V → Option Addr
  | .invalidating r _ | .deleting r => some r
  | _ => none

/-- Does what a run depends on begin with this frame? -/
def Frame.marks : Frame V → Bool
  | .invalidating .. | .deleting _ | .emission _ | .erase .. => true
  | _ => false

theorem Frame.marks_of_silences {f : Frame V} (h : f.silences = some r) : f.marks = true := by
  cases f <;> first | rfl | cases h

/-- What an emission does between two calls of other code. -/
inductive Emission.Moves (w : World V) : Emission V → Emission V → Prop where
  | skip {e self it'} (inside : e.it ≠ e.placeholder) (arrived : e.phase = .arrived)
      (uncallable : ∀ r, ¬w.Callable e.it r) (impl : w.impls e.impl = some self)
      (next : following e.it self.slots = some (some it')) :
      Moves w e { e with it := it', reached := e.reached ++ [(e.it, false)] }
  | beginCall {e r} (inside : e.it ≠ e.placeholder) (arrived : e.phase = .arrived)
      (callable : w.Callable e.it r) :
      Moves w e { e with
        reached := e.reached ++ [(e.it, true)], called := e.called ++ [e.it], phase := .invoking }
  | endCall {e} (v : V) (invoking : e.phase = .invoking) :
      Moves w e { e with results := e.results ++ [v], phase := .invoked }
  | advance {e self it'} (invoked : e.phase = .invoked) (impl : w.impls e.impl = some self)
      (next : following e.it self.slots = some (some it')) :
      Moves w e { e with it := it', phase := .arrived }

namespace World

/-- The element `n` of the list `i` holds the rep `r`. -/
structure Entry (w : World V) (i : Addr) (n : SlotAddr) (r : Addr) : Prop where
  listed : ∃ self, w.impls i = some self ∧ n ∈ self.slots
  slot : ∃ sl, w.slots n = some sl ∧ sl.rep = some r

/-- A slot that holds the rep of an element is that element. -/
theorem Entry.holder (h : w.Entry i n r) (hl : w.Linked) {s : SlotAddr} {sl : SlotBase}
    (hs : w.slots s = some sl) (hr : sl.rep = some r) :
    s = n ∧ sl.owner = .list i ∧ sl.dying = false := by
  obtain ⟨self, himpl, hn⟩ := h.listed
  obtain ⟨x, hx, hxr⟩ := h.slot
  have hsn : s = n := hl.unique s n sl x r hs hr hx hxr
  subst hsn
  obtain ⟨y, hy, howner, hdying⟩ := hl.element i self s himpl hn
  rw [hs] at hy
  obtain rfl := Option.some.inj hy
  exact ⟨rfl, howner, hdying⟩

theorem Entry.lt (h : w.Entry i n r) (hw : WellAddressed w) : r < w.next := by
  obtain ⟨sl, hsl, hr⟩ := h.slot
  exact hw.slotRep n sl r hsl hr

/-- No frame that marks the beginning of something is new in `w'`. -/
def Mutes (w w' : World V) : Prop := ∀ f ∈ w'.frames, f.marks = true → f ∈ w.frames

theorem Mutes.of_frames (h : w'.frames = w.frames) : w.Mutes w' := by
  intro f hf _
  rwa [h] at hf

theorem Mutes.trans (h : w.Mutes v) (h' : v.Mutes w') : w.Mutes w' := by
  intro f hf hm
  exact h f (h' f hf hm) hm

theorem Mutes.push {f : Frame V} (h : f.marks = false) : w.Mutes (w.push f) := by
  intro g hg hm
  rcases List.mem_cons.mp hg with rfl | hg
  · rw [h] at hm
    cases hm
  · exact hg

theorem Mutes.pop : w.Mutes w.pop := fun _ hg _ => List.mem_of_mem_tail hg

theorem Mutes.setTop {f : Frame V} (h : f.marks = false) : w.Mutes (w.setTop f) := by
  intro g hg hm
  rcases List.mem_cons.mp hg with rfl | hg
  · rw [h] at hm
    cases hm
  · exact List.mem_of_mem_tail hg

/-- The emission `e` starts. -/
def Starts (w w' : World V) (e : Emission V) : Prop :=
  ∃ self self', w.impls e.impl = some self ∧ w'.impls e.impl = some self' ∧
    self'.slots = self.slots ++ [e.placeholder] ∧ w'.frames = .emission e :: w.frames ∧
      (∃ m, w'.log = .started e.impl m (w.execs e.impl + 1) :: w.log) ∧
      e = { impl := e.impl
            placeholder := .placeholder w.frames.length
            it := self.slots.headD (.placeholder w.frames.length)
            snapshot := self.slots }

/-- The emission on top goes on, and is `e` then. -/
def GoesOn (w w' : World V) (e : Emission V) : Prop :=
  ∃ e₀ below, w.frames = .emission e₀ :: below ∧ w'.frames = .emission e :: below ∧
    w'.impls = w.impls ∧ e₀.Moves w e

/-- The emission on top has ended between `w` and `w'`. -/
def Finishes (w w' : World V) : Prop :=
  ∃ e below completed, w.frames = .emission e :: below ∧ e.Over completed ∧
    w'.finished = (e, completed) :: w.finished

end World

/-- What a step does to `rep`, which is the rep `r` of the element `n` of the list `i`. -/
inductive RepStep (w w' : World V) (i : Addr) (n : SlotAddr) (r : Addr) (rep : SlotRep) : Prop where
  | same (h : w'.reps r = some rep)
  | deleted (frame : .deleting r ∈ w.frames) (h : w'.reps r = none)
  /-- in the middle of its invalidation, it loses its functor -/
  | detached {rep' x} (frame : .invalidating r x ∈ w.frames) (h : w'.reps r = some rep')
      (parent : rep'.parent = rep.parent) (call : rep'.call = false)
  /-- it is disconnected, and will be swept, or its element has been erased -/
  | severed {rep'} (h : w'.reps r = some rep') (parent : rep'.parent = none)
      (call : rep'.call = false) (log : .disconnected r ∈ w'.log)
      (awaits : rep.parent = none ∨ w.owned i = false ∨
        (∃ self, w'.impls i = some self ∧ self.deferred = true) ∨
          ∀ self, w'.impls i = some self → n ∉ self.slots)
      (told : ∀ d, rep.ChildOf d → w'.records d = none ∨ .cleanup d ∈ w'.frames)

structure EntryStep (w w' : World V) : Prop where
  rep : ∀ i n r rep, w.Entry i n r → w.reps r = some rep → RepStep w w' i n r rep
  /-- a new element has been connected by client code, and has a parent -/
  fresh : ∀ a sl i, w.next ≤ a → w'.slots (.object a) = some sl → sl.owner = .list i →
    w.UserPoint ∧ w.frames.any (Frame.destroys i) = false ∧
      ∃ r rep, sl.rep = some r ∧ w'.reps r = some rep ∧ rep.parent ≠ none ∧
        ∃ first, w'.log = .connected i (some r) first rep.call :: w.log
  /-- a rep that begins to be invalidated or deleted cannot be called -/
  silences : ∀ f ∈ w'.frames, ∀ q, f.silences = some q → f ∈ w.frames ∨
    (∀ rep, w'.reps q = some rep → rep.call = false) ∧ (f = .deleting q → ∀ i n, ¬w.Entry i n q)
  emissions : ∀ e, .emission e ∈ w'.frames →
    .emission e ∈ w.frames ∨ w.GoesOn w' e ∨ w.Starts w' e
  /-- an element that begins to be erased has been disconnected -/
  erasures : ∀ i n, .erase i n ∈ w'.frames → .erase i n ∈ w.frames ∨
    ∃ r, w.Entry i n r ∧ .disconnected r ∈ w'.log
  finished : w'.finished = w.finished ∨ w.Finishes w'

namespace EntryStep

theorem mutes (h : w.Mutes w') : ∀ f ∈ w'.frames, ∀ q, f.silences = some q → f ∈ w.frames ∨
    (∀ rep, w'.reps q = some rep → rep.call = false) ∧
      (f = .deleting q → ∀ i n, ¬w.Entry i n q) := by
  intro f hf q hq
  exact .inl (h f hf (Frame.marks_of_silences hq))

theorem emits (h : w.Mutes w') : ∀ e, .emission e ∈ w'.frames →
    .emission e ∈ w.frames ∨ w.GoesOn w' e ∨ w.Starts w' e :=
  fun _ he => .inl (h _ he rfl)

theorem old (hw : WellAddressed w) (hw' : WellAddressed w')
    (new : w'.next = w.next ∨ w'.slots = w.slots) {a : Addr} {sl : SlotBase} (ha : w.next ≤ a) :
    w'.slots (.object a) ≠ some sl := by
  intro hs
  have hnone : w'.slots (.object a) = none := by
    rcases new with hnext | hslots
    · exact hw'.slots.eq_none (hnext ▸ ha)
    · rw [hslots]
      exact hw.slots.eq_none ha
  rw [hnone] at hs
  cases hs

/-- Nothing begins. -/
theorem muted (rep : ∀ i n r rep, w.Entry i n r → w.reps r = some rep → RepStep w w' i n r rep)
    (fresh : ∀ a sl i, w.next ≤ a → w'.slots (.object a) = some sl → sl.owner = .list i →
      w.UserPoint ∧ w.frames.any (Frame.destroys i) = false ∧
        ∃ r rep, sl.rep = some r ∧ w'.reps r = some rep ∧ rep.parent ≠ none ∧
          ∃ first, w'.log = .connected i (some r) first rep.call :: w.log)
    (finished : w'.finished = w.finished) (h : w.Mutes w') : EntryStep w w' :=
  ⟨rep, fresh, mutes h, emits h, fun _ _ he => .inl (h _ he rfl), .inl finished⟩

/-- The slots are what they were. -/
theorem kept (hw : WellAddressed w)
    (rep : ∀ i n r rep, w.Entry i n r → w.reps r = some rep → RepStep w w' i n r rep)
    (slots : w'.slots = w.slots) (finished : w'.finished = w.finished) (h : w.Mutes w') :
    EntryStep w w' :=
  .muted rep (fun c _ _ hc hs _ => absurd (hw.slots c _ (slots ▸ hs)) (Nat.not_lt.mpr hc)) finished h

/-- The reps are what they were, and no slot is new. -/
theorem quiet (hw : WellAddressed w) (hw' : WellAddressed w')
    (new : w'.next = w.next ∨ w'.slots = w.slots) (reps : w'.reps = w.reps)
    (finished : w'.finished = w.finished) (h : w.Mutes w') : EntryStep w w' :=
  .muted (fun _ _ _ _ _ hr => .same (reps ▸ hr)) (fun _ _ _ ha hs _ => absurd hs (old hw hw' new ha))
    finished h

end EntryStep

/-- A rep that has become the child of another one is not held by an element. -/
theorem RepsBound.entry {q : Addr} {f : Functor} {reps rps : Addr → Option SlotRep}
    (h : RepsBound w.slots q f reps rps) (hl : w.Linked) (hf : w.FunctorOk f)
    (entry : w.Entry i n r) : rps r = reps r := by
  rcases h r with heq | ⟨s, sl, rep, hs, hsl, hr, -⟩
  · exact heq
  · obtain ⟨a, rfl, -, howner⟩ := hf.slot s hs
    have hlist := (entry.holder hl hsl hr).2.1
    rw [howner sl hsl] at hlist
    cases hlist

theorem RepConstructed.entry {f : Functor} {tks : Addr → Option Trackable}
    {ign : List (Addr × Addr)} {rps : Addr → Option SlotRep} (h : RepConstructed w f tks ign rps)
    (hw : Sound w) (hf : w.FunctorOk f) (entry : w.Entry i n r) : rps r = w.reps r := by
  rw [h.bound.entry hw.linked hf entry, Function.update_of_ne]
  exact Nat.ne_of_lt (entry.lt hw.toWellAddressed)

/-! ## Trackables, weak pointers and disconnections -/

theorem TrackableStep.entryStep (h : TrackableStep w w') (hw : WellAddressed w)
    (hw' : WellAddressed w') : EntryStep w w' := by
  cases h with
  | construct => exact .quiet hw hw' (.inr rfl) rfl rfl (.of_frames rfl)
  | beginDestroy alive client => exact .quiet hw hw' (.inl rfl) rfl rfl (.of_frames rfl)
  | endDestroy alive client notified => exact .quiet hw hw' (.inl rfl) rfl rfl (.of_frames rfl)
  | notifyNone alive list => exact .quiet hw hw' (.inl rfl) rfl rfl (.of_frames rfl)
  | beginNotify alive list idle reason calm => exact .quiet hw hw' (.inl rfl) rfl rfl (.push rfl)
  | skip top alive list element inactive => exact .quiet hw hw' (.inl rfl) rfl rfl (.setTop rfl)
  | notifyWeak top alive list element func weak =>
    exact .quiet hw hw' (.inl rfl) rfl rfl (.setTop rfl)
  | endNotify top alive list done => exact .quiet hw hw' (.inl rfl) rfl rfl .pop

theorem WeakStep.entryStep (h : WeakStep w w') (hw : WellAddressed w)
    (hw' : WellAddressed w') : EntryStep w w' := by
  cases h with
  | refer s => exact .quiet hw hw' (.inl rfl) rfl rfl (.of_frames rfl)
  | construct user source run =>
    obtain ⟨-, tks, ign, rfl, -⟩ := WeakRawPtr.construct_effect run
    exact .quiet hw hw' (.inr rfl) rfl rfl (.of_frames rfl)
  | assign user connection run =>
    obtain ⟨mid, tks, ign, self, from_, -, -, rfl, -⟩ := WeakRawPtr.assign_effect run
    exact .quiet hw hw' (.inl rfl) rfl rfl (.of_frames rfl)
  | destroy user connection run =>
    obtain ⟨tks, self, -, rfl, -⟩ := WeakRawPtr.destroy_effect run
    exact .quiet hw hw' (.inl rfl) rfl rfl (.of_frames rfl)

/-- A disconnected element has been erased, or is going to be swept. -/
theorem World.Entry.awaits {q : Addr} (entry : w.Entry i n q) (h : Sever q w w') (hl : w.Linked)
    (alive : w.reps q = some rep) :
    (∃ rep', w'.reps q = some rep' ∧ rep'.parent = none ∧ rep'.call = false) ∧
      .disconnected q ∈ w'.log ∧ (rep.parent = none ∨ w.owned i = false ∨
        (∃ self, w'.impls i = some self ∧ self.deferred = true) ∨
          ∀ self, w'.impls i = some self → n ∉ self.slots) := by
  -- the record of a child leads to its element
  have hchild {d : Addr} {si : SelfAndIter} {y : SlotRep} (hy : w.reps q = some y)
      (parent : y.parent = some d) (cleanup : y.cleanup = some .notifySelfAndIterOfInvalidatedSlot)
      (record : w.records d = some si) : si.iter = n ∧ si.self = i := by
    obtain ⟨si', sl, hd, hsl, hr, howner⟩ := hl.child q y d hy ⟨parent, cleanup⟩
    rw [record] at hd
    obtain rfl := Option.some.inj hd
    obtain ⟨hiter, howner', -⟩ := entry.holder hl hsl hr
    rw [howner] at howner'
    exact ⟨hiter, Owner.list.inj howner'⟩
  have hrep (y : SlotRep) : ∃ rep', Function.update w.reps q
      (some { y with call := false, parent := none }) q = some rep' ∧ rep'.parent = none ∧
        rep'.call = false := ⟨_, Function.update_self _ _ _, rfl, rfl⟩
  have hlog {l : List Event} : Event.disconnected q ∈ .disconnected q :: l := List.mem_cons_self
  cases h with
  | none alive' parent =>
    rw [alive] at alive'
    obtain rfl := Option.some.inj alive'
    exact ⟨hrep _, hlog, .inl parent⟩
  | rep alive' parent cleanup calm =>
    obtain ⟨sl, hsl, hr⟩ := entry.slot
    have howner := (entry.holder hl hsl hr).2.1
    have hcleanup := hl.parent n sl i q _ hsl howner hr alive' (by simp [parent])
    rw [cleanup] at hcleanup
    cases hcleanup
  | expired alive' parent cleanup record expired =>
    obtain ⟨-, hself⟩ := hchild alive' parent cleanup record
    exact ⟨hrep _, hlog, .inr (.inl (hself ▸ expired))⟩
  | defer alive' parent cleanup record owned impl executing =>
    obtain ⟨-, hself⟩ := hchild alive' parent cleanup record
    subst hself
    exact ⟨hrep _, hlog, .inr (.inr (.inl ⟨_, Function.update_self _ _ _, rfl⟩))⟩
  | erase alive' parent cleanup record owned impl idle element slot calm =>
    obtain ⟨hiter, hself⟩ := hchild alive' parent cleanup record
    subst hiter hself
    refine ⟨hrep _, hlog, .inr (.inr (.inr fun self' hself hm => ?_))⟩
    change Function.update w.impls _ _ _ = some self' at hself
    rw [Function.update_self] at hself
    obtain rfl := Option.some.inj hself
    exact (hl.nodup _ _ impl).not_mem_erase hm

theorem Sever.others {q : Addr} (h : Sever q w w') (hr : r ≠ q) : w'.reps r = w.reps r := by
  have hne {x : Option SlotRep} : Function.update w.reps q x r = w.reps r :=
    Function.update_of_ne hr _ _
  cases h <;> exact hne

theorem Sever.old_slot {q : Addr} (h : Sever q w w') {s : SlotAddr} {x : SlotBase}
    (hs : w'.slots s = some x) : ∃ y, w.slots s = some y := by
  cases h with
  | @erase rep d si self sl alive parent cleanup record owned impl idle element slot calm =>
    obtain ⟨rfl, -⟩ | ⟨-, hold⟩ := update_eq_some.mp hs
    · exact ⟨sl, slot⟩
    · exact ⟨x, hold⟩
  | _ => exact ⟨x, hs⟩

/-- Nothing begins but the erasure of the element that has been disconnected. -/
theorem Sever.marks {q : Addr} (h : Sever q w w') (hl : w.Linked) {f : Frame V}
    (hf : f ∈ w'.frames) (hm : f.marks = true) :
    f ∈ w.frames ∨ ∃ i n, f = .erase i n ∧ w.Entry i n q ∧ .disconnected q ∈ w'.log := by
  cases h with
  | @erase rep d si self sl alive parent cleanup record owned impl idle element slot calm =>
    rcases List.mem_cons.mp hf with rfl | hf
    · obtain ⟨si', x, hd, hx, hr, -⟩ := hl.child q rep d alive ⟨parent, cleanup⟩
      obtain rfl := Option.some.inj (record.symm.trans hd)
      exact .inr ⟨si.self, si.iter, rfl, ⟨⟨self, impl, element⟩, x, hx, hr⟩, List.mem_cons_self⟩
    · rcases List.mem_cons.mp hf with rfl | hf
      · cases hm
      · exact .inl hf
  | _ => exact .inl hf

theorem Sever.finished {q : Addr} (h : Sever q w w') : w'.finished = w.finished := by
  cases h <;> rfl

/-- A record that was the parent is gone, or on its way out. -/
theorem Sever.told {q d : Addr} {rep : SlotRep} (h : Sever q w w') (alive : w.reps q = some rep)
    (child : rep.ChildOf d) : w'.records d = Option.none ∨ .cleanup d ∈ w'.frames := by
  obtain ⟨hparent, hcleanup⟩ := child
  cases h with
  | none alive' parent =>
    rw [← Option.some.inj (alive.symm.trans alive'), hparent] at parent
    cases parent
  | rep alive' parent cleanup calm =>
    rw [← Option.some.inj (alive.symm.trans alive'), hcleanup] at cleanup
    cases cleanup
  | expired alive' parent cleanup record expired =>
    rw [← Option.some.inj (alive.symm.trans alive'), hparent] at parent
    obtain rfl := Option.some.inj parent
    exact .inl (Function.update_self _ _ _)
  | defer alive' parent cleanup record owned impl executing =>
    rw [← Option.some.inj (alive.symm.trans alive'), hparent] at parent
    obtain rfl := Option.some.inj parent
    exact .inl (Function.update_self _ _ _)
  | erase alive' parent cleanup record owned impl idle element slot calm =>
    rw [← Option.some.inj (alive.symm.trans alive'), hparent] at parent
    obtain rfl := Option.some.inj parent
    exact .inr (List.mem_cons_of_mem _ List.mem_cons_self)

theorem Sever.entryStep {q : Addr} (h : Sever q w w') (hw : Sound w) : EntryStep w w' where
  rep i n r rep entry hr := by
    by_cases heq : r = q
    · subst heq
      obtain ⟨⟨rep', hrep', hparent, hcall⟩, hlog, hawaits⟩ := entry.awaits h hw.linked hr
      exact .severed hrep' hparent hcall hlog hawaits fun d hd => h.told hr hd
    · exact .same ((h.others heq).trans hr)
  fresh a sl i ha hs _ := by
    obtain ⟨y, hy⟩ := h.old_slot hs
    exact absurd (hw.slots a y hy) (Nat.not_lt.mpr ha)
  silences f hf p hp := by
    rcases h.marks hw.linked hf (Frame.marks_of_silences hp) with hold | ⟨i, n, rfl, -⟩
    · exact .inl hold
    · cases hp
  emissions e he := by
    rcases h.marks hw.linked he rfl with hold | ⟨i, n, heq, -⟩
    · exact .inl hold
    · cases heq
  erasures i n he := by
    rcases h.marks hw.linked he rfl with hold | ⟨j, m, heq, entry, hlog⟩
    · exact .inl hold
    · obtain ⟨rfl, rfl⟩ := Frame.erase.inj heq
      exact .inr ⟨q, entry, hlog⟩
  finished := .inl h.finished

/-! ## Slots -/

/-- What is left of the rep `q` when its functor is detached; the other elements do not notice. -/
theorem SlotRep.detachFunctor_entry {q : Addr} {fo : Option Functor} (hw : Sound w)
    (run : SlotRep.detachFunctor q v = (.ret fo, w')) (slots : v.slots = w.slots)
    (reps : v.reps = w.reps) :
    (∀ i n r, w.Entry i n r → r ≠ q → w'.reps r = w.reps r) ∧
      ∃ rep rep', w.reps q = some rep ∧ w'.reps q = some rep' ∧ rep'.call = false ∧
        ∀ i n, w.Entry i n q → rep'.parent = rep.parent := by
  obtain ⟨rep, tks, rps, hrep, hfo, rfl, -, rps₁, rep', hun, hrep', rfl⟩ :=
    SlotRep.detachFunctor_effect run
  rw [slots, reps] at hun
  rw [reps] at hrep
  -- the slots in a functor are no elements
  have hinner {i n r} (entry : w.Entry i n r) {s : SlotAddr} {sl : SlotBase}
      (hs : .slot s ∈ fo.getD []) (hsl : w.slots s = some sl) (hr : sl.rep = some r) : False := by
    cases fo with
    | none => cases hs
    | some f =>
      obtain ⟨a, rfl, -, howner⟩ := (hw.functor q rep f hrep hfo).slot s hs
      have hlist := (entry.holder hw.linked hsl hr).2.1
      rw [howner sl hsl] at hlist
      cases hlist
  constructor
  · intro i n r entry hne
    show Function.update rps₁ q _ r = w.reps r
    rw [Function.update_of_ne hne]
    rcases hun r with heq | ⟨s, sl, y, hs, hsl, hr, -⟩
    · rw [heq, Function.update_of_ne hne]
    · exact (hinner entry hs hsl hr).elim
  · refine ⟨rep, { rep' with functor := none }, hrep, Function.update_self _ _ _, ?_, ?_⟩
    · rcases hun q with heq | ⟨s, sl, y, hs, hsl, hr, hold, -, heq⟩
      · rw [hrep', Function.update_self] at heq
        rw [Option.some.inj heq]
      · rw [hrep'] at heq
        rw [Function.update_self] at hold
        rw [Option.some.inj heq, ← Option.some.inj hold]
    · intro i n entry
      rcases hun q with heq | ⟨s, sl, y, hs, hsl, hr, -⟩
      · rw [hrep', Function.update_self] at heq
        rw [Option.some.inj heq]
      · exact (hinner entry hs hsl hr).elim

theorem Sever.not_call {q : Addr} (h : Sever q w w') {rep' : SlotRep}
    (hrep : w'.reps q = some rep') : rep'.call = false := by
  have hself {y : SlotRep} (hq : Function.update w.reps q
      (some { y with call := false, parent := Option.none }) q = some rep') :
      rep'.call = false := by
    rw [Function.update_self] at hq
    rw [← Option.some.inj hq]
  cases h <;> exact hself hrep

theorem SlotStep.startInvalidation_entryStep {q x : Addr} (hw : Sound w)
    (alive : w.reps q = some rep)
    (run : WeakRawPtr.construct (some (.rep q)) true
      ((w.setRep q (some { rep with call := false })).record (.disconnected q)) = (.ret x, v))
    (h : Sever q (v.push (.invalidating q x)) w') : EntryStep w w' := by
  have hl := hw.linked.invalidating alive run
  obtain ⟨-, tks, ign, rfl, -⟩ := WeakRawPtr.construct_effect run
  -- What can be on the stack now is the invalidation, a frame from before, or the erase of q.
  have hframes {f : Frame V} (hf : f ∈ w'.frames) (hm : f.marks = true) :
      f = .invalidating q x ∨ f ∈ w.frames ∨
        ∃ i n, f = .erase i n ∧ w.Entry i n q ∧ .disconnected q ∈ w'.log := by
    rcases h.marks hl hf hm with hf | ⟨i, n, rfl, entry, hlog⟩
    · exact (List.mem_cons.mp hf).imp_right .inl
    · exact .inr (.inr ⟨i, n, rfl, ⟨entry.listed, entry.slot⟩, hlog⟩)
  refine ⟨fun i n r y entry hr => ?_, fun a sl i ha hs _ => ?_, fun f hf p hp => ?_,
    fun e he => ?_, fun i n he => ?_, .inl h.finished⟩
  -- The rep that is invalidated has lost its parent and waits for its removal; the others are as
  -- before.
  · by_cases heq : r = q
    · subst heq
      rw [alive] at hr
      obtain rfl := Option.some.inj hr
      obtain ⟨⟨rep', hrep', hparent, hcall⟩, hlog, hawaits⟩ :=
        World.Entry.awaits (i := i) (n := n) (by exact ⟨entry.listed, entry.slot⟩) h hl
          (Function.update_self _ _ _)
      refine .severed hrep' hparent hcall hlog (hawaits.imp_right fun h => h.imp_left fun hu => ?_)
        fun d hd => h.told (Function.update_self _ _ _) hd
      simpa [World.owned, World.push, World.record, World.setRep, Frame.owns] using hu
    · refine .same ((h.others heq).trans ?_)
      show Function.update w.reps q _ r = some y
      rw [Function.update_of_ne heq]
      exact hr
  · obtain ⟨y, hy⟩ := h.old_slot hs
    exact absurd (hw.slots a y hy) (Nat.not_lt.mpr ha)
  · rcases hframes hf (Frame.marks_of_silences hp) with rfl | hold | ⟨i, n, rfl, -⟩
    · obtain rfl : q = p := Option.some.inj hp
      refine .inr ⟨fun y hy => h.not_call hy, fun hd => ?_⟩
      cases hd
    · exact .inl hold
    · cases hp
  · rcases hframes he rfl with heq | hold | ⟨i, n, heq, -⟩
    · cases heq
    · exact .inl hold
    · cases heq
  · rcases hframes he rfl with heq | hold | ⟨j, m, heq, entry, hlog⟩
    · cases heq
    · exact .inl hold
    · obtain ⟨rfl, rfl⟩ := Frame.erase.inj heq
      exact .inr ⟨q, entry, hlog⟩

namespace SlotStep

variable {src dst s : SlotAddr} {owner : Owner} {init : SlotInit} {fo : Option Functor}
  {below : List (Frame V)} {new : Addr}

theorem construct_entryStep (hw : Sound w) (unlisted : ∀ i, owner ≠ .list i)
    (functor : ∀ f, init.functor = some f → w.FunctorOk f)
    (run : SlotBase.construct owner init w = (.ret s, w')) : EntryStep w w' := by
  have hfresh {x : SlotBase} (hx : x.owner = owner) (b : Addr) (c sl i) (hc : w.next ≤ c)
      (hs : Function.update w.slots (.object b) (some x) (.object c) = some sl)
      (howner : sl.owner = .list i) : False := by
    obtain ⟨-, hsl⟩ | ⟨-, hold⟩ := update_eq_some.mp hs
    · obtain rfl := Option.some.inj hsl
      exact unlisted i (hx.symm.trans howner)
    · exact Nat.not_lt.mpr hc (hw.slots c sl hold)
  obtain ⟨-, rfl, rfl⟩ | ⟨f, tks, ign, rps, hf, hcons, rfl, rfl⟩ := SlotBase.construct_effect run
  · exact .muted (fun _ _ _ _ _ hr => .same hr)
      (fun c sl i hc hs howner => (hfresh rfl _ c sl i hc hs howner).elim) rfl (.of_frames rfl)
  · exact .muted
      (fun _ _ _ _ entry hr => .same ((hcons.entry hw (functor f hf) entry).trans hr))
      (fun c sl i hc hs howner => (hfresh rfl _ c sl i hc hs howner).elim) rfl (.of_frames rfl)

theorem take_entryStep {blocked : Bool} (hw : Sound w) (unlisted : ∀ i, owner ≠ .list i)
    (run : SlotBase.takeRep owner src blocked w = (.ret s, w')) : EntryStep w w' := by
  obtain ⟨sl, ⟨hsrc, -⟩, rfl, rfl⟩ := SlotBase.takeRep_effect run
  refine .muted (fun _ _ _ _ _ hr => .same hr) (fun c x i hc hs howner => ?_) rfl (.of_frames rfl)
  obtain ⟨-, hx⟩ | ⟨-, hx⟩ := update_eq_some.mp hs
  · obtain rfl := Option.some.inj hx
    exact (unlisted i howner).elim
  · obtain ⟨rfl, -⟩ | ⟨-, hold⟩ := update_eq_some.mp hx
    · exact absurd (hw.slots c sl hsrc) (Nat.not_lt.mpr hc)
    · exact absurd (hw.slots c x hold) (Nat.not_lt.mpr hc)

theorem detach_entryStep {x : Addr} (hw : Sound w) (top : w.frames = .invalidating r x :: below)
    (run : SlotRep.detachFunctor r w = (.ret fo, w')) : EntryStep w w' := by
  obtain ⟨hothers, rep, rep', hrep, hrep', hcall, hparent⟩ :=
    SlotRep.detachFunctor_entry hw run rfl rfl
  obtain ⟨-, tks, rps, -, -, rfl, -⟩ := SlotRep.detachFunctor_effect run
  refine .kept hw.toWellAddressed (fun i n q y entry hq => ?_) rfl rfl (.of_frames rfl)
  by_cases heq : q = r
  · subst heq
    rw [hrep] at hq
    obtain rfl := Option.some.inj hq
    exact .detached (top ▸ List.mem_cons_self) hrep' (hparent i n entry) hcall
  · exact .same ((hothers i n q entry heq).trans hq)

/-- A rep that is deleted is not held by an element: the slot that holds it is not one any more. -/
theorem not_entry_of_delete {sl : SlotBase} (hw : Sound w) (slot : w.slots s = some sl)
    (rep : sl.rep = some r) (unlisted : sl.dying = true ∨ ¬w.Listed s) : ¬w.Entry i n r := by
  intro entry
  obtain ⟨rfl, howner, hdying⟩ := entry.holder hw.linked slot rep
  cases unlisted with
  | inl hd =>
    rw [hdying] at hd
    cases hd
  | inr hu => exact hu ⟨sl, i, slot, howner⟩

theorem beginDelete_entryStep {base : Trackable} {sl : SlotBase} (hw : Sound w)
    (slot : w.slots s = some sl) (rep : sl.rep = some r)
    (unlisted : sl.dying = true ∨ ¬w.Listed s)
    (run : SlotRep.detachFunctor r ((w.setTrackable r (some { base with dying := true })).push
      (.deleting r)) = (.ret fo, w')) : EntryStep w w' := by
  obtain ⟨hothers, y, rep', hrep, hrep', hcall, -⟩ := SlotRep.detachFunctor_entry hw run rfl rfl
  obtain ⟨-, tks, rps, -, -, rfl, -⟩ := SlotRep.detachFunctor_effect run
  have hnone (i : Addr) (n : SlotAddr) : ¬w.Entry i n r := not_entry_of_delete hw slot rep unlisted
  refine ⟨fun i n q z entry hq => .same ((hothers i n q entry ?_).trans hq),
    fun c sl i hc hs _ => ?_, fun f hf p hp => ?_, fun e he => ?_, fun i n he => ?_, .inl rfl⟩
  · rintro rfl
    exact hnone i n entry
  · exact absurd (hw.slots c sl hs) (Nat.not_lt.mpr hc)
  · rcases List.mem_cons.mp hf with rfl | hold
    · obtain rfl : r = p := Option.some.inj hp
      refine .inr ⟨fun z hz => ?_, fun _ => hnone⟩
      rw [hrep'] at hz
      rw [← Option.some.inj hz]
      exact hcall
    · exact .inl hold
  · rcases List.mem_cons.mp he with heq | hold
    · cases heq
    · exact .inl hold
  · rcases List.mem_cons.mp he with heq | hold
    · cases heq
    · exact .inl hold

theorem endDelete_entryStep (hw : WellAddressed w) (top : w.frames = .deleting r :: below) :
    EntryStep w ((w.setRep r none).setTrackable r none).pop := by
  refine .kept hw (fun i n q y entry hq => ?_) rfl rfl .pop
  by_cases heq : q = r
  · subst heq
    exact .deleted (top ▸ List.mem_cons_self) (Function.update_self _ _ _)
  · exact .same ((Function.update_of_ne heq _ _).trans hq)

theorem cloneFor_entryStep {f : Functor} (hw : Sound w) (functor : w.FunctorOk f)
    (run : SlotBase.cloneFor dst f w = (.ret new, w')) : EntryStep w w' := by
  obtain ⟨rfl, tks, ign, rps, sl, w₂, hcons, alive, hpass, rfl⟩ := SlotBase.cloneFor_effect run
  have hreps {i n r} (entry : w.Entry i n r) : w₂.reps r = w.reps r := by
    obtain ⟨-, rfl⟩ | ⟨_, _, _, -, -, -, rfl⟩ := SlotBase.passParent_effect hpass
    · exact hcons.entry hw functor entry
    · exact (Function.update_of_ne (Nat.ne_of_lt (entry.lt hw.toWellAddressed)) _ _).trans
        (hcons.entry hw functor entry)
  have hsame : w₂.slots = w.slots ∧ w₂.finished = w.finished ∧ w₂.frames = w.frames := by
    obtain ⟨-, rfl⟩ | ⟨_, _, _, -, -, -, rfl⟩ := SlotBase.passParent_effect hpass <;>
      exact ⟨rfl, rfl, rfl⟩
  exact .kept hw.toWellAddressed (fun i n r y entry hr => .same ((hreps entry).trans hr)) hsame.1
    hsame.2.1 ((World.Mutes.of_frames hsame.2.2).trans (.push rfl))

theorem moveFor_entryStep (hw : Sound w) (hw' : WellAddressed w') (source : ¬w.Listed src)
    (run : SlotBase.moveFor dst src w = (.ret new, w')) : EntryStep w w' := by
  obtain ⟨from_, sl, w₂, ⟨hfrom, -⟩, hnew, hdst, hpass, rfl⟩ := SlotBase.moveFor_effect run
  have hne {i n r} (entry : w.Entry i n r) : r ≠ new := by
    rintro rfl
    exact World.not_listed source hfrom i (entry.holder hw.linked hfrom hnew).2.1
  have hreps {i n r} (entry : w.Entry i n r) : w₂.reps r = w.reps r := by
    obtain ⟨-, rfl⟩ | ⟨_, _, _, -, -, -, rfl⟩ := SlotBase.passParent_effect hpass
    · rfl
    · exact Function.update_of_ne (hne entry) _ _
  have hsame : w₂.next = w.next ∧ w₂.finished = w.finished ∧ w₂.frames = w.frames := by
    obtain ⟨-, rfl⟩ | ⟨_, _, _, -, -, -, rfl⟩ := SlotBase.passParent_effect hpass <;>
      exact ⟨rfl, rfl, rfl⟩
  exact .muted (fun i n r y entry hr => .same ((hreps entry).trans hr))
    (fun c x i hc hs _ => absurd hs (EntryStep.old hw.toWellAddressed hw' (.inl hsame.1) hc))
    hsame.2.1 ((World.Mutes.of_frames hsame.2.2).trans (.push rfl))

end SlotStep

theorem SlotStep.entryStep (h : SlotStep w w') (hw : Sound w) (hw' : WellAddressed w') :
    EntryStep w w' := by
  have ha := hw.toWellAddressed
  cases h with
  | construct unlisted functor run => exact construct_entryStep hw unlisted functor run
  | move r => exact .quiet ha hw' (.inl rfl) rfl rfl (.of_frames rfl)
  | take unlisted source told run => exact take_entryStep hw unlisted run
  | setBlocked b alive => exact .quiet ha hw' (.inl rfl) rfl rfl (.of_frames rfl)
  | beginDestroy alive unlisted => exact .quiet ha hw' (.inl rfl) rfl rfl (.of_frames rfl)
  | endDestroy empty => exact .quiet ha hw' (.inl rfl) rfl rfl (.of_frames rfl)
  | sever h => exact h.entryStep hw
  | startInvalidation calm alive run sever => exact startInvalidation_entryStep hw alive run sever
  | detach top run => exact detach_entryStep hw top run
  | endInvalidation top weak gutted run =>
    obtain ⟨tks, self, -, rfl, -⟩ := WeakRawPtr.destroy_effect run
    exact .quiet ha hw' (.inl rfl) rfl rfl (World.Mutes.pop (w := w))
  | @endCallback w₁ r x c t pos deps below tr l top weak gutted run alive list element =>
    obtain ⟨tks, self, -, rfl, -⟩ := WeakRawPtr.destroy_effect run
    exact .quiet ha hw' (.inl rfl) rfl rfl
      ((World.Mutes.pop (w := w)).trans (World.Mutes.setTop (w := w.pop) rfl))
  | beginDelete calm alive idle slot rep unlisted run =>
    exact beginDelete_entryStep hw slot rep unlisted run
  | endDelete top alive notified => exact endDelete_entryStep ha top
  | startCheck calm alive rep unlisted run =>
    obtain ⟨-, tks, ign, rfl, -⟩ := WeakRawPtr.construct_effect run
    exact .quiet ha hw' (.inr rfl) rfl rfl (World.Mutes.push (w := w) rfl)
  | clearRep top alive intact unlisted => exact .quiet ha hw' (.inl rfl) rfl rfl (.of_frames rfl)
  | endCheck top run =>
    obtain ⟨tks, self, -, rfl, -⟩ := WeakRawPtr.destroy_effect run
    exact .quiet ha hw' (.inl rfl) rfl rfl (World.Mutes.pop (w := w))
  | cloneFor calm unlisted functor run => exact cloneFor_entryStep hw functor run
  | moveFor calm unlisted source told run => exact moveFor_entryStep hw hw' source run
  | finishAssign top alive intact unlisted => exact .quiet ha hw' (.inl rfl) rfl rfl .pop
  | pushHandler calm alive call => exact .quiet ha hw' (.inl rfl) rfl rfl (.push rfl)
  | popHandler top => exact .quiet ha hw' (.inl rfl) rfl rfl .pop
  | pushFunctorDtor calm used functor gutted => exact .quiet ha hw' (.inl rfl) rfl rfl (.push rfl)
  | nextTarget top => exact .quiet ha hw' (.inl rfl) rfl rfl (.setTop rfl)
  | popFunctorDtor top => exact .quiet ha hw' (.inl rfl) rfl rfl .pop

/-! ## Signals and emissions -/

/-- The element at `b` takes its place; before that, `v` is `w` but for what the element holds. -/
theorem SignalImpl.Placed.entryStep {b : Addr} {first : Bool} {sl : SlotBase} {j : Addr}
    (h : SignalImpl.Placed v j first (.object b) sl w') (hw : WellAddressed w)
    (user : w.UserPoint) (owner : sl.owner = .list j)
    (next : w.next ≤ v.next) (frames : v.frames = w.frames) (finished : v.finished = w.finished)
    (log : v.log = w.log)
    (reps : ∀ i n r, w.Entry i n r → v.reps r = w.reps r ∧ sl.rep ≠ some r)
    (slots : ∀ c x, w.next ≤ c → v.slots (.object c) = some x → c = b) : EntryStep w w' := by
  obtain ⟨-, self, q, y, nx, tks, himpl, hidle, hplaced, rfl⟩ := h
  refine .muted (fun i n r rep entry hr => .same ?_) (fun c x i hc hs howner => ?_) finished
    (.of_frames frames)
  · obtain ⟨hold, hfree⟩ := reps i n r entry
    refine (Function.update_of_ne ?_ _ _).trans (hold.trans hr)
    rintro rfl
    obtain ⟨hsl, -⟩ | ⟨-, rfl, -⟩ := hplaced
    · exact hfree hsl
    · exact absurd (entry.lt hw) (Nat.not_lt.mpr (Nat.le_succ_of_le next))
  · obtain ⟨-, hx⟩ | ⟨hne, hold⟩ := update_eq_some.mp hs
    · obtain rfl := Option.some.inj hx
      obtain rfl : j = i := Owner.list.inj (owner.symm.trans howner)
      exact ⟨user, frames ▸ hidle, q, _, rfl, Function.update_self _ _ _, by simp, first, by
        rw [← log]
        rfl⟩
    · exact absurd (congrArg SlotAddr.object (slots c x hc hold)) hne

theorem SignalImpl.insertBuilt_entryStep {j : Addr} {first : Bool} {init : SlotInit} (hw : Sound w)
    (user : w.UserPoint)
    (functor : ∀ f, init.functor = some f → w.FunctorOk f)
    (run : SignalImpl.insertBuilt j first init w = (.ret n, w')) : EntryStep w w' := by
  obtain ⟨w₁, rep?, hcons, hframes, hp⟩ := SignalImpl.insertBuilt_effect run
  have hslots {x : SlotBase} {b : Addr} (c y) (hc : w.next ≤ c)
      (hs : Function.update w.slots (.object b) (some x) (.object c) = some y) : c = b := by
    obtain ⟨heq, -⟩ | ⟨-, hold⟩ := update_eq_some.mp hs
    · exact SlotAddr.object.inj heq
    · exact absurd (hw.slots c y hold) (Nat.not_lt.mpr hc)
  obtain ⟨-, rfl, rfl⟩ | ⟨f, tks, ign, rps, hf, hconstructed, rfl, rfl⟩ :=
    SlotBase.construct_effect hcons
  · refine hp.entryStep hw.toWellAddressed user rfl (Nat.le_succ _) hframes rfl rfl
      (fun i n r entry => ⟨rfl, ?_⟩) hslots
    have hrep := congrArg SlotBase.rep (Option.some.inj (hp.1.symm.trans
      (Function.update_self _ _ _)))
    simp only at hrep
    rw [hrep]
    simp
  · refine hp.entryStep hw.toWellAddressed user rfl (Nat.le_add_right _ 2) hframes rfl rfl
      (fun i n r entry => ⟨hconstructed.entry hw (functor f hf) entry, ?_⟩) hslots
    have hrep := congrArg SlotBase.rep (Option.some.inj (hp.1.symm.trans
      (Function.update_self _ _ _)))
    simp only at hrep
    rw [hrep]
    intro heq
    exact absurd (Option.some.inj heq) (Nat.ne_of_gt (entry.lt hw.toWellAddressed))

theorem SignalImpl.insertTaken_entryStep {j : Addr} {first : Bool} {src : SlotAddr}
    {blocked : Bool} (hw : Sound w) (user : w.UserPoint) (source : ¬w.Listed src)
    (run : SignalImpl.insertTaken j first src blocked w = (.ret n, w')) : EntryStep w w' := by
  obtain ⟨w₁, sl, htake, hframes, hsrc, hp⟩ := SignalImpl.insertTaken_effect run
  obtain ⟨sl', ⟨hsrc', -⟩, rfl, rfl⟩ := SlotBase.takeRep_effect htake
  refine hp.entryStep hw.toWellAddressed user rfl (Nat.le_succ _) hframes rfl rfl
    (fun i n r entry => ⟨rfl, fun heq => ?_⟩) fun c x hc hs => ?_
  · exact World.not_listed source hsrc i (entry.holder hw.linked hsrc heq).2.1
  · obtain ⟨heq, -⟩ | ⟨-, hx⟩ := update_eq_some.mp hs
    · exact SlotAddr.object.inj heq
    · obtain ⟨rfl, -⟩ | ⟨-, hold⟩ := update_eq_some.mp hx
      · exact absurd (hw.slots c sl hsrc) (Nat.not_lt.mpr hc)
      · exact absurd (hw.slots c x hold) (Nat.not_lt.mpr hc)

theorem World.letGo_mutes {old : Option Addr} (run : SignalBase.letGo old v = (.ret old, w'))
    (frames : v.frames = w.frames) :
    w.Mutes w' ∧ w'.reps = v.reps ∧ w'.next = v.next ∧ w'.finished = v.finished := by
  obtain ⟨-, rfl⟩ := SignalBase.letGo_effect run
  cases old with
  | none => exact ⟨.of_frames frames, rfl, rfl, rfl⟩
  | some i =>
    show w.Mutes (v.letGo i) ∧ (v.letGo i).reps = v.reps ∧ (v.letGo i).next = v.next ∧
      (v.letGo i).finished = v.finished
    unfold World.letGo
    split
    · exact ⟨(World.Mutes.of_frames frames).trans (.push rfl), rfl, rfl, rfl⟩
    · have hsame : w.Mutes (v.record (.expired i (v.frames.any (Frame.execOn i)))) :=
        World.Mutes.of_frames frames
      exact ⟨hsame.trans (.push rfl), rfl, rfl, rfl⟩

theorem SignalImpl.enterSweep_mutes {it : Option SlotAddr}
    (run : SignalImpl.enterSweep i w = (.ret it, w')) :
    w.Mutes w' ∧ w'.reps = w.reps ∧ w'.next = w.next ∧ w'.finished = w.finished := by
  obtain ⟨self, -, -, rfl⟩ := SignalImpl.enterSweep_effect run
  exact ⟨(World.Mutes.of_frames rfl).trans (.push rfl), rfl, rfl, rfl⟩

theorem SignalStep.entryStep (h : SignalStep w w') (hw : Sound w) (hw' : WellAddressed w') :
    EntryStep w w' := by
  have ha := hw.toWellAddressed
  cases h with
  | insertBuilt user owned functor run => exact SignalImpl.insertBuilt_entryStep hw user functor run
  | insertTaken user owned source told run =>
    exact SignalImpl.insertTaken_entryStep hw user source run
  | new => exact .quiet ha hw' (.inr rfl) rfl rfl (.of_frames rfl)
  | impl run =>
    obtain ⟨-, rfl⟩ | ⟨-, -, rfl⟩ := SignalBase.impl_effect run <;>
      exact .quiet ha hw' (.inr rfl) rfl rfl (.of_frames rfl)
  | copyConstruct handle run =>
    obtain ⟨i, w₁, hrun, -, rfl⟩ := SignalBase.copyConstruct_effect run
    obtain ⟨-, rfl⟩ | ⟨-, -, rfl⟩ := SignalBase.impl_effect hrun <;>
      exact .quiet ha hw' (.inr rfl) rfl rfl (.of_frames rfl)
  | moveConstruct run =>
    obtain ⟨-, rfl⟩ := SignalBase.moveConstruct_effect run
    exact .quiet ha hw' (.inr rfl) rfl rfl (.of_frames rfl)
  | replaceImpl calm owned run =>
    obtain ⟨-, hgo⟩ := SignalBase.replaceImpl_effect run
    obtain ⟨hmutes, hreps, hnext, hfinished⟩ := World.letGo_mutes hgo rfl
    exact .quiet ha hw' (.inl hnext) hreps hfinished hmutes
  | dropHandle calm run =>
    obtain ⟨-, hgo⟩ := SignalBase.dropHandle_effect run
    obtain ⟨hmutes, hreps, hnext, hfinished⟩ := World.letGo_mutes (w := w) hgo rfl
    exact .quiet ha hw' (.inl hnext) hreps hfinished hmutes
  | endRelease top done => exact .quiet ha hw' (.inl rfl) rfl rfl .pop
  | endDispose top unowned idle alive empty => exact .quiet ha hw' (.inl rfl) rfl rfl (.of_frames rfl)
  | endCleanup top => exact .quiet ha hw' (.inl rfl) rfl rfl (World.Mutes.pop (w := w))
  | enterClear calm run =>
    obtain ⟨self, himpl, rfl, rfl, rfl, -, rfl⟩ := SignalImpl.enterClear_effect run
    exact .quiet ha hw' (.inl rfl) rfl rfl (World.Mutes.push (w := w) rfl)
  | clearNext top impl next severed => exact .quiet ha hw' (.inl rfl) rfl rfl (.setTop rfl)
  | recordCleared top => exact .quiet ha hw' (.inl rfl) rfl rfl (.of_frames rfl)
  | restoreDeferred top impl => exact .quiet ha hw' (.inl rfl) rfl rfl (.of_frames rfl)
  | clearErase top impl slots alive =>
    exact .quiet ha hw' (.inl rfl) rfl rfl (World.Mutes.setTop (w := w) rfl)
  | clearErased top gone => exact .quiet ha hw' (.inl rfl) rfl rfl (.setTop rfl)
  | leaveClear top impl cleared quiet =>
    exact .quiet ha hw' (.inl rfl) rfl rfl (World.Mutes.pop (w := w))
  | leaveClearSweep top impl cleared sweeps owned run =>
    obtain ⟨hmutes, hreps, hnext, hfinished⟩ := SignalImpl.enterSweep_mutes run
    exact .quiet ha hw' (.inl hnext) hreps hfinished ((World.Mutes.pop (w := w)).trans hmutes)
  | sweepSkip top impl next keep => exact .quiet ha hw' (.inl rfl) rfl rfl (.setTop rfl)
  | sweepErase top impl next element empty alive =>
    exact .quiet ha hw' (.inl rfl) rfl rfl (World.Mutes.setTop (w := w) rfl)
  | sweepErased top gone => exact .quiet ha hw' (.inl rfl) rfl rfl (.setTop rfl)
  | leaveHolder top holder impl quiet =>
    exact .quiet ha hw' (.inl rfl) rfl rfl (World.Mutes.setTop (w := w) rfl)
  | leaveHolderSweep top holder impl sweeps run =>
    obtain ⟨hmutes, hreps, hnext, hfinished⟩ := SignalImpl.enterSweep_mutes run
    exact .quiet ha hw' (.inl hnext) hreps hfinished ((World.Mutes.setTop (w := w) rfl).trans hmutes)
  | startRelease top => exact .quiet ha hw' (.inl rfl) rfl rfl (.setTop rfl)

/-- The emission on top has been replaced by something else that is no emission. -/
theorem EmissionStep.finish_entryStep {e : Emission V} {below : List (Frame V)} {completed : Bool}
    (hw : WellAddressed w) (hw' : WellAddressed w') (top : w.frames = .emission e :: below)
    (ends : e.Over completed) (next : w'.next = w.next) (reps : w'.reps = w.reps)
    (finished : w'.finished = (e, completed) :: w.finished) (h : w.Mutes w') : EntryStep w w' where
  rep _ _ _ _ _ hr := .same (reps ▸ hr)
  fresh _ _ _ ha hs _ := absurd hs (EntryStep.old hw hw' (.inl next) ha)
  silences := EntryStep.mutes h
  emissions := EntryStep.emits h
  erasures _ _ he := .inl (h _ he rfl)
  finished := .inr ⟨e, below, completed, top, ends, finished⟩

theorem EmissionStep.entryStep (h : EmissionStep w w') (hw : WellAddressed w)
    (hw' : WellAddressed w') : EntryStep w w' := by
  -- the emission on top goes on
  have hmove {e e' : Emission V} {below : List (Frame V)} (top : w.frames = .emission e :: below)
      (hw' : WellAddressed (w.setTop (.emission e'))) (moves : e.Moves w e') :
      EntryStep w (w.setTop (.emission e')) := by
    have hframes : (w.setTop (.emission e')).frames = .emission e' :: below := by
      rw [World.setTop, top, List.tail_cons]
    refine ⟨fun _ _ _ _ _ hr => .same hr,
      fun _ _ _ ha hs _ => absurd hs (EntryStep.old hw hw' (.inl rfl) ha), fun f hf q hq => ?_,
      fun e'' he => ?_, fun i n he => ?_, .inl rfl⟩
    · rcases List.mem_cons.mp hf with rfl | hm
      · cases hq
      · exact .inl (List.mem_of_mem_tail hm)
    · rcases List.mem_cons.mp he with heq | hm
      · obtain rfl := Frame.emission.inj heq
        exact .inr (.inl ⟨e, below, top, hframes, rfl, moves⟩)
      · exact .inl (List.mem_of_mem_tail hm)
    · rcases List.mem_cons.mp he with heq | hm
      · cases heq
      · exact .inl (List.mem_of_mem_tail hm)
  cases h with
  | @start w' i e calm owned run =>
    obtain ⟨self, himpl, -, rfl, rfl⟩ := Emission.start_effect run
    refine ⟨fun _ _ _ _ _ hr => .same hr,
      fun _ _ _ ha hs _ => absurd hs (EntryStep.old hw hw' (.inl rfl) ha), fun f hf q hq => ?_,
      fun e'' he => ?_, fun i n he => ?_, .inl rfl⟩
    · rcases List.mem_cons.mp hf with rfl | hm
      · cases hq
      · exact .inl hm
    · rcases List.mem_cons.mp he with heq | hm
      · obtain rfl := Frame.emission.inj heq
        exact .inr (.inr ⟨self, _, himpl, Function.update_self _ _ _, rfl, rfl, ⟨_, rfl⟩, rfl⟩)
      · exact .inl hm
    · rcases List.mem_cons.mp he with heq | hm
      · cases heq
      · exact .inl hm
  | skip top inside arrived slot uncallable impl next =>
    exact hmove top hw' (.skip inside arrived uncallable impl next)
  | beginCall top inside arrived callable => exact hmove top hw' (.beginCall inside arrived callable)
  | endCall v top invoking => exact hmove top hw' (.endCall v invoking)
  | advance top invoked impl next => exact hmove top hw' (.advance invoked impl next)
  | finish top ends impl element quiet =>
    exact EmissionStep.finish_entryStep hw hw' top ends rfl rfl rfl
      (World.Mutes.setTop (w := w) rfl)
  | finishSweep top ends impl element sweeps run =>
    obtain ⟨hmutes, hreps, hnext, hfinished⟩ := SignalImpl.enterSweep_mutes run
    exact EmissionStep.finish_entryStep hw hw' top ends hnext hreps hfinished
      ((World.Mutes.setTop (w := w) rfl).trans hmutes)

theorem Step.entryStep (h : Step w w') (hw : Sound w) : EntryStep w w' := by
  have hw' := (h.sound hw).toWellAddressed
  cases h with
  | command script wellFormed =>
    exact .quiet hw.toWellAddressed hw' (.inl rfl) rfl rfl (.of_frames rfl)
  | trackable h => exact h.entryStep hw.toWellAddressed hw'
  | weak h => exact h.entryStep hw.toWellAddressed hw'
  | slot h => exact h.entryStep hw hw'
  | signal h => exact h.entryStep hw hw'
  | emission h => exact h.entryStep hw.toWellAddressed hw'

end Sigc
