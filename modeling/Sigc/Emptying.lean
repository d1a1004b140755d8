import Sigc.Notified
import Sigc.VisitorCoverage

/-!
# The slots that are built from an expression

A slot that is built from a functor expression depends on the trackables that the visitors reach in
it: when one of them is destroyed the slot becomes empty, whatever has been done to the slot in
between.  Together with what the visitors reach, this tells from the expression whether the slot
survives an object that it refers to.
-/

namespace Sigc

open Reasoning Prog

variable {V : Type} {w w₁ w' : World V} {r t : Addr} {f : Functor}

/-! ## A slot that has lost a dependency is empty -/

namespace World

/-- A slot that has been moved in the middle of its invalidation cannot be called. -/
def Displaces (w : World V) : Prop := ∀ r, .moved r true ∈ w.log → r < w.next ∧ w.Silent r

/-- `t` has not ignored the rep `r`, as long as there is one. -/
def Heeds (w : World V) (t r : Addr) : Prop := w.reps r = none ∨ (t, r) ∉ w.ignored

/-- What a trackable has ignored was a dependency of something that exists. -/
def IgnoresBelow (w : World V) : Prop := ∀ p ∈ w.ignored, p.2 < w.next

theorem Silent.extends (h : w.Silent r) (hext : Extends w w') (hr : r < w.next) :
    w'.Silent r := by
  intro rep' hrep'
  obtain ⟨rep, hrep, hcall, -⟩ := hext.reps.old hr hrep'
  rw [← Bool.not_eq_true]
  intro hcall'
  rw [h rep hrep] at hcall
  exact Bool.false_ne_true (hcall hcall')

theorem Displaces.step (hd : w.Displaces) (hs : w.Silences) (h : Step w w') (hw : Sound w) :
    w'.Displaces := by
  have hext := (h.advances hw.toWellAddressed).extension
  have hold {q : Addr} (hq : q < w.next ∧ w.Silent q) : q < w'.next ∧ w'.Silent q :=
    ⟨Nat.lt_of_lt_of_le hq.1 hext.next, hq.2.extends hext hq.1⟩
  intro q hm
  cases h.logStep with
  | quiet log => exact hold (hd q (log ▸ hm))
  | @other ev neutral calls notice moves log =>
    rw [log] at hm
    rcases List.mem_cons.mp hm with hev | hm
    -- A slot is moved in the middle of its rep's invalidation, which has switched the rep off.
    · obtain ⟨f, hf, hinvalidates⟩ := List.any_eq_true.mp (moves q hev.symm)
      cases f with
      | invalidating q' x =>
        obtain rfl : q' = q := by simpa [Frame.invalidates] using hinvalidates
        exact hold ⟨(hw.frames _ hf).1, hs _ hf q' rfl⟩
      | _ => cases hinvalidates
    · exact hold (hd q hm)
  | disconnected alive log call =>
    refine hold (hd q ?_)
    rcases log with log | log <;> simpa [log] using hm
  | connected first impl sets slot holds alive log =>
    exact hold (hd q (by simpa [log] using hm))

theorem IgnoresBelow.step (hb : w.IgnoresBelow) (h : Step w w') (hw : Sound w) :
    w'.IgnoresBelow := by
  have hext := (h.advances hw.toWellAddressed).extension
  intro p hp
  -- What is ignored was so before, or is the rep being built, or a weak pointer.
  rcases h.retains.ignores p hp with hold | ⟨heq, hlt⟩ | hweak
  · exact Nat.lt_of_lt_of_le (hb p hold) hext.next
  · exact heq ▸ hlt
  · obtain ⟨self, hself⟩ := Option.ne_none_iff_exists'.mp hweak
    exact Nat.lt_of_lt_of_le (hw.weaks _ _ hself) hext.next

theorem Heeds.step (hh : w.Heeds t r) (hr : r < w.next) (registered : w.Registered)
    (h : Step w w') (hw : Sound w) : w'.Heeds t r := by
  have hext := (h.advances hw.toWellAddressed).extension
  have hgone (hnone : w.reps r = none) : w'.Heeds t r := .inl (hext.reps.eq_none hr hnone)
  rcases hh with hnone | hheeds
  · exact hgone hnone
  -- Only a rep that is being built can be refused, and r exists already.
  · by_cases hm : (t, r) ∈ w'.ignored
    · rcases h.retains.ignores _ hm with hold | ⟨heq, -⟩ | hweak
      · exact absurd hold hheeds
      · exact absurd heq (Nat.ne_of_lt hr)
      · obtain ⟨self, hself⟩ := Option.ne_none_iff_exists'.mp hweak
        exact hgone (Option.map_eq_none_iff.mp (Registry.weak registered r self hself).2)
    · exact .inr hm

/-- What is known along a run of silence and of what is ignored. -/
structure Attentive (w : World V) : Prop where
  sound : Sound w
  silences : w.Silences
  displaces : w.Displaces
  below : w.IgnoresBelow

theorem Attentive.initial (script : List (Cmd V)) : ({ script } : World V).Attentive where
  sound := .initial script
  silences := fun _ h => by cases h
  displaces := fun _ h => by cases h
  below := fun _ h => by cases h

theorem Attentive.step (ha : w.Attentive) (h : Step w w') : w'.Attentive where
  sound := h.sound ha.sound
  silences := (h.entryStep ha.sound).silences' ha.sound (Steps.proceeds (.single h) ha.sound)
    ha.silences
  displaces := ha.displaces.step ha.silences h ha.sound
  below := ha.below.step h ha.sound

end World

theorem World.Attentive.steps (ha : w.Attentive) (h : Steps w w') : w'.Attentive :=
  h.preserves ha fun _ _ h ha => ha.step h

theorem Steps.attentive {script : List (Cmd V)} (h : Steps ({ script } : World V) w) :
    w.Attentive :=
  (World.Attentive.initial script).steps h

/-- A slot whose functor refers to `t`, which has not ignored it, is empty when `t` has been
destroyed. -/
theorem Steps.emptied {script : List (Cmd V)} (h : Steps ({ script } : World V) w)
    (h' : Steps w w') {rep : SlotRep} (hrep : w.reps r = some rep) (functor : rep.functor = some f)
    (refers : .trackable t ∈ f) (heeds : (t, r) ∉ w.ignored) (destroyed : w'.trackables t = none) :
    w'.Silent r := by
  have hd := h.depends h' hrep functor refers
  have hheeds : w'.Depends w.log t r ∧ w'.Heeds t r :=
    h'.preserves (P := fun v => v.Depends w.log t r ∧ v.Heeds t r)
      ⟨h.depends .refl hrep functor refers, .inr heeds⟩ fun _ _ hstep hv =>
        ⟨hv.1.step hstep, hv.2.step hv.1.used hv.1.registered hstep hv.1.sound⟩
  -- A rep whose slot has been moved during its invalidation has been switched off then.
  by_cases hmoved : .moved r true ∈ w'.log
  · exact ((h.trans h').attentive.displaces r hmoved).2
  · rcases hheeds.2 with hnone | hm
    · intro rep' hrep'
      rw [hnone] at hrep'
      cases hrep'
    -- A trackable that is gone has run through its callbacks, so the rep has been notified.
    · have hspent := hd.refers.spent hd.registered hd.sound.toWellAddressed hd.armed
        (callbacksOf_of_eq_none destroyed) hm hmoved
      exact fun rep' hrep' => (hspent rep' hrep').2

/-! ## A slot that has just been built -/

/-- `t` runs through its callbacks. -/
def World.Clearing (w : World V) (t : Addr) : Prop :=
  ∃ tr, w.trackables t = some tr ∧ tr.callbacks.clearing = true

/-- Whatever trackable runs through its callbacks has done so before. -/
def World.NotifiesWithin (w w' : World V) : Prop := ∀ t, w'.Clearing t → w.Clearing t

instance : Std.Refl (World.NotifiesWithin (V := V)) := ⟨fun _ _ h => h⟩

instance : IsTrans (World V) World.NotifiesWithin := ⟨fun _ _ _ h h' t ht => h t (h' t ht)⟩

theorem RepConstructed.notifiesWithin {tks : Addr → Option Trackable} {ign : List (Addr × Addr)}
    {rps : Addr → Option SlotRep} (h : RepConstructed w f tks ign rps) :
    w.NotifiesWithin (w.afterRep tks ign rps) := by
  rintro t ⟨tr', htr', hclearing⟩
  -- To register a rep does not set clearing_, and the new base has no callbacks.
  obtain ⟨tr, htr, hsame⟩ := h.registered.changed.preserves
    (P := fun tr tr' => tr'.callbacks.clearing = tr.callbacks.clearing) (fun _ => rfl)
    (fun _ _ _ hab hbc => hbc.trans hab) (fun _ => Trackable.addCallback_clearing) htr'
  rw [hsame] at hclearing
  rcases update_eq_some.mp htr with ⟨-, hx⟩ | ⟨-, hold⟩
  · rw [← Option.some.inj hx] at hclearing
    cases hclearing
  · exact ⟨tr, hold, hclearing⟩

namespace SlotBase

variable {R : World V → World V → Prop} [Std.Refl R] [IsTrans (World V) R]

/-- The copy of a functor refers to the same trackables; what is done meanwhile is done by the copies
of slots. -/
theorem copyFunctor_returns {copySlot : SlotAddr → M V SlotAddr}
    (hcopy : ∀ w s s' w', copySlot s w = (.ret s', w') → R w w') (f : Functor) :
    ∀ {w w' : World V} {f' : Functor}, copyFunctor copySlot f w = (.ret f', w') →
      R w w' ∧ ∀ t, .trackable t ∈ f' ↔ .trackable t ∈ f := by
  induction f with
  | nil =>
    intro w w' f' h
    obtain ⟨rfl, rfl⟩ := pure_eq_ret.mp h
    exact ⟨Std.Refl.refl w, fun _ => Iff.rfl⟩
  | cons t ts ih =>
    intro w w' f' h
    cases t with
    -- A reference is copied.
    | trackable t =>
      obtain ⟨ts', w₁, hts, h⟩ := bind_eq_ret.mp h
      obtain ⟨rfl, rfl⟩ := pure_eq_ret.mp h
      obtain ⟨hR, hmem⟩ := ih hts
      exact ⟨hR, fun t' => by simp [hmem]⟩
    -- A stored slot is copied by its own copy constructor, the rest of the functor afterwards.
    | slot s =>
      obtain ⟨s', w₁, hs', h⟩ := bind_eq_ret.mp h
      obtain ⟨ts', w₂, hts, h⟩ := bind_eq_ret.mp h
      obtain ⟨rfl, rfl⟩ := pure_eq_ret.mp h
      obtain ⟨hR, hmem⟩ := ih hts
      exact ⟨IsTrans.trans _ _ _ (hcopy w s s' w₁ hs') hR, fun t' => by simp [hmem]⟩

/-- Copies of slots do nothing but construct slots. -/
theorem copyInit_returns (hconstruct : ∀ w init s w',
      construct .functor init w = (.ret s, w') → R w w') (n : Nat) :
    ∀ {w w' : World V} {src : SlotAddr} {init : SlotInit},
      copyInit n src w = (.ret init, w') → R w w' := by
  induction n with
  | zero =>
    intro w w' src init h
    cases h
  | succ n ih =>
    intro w w' src init h
    obtain ⟨sl, w₁, hload, h⟩ := bind_eq_ret.mp h
    obtain ⟨-, rfl⟩ := deref_eq_ret.mp hload
    cases hr : sl.rep with
    | none =>
      rw [hr] at h
      obtain ⟨-, rfl⟩ := pure_eq_ret.mp h
      exact Std.Refl.refl w
    | some r =>
      rw [hr] at h
      obtain ⟨rep, w₁, hload, h⟩ := bind_eq_ret.mp h
      obtain ⟨-, rfl⟩ := deref_eq_ret.mp hload
      split at h
      · obtain ⟨f, w₁, hload, h⟩ := bind_eq_ret.mp h
        obtain ⟨-, rfl⟩ := deref_eq_ret.mp hload
        obtain ⟨f', w₁, hcopy, h⟩ := bind_eq_ret.mp h
        obtain ⟨-, rfl⟩ := pure_eq_ret.mp h
        refine (copyFunctor_returns (fun w s s' w' h => ?_) f hcopy).1
        obtain ⟨init, w₁, hinit, h⟩ := bind_eq_ret.mp h
        exact IsTrans.trans _ _ _ (ih hinit) (hconstruct w₁ init s' w' h)
      · obtain ⟨-, rfl⟩ := pure_eq_ret.mp h
        exact Std.Refl.refl w

end SlotBase

theorem SlotBase.construct_notifiesWithin {owner : Owner} {init : SlotInit} {s : SlotAddr}
    (run : construct owner init w = (.ret s, w')) : w.NotifiesWithin w' := by
  obtain ⟨-, -, rfl⟩ | ⟨g, tks, ign, rps, -, hcons, -, rfl⟩ := construct_effect run
  · exact Std.Refl.refl (r := World.NotifiesWithin) w
  · exact hcons.notifiesWithin

/-- A slot that is built from a functor can be called, and refers to the trackables in the functor.
None of them has ignored its rep but those that were running through their callbacks. -/
theorem SlotBase.fromFunctor_built {u : Env V} {s : SlotAddr} (ha : w.Attentive)
    (wellFormed : (Cmd.makeSlot f : Cmd V).wellFormed w = true)
    (run : fromFunctor u f w = (.ret s, w₁)) :
    Steps w w₁ ∧ ∃ sl r rep g, w₁.slots s = some sl ∧ sl.rep = some r ∧ w₁.reps r = some rep ∧
      rep.call = true ∧ rep.functor = some g ∧ (∀ t, .trackable t ∈ g ↔ .trackable t ∈ f) ∧
        ∀ t, (t, r) ∈ w₁.ignored → w.Clearing t := by
  have hgoes := (fromFunctor_ends (T := fun _ => True) (u := u) (fun _ => trivial) ha.sound
    wellFormed).of_ret run
  refine ⟨hgoes.1, ?_⟩
  have htrack : ∀ t, .trackable t ∈ f → t < w.next ∧ w.reps t = none := fun t ht => by
    have h : w.hasTrackable t = true := List.all_eq_true.mp wellFormed _ ht
    exact ⟨Trackable.lt_of_hasTrackable ha.sound h, Trackable.client_of_hasTrackable h⟩
  -- The functor is copied first; then the rep is built, and registered with what the copy refers
  -- to.
  obtain ⟨g, v, hcopy, hbuild⟩ := bind_eq_ret.mp run
  obtain ⟨hwithin, hmem⟩ := copyFunctor_returns (R := World.NotifiesWithin) (fun v s s' v' h => by
    obtain ⟨init, v₁, hinit, h⟩ := bind_eq_ret.mp h
    exact IsTrans.trans _ _ _ (copyInit_returns
      (fun _ _ _ _ h => construct_notifiesWithin h) u.fuel hinit) (construct_notifiesWithin h)) f hcopy
  have hcopied := (copyFunctor_ends (T := fun _ => True)
    (copyInit_ends (fun _ => trivial) u.fuel).stored f ha.sound htrack).of_ret hcopy
  have hav := ha.steps hcopied.1.1.1
  obtain ⟨hnone, -⟩ | ⟨g', tks, ign, rps, hg, hcons, rfl, rfl⟩ := construct_effect hbuild
  · cases hnone
  · obtain rfl := Option.some.inj hg
    refine ⟨_, v.next, _, g, Function.update_self _ _ _, rfl, hcons.rep hav.sound.toWellAddressed,
      rfl, rfl, hmem, fun t ht => ?_⟩
    -- The rep is new, so it is the rep that is being refused, by a list that was being cleared
    -- before.
    rcases hcons.registered.ignores _ ht with hold | ⟨-, tr, htr, hclearing⟩
    · exact absurd (hav.below _ hold) (Nat.lt_irrefl _)
    · rcases update_eq_some.mp htr with ⟨-, hx⟩ | ⟨-, hv⟩
      · rw [← Option.some.inj hx] at hclearing
        cases hclearing
      · exact hwithin t ⟨tr, hv, hclearing⟩

/-! ## What the visitors reach -/

variable {F W : Type}

/-- Whenever a slot has been built from the expression, and then, in whatever run, one of the
trackables is destroyed that the expression stores by reference, the slot is empty.  A trackable that
was running through its callbacks when the slot was built does not count: it takes no new ones. -/
def FunctorExpr.Empties (V : Type) (e : FunctorExpr F W) : Prop :=
  ∀ (script : List (Cmd V)) (u : Env V) (w w₁ w' : World V) (s : SlotAddr) (sl : SlotBase) (r : Addr),
    Steps { script } w → (Cmd.makeSlot e.visitEachTrackable : Cmd V).wellFormed w = true →
      SlotBase.fromFunctor u e.visitEachTrackable w = (.ret s, w₁) → w₁.slots s = some sl →
        sl.rep = some r → Steps w₁ w' → ∀ x ∈ e.references false, ¬w.Clearing x.obj →
          w'.trackables x.obj = none → w'.Silent r

theorem FunctorExpr.Covers.empties {e : FunctorExpr F W} (h : e.Covers) : e.Empties V := by
  intro script u w w₁ w' s sl r hs wellFormed run hsl hr hs' x hx idle destroyed
  obtain ⟨hbuild, sl', r', rep, g, hsl', hr', hrep, -, functor, hmem, hignored⟩ :=
    SlotBase.fromFunctor_built hs.attentive wellFormed run
  obtain rfl := Option.some.inj (hsl.symm.trans hsl')
  obtain rfl := Option.some.inj (hr.symm.trans hr')
  exact (hs.trans hbuild).emptied hs' hrep functor ((hmem x.obj).mpr (h x hx))
    (fun hm => idle (hignored x.obj hm)) destroyed

/-- The visitors reach every trackable that the expression stores by reference, and a slot built from
it becomes empty when any of them is destroyed, if and only if each trackable that is stored in a
later bound argument of a `bind<I>` is stored somewhere else in the expression, too. -/
theorem FunctorExpr.covers_iff (V : Type) (e : FunctorExpr F W) : (e.Covers ∧ e.Empties V) ↔
    ∀ x ∈ e.references false, x.inLaterBound → ⟨x.obj, false⟩ ∈ e.references false := by
  rw [← e.covers_iff_later]
  exact ⟨And.left, fun h => ⟨h, h.empties⟩⟩

/-- `bind<0>(f, std::ref(a), std::ref(b))`. -/
def bindTwo : FunctorExpr Nat Nat :=
  .bindFunctor (some 0) (.pointerFunctor 0) [.reference (.trackable 0), .reference (.trackable 1)]

/-- Two trackables. -/
def twoTrackables : World Unit :=
  ((World.after { script := [] } .newTrackable)).after .newTrackable

theorem twoTrackables_steps :
    ∃ script, Steps ({ script } : World Unit) twoTrackables ∧ twoTrackables.UserPoint := by
  apply World.after_steps _ (by decide +kernel) (by decide +kernel)
  apply World.after_steps _ (by decide +kernel) (by decide +kernel)
  exact ⟨_, .refl, .inl rfl⟩

/-- The second argument is not visited, and the slot can be called when it has been destroyed. -/
theorem bind_misses_second_argument : ¬bindTwo.Covers ∧ ¬bindTwo.Empties Unit := by
  constructor
  · intro h
    have h₁ := h ⟨1, true⟩ (by decide)
    revert h₁
    decide
  · intro h
    obtain ⟨script, hs, user⟩ := twoTrackables_steps
    have wellFormed : (Cmd.makeSlot bindTwo.visitEachTrackable : Cmd Unit).wellFormed
        twoTrackables = true := by decide +kernel
    have run := run_of_value (x := SlotBase.fromFunctor fewCalls bindTwo.visitEachTrackable)
      (s := twoTrackables) (a := .object 3) (by decide +kernel)
    have hbuild := (SlotBase.fromFunctor_built hs.attentive wellFormed run).1
    -- The second trackable is destroyed, to which the slot has not registered itself.
    have hgoes := World.after_goes (c := .destroyTrackable 1) ((hs.trans hbuild).sound (.initial _))
      (.inl (by decide +kernel)) (by decide +kernel) (by decide +kernel)
    have idle : ¬twoTrackables.Clearing 1 := by
      rintro ⟨tr, htr, hclearing⟩
      have hnew : twoTrackables.trackables 1 = some {} := by decide +kernel
      obtain rfl := Option.some.inj (hnew.symm.trans htr)
      cases hclearing
    have hsilent := h script _ _ _ _ (.object 3) { rep := some 2 } 2 hs wellFormed run
      (by decide +kernel) rfl hgoes.1 ⟨1, true⟩ (by decide) idle (by decide +kernel)
    have hcall := hsilent { call := true, functor := some [.trackable 0] } (by decide +kernel)
    cases hcall

end Sigc
