import Sigc.Assignment

/-!
# Assignment and construction

A slot after `dst = src`, and one that has been constructed from `src`.
-/

namespace Sigc

open Reasoning Prog

variable {V : Type}

/-! ## The blocked flag -/

/-- The blocked flag of a slot that is constructed by a move from `sl`. -/
def World.movedFlag (w : World V) (sl : SlotBase) : Bool :=
  if (sl.rep.bind w.reps).any (·.parent.isSome) then w.copiedFlag sl else sl.blocked

/-- When a copy assignment leaves the flag that a copy has: the source is valid; or it has no rep,
and if the destination has one, its flag is that of the source; or the source has been invalidated,
and the flag of the slot that keeps it is not set. -/
def World.CopyAgrees (w : World V) (self sl : SlotBase) : Prop :=
  w.calls sl.rep = true ∨
    (sl.rep = none ∧ (self.rep = none ∨ self.blocked = sl.blocked)) ∨
    (sl.rep ≠ none ∧ (sl.rep = self.rep ∧ sl.blocked = false ∨
      sl.rep ≠ self.rep ∧ self.blocked = false))

/-- When a move assignment leaves the flag that a slot has which is constructed by a move: also
where a source without a parent has been invalidated, and the flags agree. -/
def World.MoveAgrees (w : World V) (self sl : SlotBase) : Prop :=
  if (sl.rep.bind w.reps).any (·.parent.isSome) then w.CopyAgrees self sl
  else w.calls sl.rep = true ∨ sl.rep = self.rep ∨ self.blocked = sl.blocked

variable {w w' v : World V} {P : Addr → Prop} {S : SlotAddr → Prop} {K : Prop} {move : Bool}
  {dst src : SlotAddr} {self sl : SlotBase} {n : Nat}

theorem World.copyAgrees_iff :
    w.CopyAgrees self sl ↔ w.assignedFlag self sl = w.copiedFlag sl := by
  unfold CopyAgrees assignedFlag copiedFlag
  obtain ⟨q, blocked, owner, dying⟩ := self
  cases hcalls : w.calls sl.rep with
  | true => simp
  | false =>
    cases hrep : sl.rep with
    | none =>
      by_cases hself : q = none
      · simp [hself]
      · simp [hself, Ne.symm hself]
    | some r =>
      by_cases hself : some r = q
      · subst hself
        simp
      · simp [hself]

theorem World.moveAgrees_iff :
    w.MoveAgrees self sl ↔ w.assignedFlag self sl = w.movedFlag sl := by
  unfold MoveAgrees movedFlag
  split
  · exact copyAgrees_iff
  · unfold assignedFlag
    by_cases hsame : sl.rep = self.rep
    · simp [hsame]
    · cases hcalls : w.calls sl.rep <;> simp [hsame]

/-! ## Construction -/

namespace SlotBase

theorem copyConstruct_observe {u : Env V} {owner : Owner} {s : SlotAddr} (hw : WellAddressed w)
    (hsl : w.slots src = some sl) (h : copyConstruct u owner src w = (.ret s, w')) (n : Nat) :
    w'.observe n s = some (.ofCore (w.glimpse n) (w.copiedFlag sl) (sl.rep.bind w.core)) := by
  obtain ⟨init, w₁, hinit, h⟩ := bind_eq_ret.mp h
  obtain ⟨hw₁, -, hmade⟩ := copyInit_since u.fuel hinit (Nat.zero_le _) hw.since_zero
  have hmade₀ (f : Functor) (x : SlotAddr) (hf : init.functor = some f) (hx : .slot x ∈ f) :
      x.Made 0 w₁.next := (hmade f x hf hx).mono (Nat.zero_le _) (Nat.le_refl _)
  rw [construct_observe hw₁ hmade₀ h, copyInit_observation u.fuel hw.since_zero hsl hinit]

theorem new_observe {x : SlotBase} {s : SlotAddr} (h : new x w = (.ret s, w')) :
    w'.observe n s = some (.ofCore (w'.glimpse n) x.blocked (x.rep.bind w'.core)) := by
  obtain ⟨rfl, rfl⟩ := new_effect h
  exact World.observe_of_slot (Function.update_self _ _ _)

theorem moveConstruct_observe {u : Env V} {owner : Owner} {s : SlotAddr} (hw : WellAddressed w)
    (hK : K → ¬w.StoredIn src src)
    (hu : u.Spares (w.BroughtRep K true src sl) fun t => t = src ∨ w.BroughtSlot K true src sl t)
    (hsl : w.slots src = some sl) (h : moveConstruct u owner src w = (.ret s, w'))
    (hn : n = 0 ∨ (w.calls sl.rep = true → w.Taken true sl → K)) :
    w'.observe n s = some (.ofCore (w.glimpse n) (w.movedFlag sl) (sl.rep.bind w.core)) := by
  obtain ⟨sl', w₁, hload, h⟩ := bind_eq_ret.mp h
  obtain ⟨hsl', rfl⟩ := deref_eq_ret.mp hload
  obtain rfl := Option.some.inj (hsl.symm.trans hsl')
  obtain ⟨rep, blocked, owner', dying⟩ := sl
  cases rep with
  | none => exact new_observe (x := { blocked, owner }) h
  | some r =>
    obtain ⟨rep, w₁, hload, h⟩ := bind_eq_ret.mp h
    obtain ⟨hrep, rfl⟩ := deref_eq_ret.mp hload
    cases hparent : rep.parent with
    | none =>
      have htaken : w.Taken true ⟨some r, blocked, owner', dying⟩ :=
        World.taken_of_parent rfl hrep hparent
      have hflag : w.movedFlag ⟨some r, blocked, owner', dying⟩ = blocked := by
        unfold World.movedFlag
        simp [hrep, hparent]
      rw [if_pos hparent] at h
      obtain ⟨_, w₁, hnotify, h⟩ := bind_eq_ret.mp h
      have hspares := (notifyMove_spares (fun d => hu _) r).of_ret hnotify
      obtain ⟨sl', w₂, hload, h⟩ := bind_eq_ret.mp h
      obtain ⟨⟨hsl₁, _⟩, rfl⟩ := loadIntact_eq_ret.mp hload
      rw [hspares.slots src (.inl rfl) (hw.below hsl), hsl] at hsl₁
      obtain rfl := Option.some.inj hsl₁
      rw [modify_bind_run] at h
      -- the rep, and what it leads to
      have hkept : w.Spares (fun q => some r = some q ∨ K ∧ w.RepIn src q)
          (fun t => K ∧ w.StoredIn src t) w' := by
        have h₁ : w.Spares (fun q => some r = some q ∨ K ∧ w.RepIn src q)
            (fun t => K ∧ w.StoredIn src t) w₁ :=
          hspares.mono (fun q hq => .inl ⟨htaken, hq⟩) fun t ht => .inr (.inl ⟨htaken, ht⟩)
        exact (h₁.trans (.setSlot (fun hs => hK hs.1 hs.2) _)).trans ((new_spares _).of_ret h)
      rw [new_observe h, hflag]
      exact congrArg some (hw.seen_of_spares hsl hkept
        (fun hcalls => hn.imp_right fun hK => hK hcalls htaken) blocked)
    | some d =>
      have hflag : w.movedFlag ⟨some r, blocked, owner', dying⟩ =
          w.copiedFlag ⟨some r, blocked, owner', dying⟩ := by
        unfold World.movedFlag
        simp [hrep, hparent]
      rw [if_neg (by simp [hparent])] at h
      rw [hflag]
      exact copyConstruct_observe (u := u) hw hsl h n

end SlotBase

/-! ## Agreement -/

theorem Observation.ofCore_inj {α : Type} {p : SlotAddr → α} {b b' : Bool}
    {core : Option (Bool × Option Functor)} :
    some (ofCore p b core) = some (ofCore p b' core) ↔ b = b' := by
  constructor
  · intro h
    have hflags := congrArg Observation.blocked (Option.some.inj h)
    rwa [ofCore_blocked, ofCore_blocked] at hflags
  · intro h
    rw [h]

/-- A run of `x` to its end, in which every call of other code goes by `R`. -/
structure RunsWithin {α : Type} (R : World V → World V → Prop) (u : Env V)
    (cleanup : Addr → M V Unit) (x : Env V → (Addr → M V Unit) → M V α) (w : World V) (a : α)
    (w' : World V) : Prop where
  run : x u cleanup w = (.ret a, w')
  calls : x (u.within R) (fun d => guarded R (cleanup d)) w = (.ret a, w')

/-- The two slots are left alone, and so is what comes with the functor. -/
def World.SparesBrought (w : World V) (K : Prop) (move : Bool) (dst src : SlotAddr) (sl : SlotBase) :
    World V → World V → Prop :=
  World.Spares (w.BroughtRep K move src sl)
    fun t => t = dst ∨ t = src ∨ w.BroughtSlot K move src sl t

instance : Std.Refl (w.SparesBrought K move dst src sl) := ⟨World.Spares.refl⟩

theorem SlotBase.assignBy_shows {u : Env V} {cleanup : Addr → M V Unit} (hw : Sound w)
    (hself : w.slots dst = some self) (hsl : w.slots src = some sl)
    (h : RunsWithin (w.SparesBrought (w.Apart dst src) move dst src sl) u cleanup
      (fun u cleanup => assignBy move u cleanup dst src) w () w')
    (hn : n = 0 ∨ w.Separate (w.Apart dst src) move dst src self sl) :
    w'.observe n dst = some (.ofCore (w.glimpse n) (w.assignedFlag self sl) (sl.rep.bind w.core)) :=
  assignBy_observe hw id (fun _ => guarded_within _) (fun _ => guarded_within _) hself hsl h.calls hn

/-- Slots that have been assigned and slots that have been constructed from the same source show the
same to any depth, as long as nothing that is called on the way touches the two slots or what comes
with the functor. -/
theorem SlotBase.assignment_agrees_iff {u : Env V} {cleanup : Addr → M V Unit} (hw : Sound w)
    (hself : w.slots dst = some self) (hsl : w.slots src = some sl) (owner : Owner) :
    (∀ w₁ s w₂,
      RunsWithin (w.SparesBrought (w.Apart dst src) false dst src sl) u cleanup
        (fun u cleanup => assign u cleanup dst src) w () w₁ →
      copyConstruct u owner src w = (.ret s, w₂) →
        ∀ n, w₁.observe n dst = w₂.observe n s ↔ w.CopyAgrees self sl) ∧
    ∀ w₁ s w₂,
      RunsWithin (w.SparesBrought (w.Apart dst src) true dst src sl) u cleanup
        (fun u cleanup => moveAssign u cleanup dst src) w () w₁ →
      RunsWithin (w.SparesBrought (w.Apart dst src) true dst src sl) u cleanup
        (fun u _ => moveConstruct u owner src) w s w₂ →
        ∀ n, (n = 0 ∨ w.Separate (w.Apart dst src) true dst src self sl) →
          (w₁.observe n dst = w₂.observe n s ↔ w.MoveAgrees self sl) := by
  constructor
  · intro w₁ s w₂ hassign hconstruct n
    have hseparate : w.Separate (w.Apart dst src) false dst src self sl :=
      fun _ => ⟨fun h => absurd h World.not_taken_false, fun h => by cases h⟩
    have hassign' : RunsWithin (w.SparesBrought (w.Apart dst src) false dst src sl) u cleanup
        (fun u cleanup => assignBy false u cleanup dst src) w () w₁ := ⟨hassign.run, hassign.calls⟩
    rw [assignBy_shows hw hself hsl hassign' (.inr hseparate),
      copyConstruct_observe hw.toWellAddressed hsl hconstruct, Observation.ofCore_inj,
      World.copyAgrees_iff]
  · intro w₁ s w₂ hassign hconstruct n hn
    have hsource : (u.within (w.SparesBrought (w.Apart dst src) true dst src sl)).Spares
        (w.BroughtRep (w.Apart dst src) true src sl)
        fun t => t = src ∨ w.BroughtSlot (w.Apart dst src) true src sl t := fun c v =>
      World.Spares.mono (guarded_within _ v) (fun _ => id) fun _ => .inr
    have hassign' : RunsWithin (w.SparesBrought (w.Apart dst src) true dst src sl) u cleanup
        (fun u cleanup => assignBy true u cleanup dst src) w () w₁ := ⟨hassign.run, hassign.calls⟩
    rw [assignBy_shows hw hself hsl hassign' hn,
      moveConstruct_observe hw.toWellAddressed And.right hsource hsl hconstruct.calls
        (hn.imp_right fun h hcalls => (h hcalls).1), Observation.ofCore_inj, World.moveAgrees_iff]

/-- A slot, a blocked one whose functor holds a copy of it, and one that has been constructed by
default. -/
def blockedAndEmpty : List (Cmd Unit) :=
  [.makeSlot [], .makeSlot [.slot (.object 1)], .blockSlot (.object 5) true, .newSlot, .ret ()]

def afterBlocking : World Unit := (run 40 blockedAndEmpty).2

theorem afterBlocking_sound : Sound afterBlocking := by
  have hstops : stops (run 40 blockedAndEmpty).1 = true := by decide +kernel
  obtain ⟨script, hsteps, _⟩ := (Reachable.of_run hstops).steps
  exact hsteps.sound (.initial script)

/-- Whatever is called does nothing. -/
def silent : Env Unit where
  call _ := pure ()
  fuel := 9

theorem RunsWithin.of_silent {R : World Unit → World Unit → Prop} [Std.Refl R] {α : Type}
    {x : Env Unit → (Addr → M Unit Unit) → M Unit α} {w w' : World Unit} {a : α}
    (h : x silent (fun _ => pure ()) w = (.ret a, w')) :
    RunsWithin R silent (fun _ => pure ()) x w a w' := by
  have hsilent : silent.within R = silent :=
    congrArg (Env.mk · 9) (funext fun _ => guarded_of_within (within_pure _))
  have hcleanup : (fun d : Addr => guarded R ((fun _ => pure () : Addr → M Unit Unit) d)) =
      fun _ => pure () :=
    funext fun _ => guarded_of_within (within_pure _)
  refine ⟨h, ?_⟩
  rw [hsilent, hcleanup]
  exact h

/-- The slot that is not blocked is assigned the one that is. -/
theorem assignment_agrees_blocked :
    (SlotBase.assign silent (fun _ => pure ()) (.object 1) (.object 5)
        afterBlocking).2.observe 1 (.object 1) =
      (SlotBase.copyConstruct silent .client (.object 5) afterBlocking).2.observe 1 (.object 10) ↔
    afterBlocking.CopyAgrees { rep := some 0 } { rep := some 4, blocked := true } :=
  (SlotBase.assignment_agrees_iff afterBlocking_sound
    (by decide +kernel) (by decide +kernel) .client).1 _ _ _
    (.of_silent (run_of_value (by decide +kernel))) (run_of_value (by decide +kernel)) 1

/-- The empty slot is assigned to the one that is blocked. -/
theorem emptied_slot_stays_blocked :
    (SlotBase.assign silent (fun _ => pure ()) (.object 5) (.object 6)
        afterBlocking).2.observe 0 (.object 5) = some ⟨true, true, none⟩ ∧
      (SlotBase.copyConstruct silent .client (.object 6) afterBlocking).2.observe 0 (.object 7) =
        some ⟨true, false, none⟩ := by
  decide +kernel

/-- A slot that is moved to one that its functor holds is held by itself from then on. -/
theorem moved_slot_holds_itself :
    (SlotBase.moveAssign silent (fun _ => pure ()) (.object 3) (.object 5)
        afterBlocking).2.observe 1 (.object 3) =
      some ⟨false, true, some [.inr (some ⟨false, true, some [.inr ()]⟩)]⟩ ∧
    (SlotBase.moveConstruct silent .client (.object 5) afterBlocking).2.observe 1 (.object 7) =
      some ⟨false, true, some [.inr (some ⟨false, false, some []⟩)]⟩ := by
  decide +kernel

end Sigc
