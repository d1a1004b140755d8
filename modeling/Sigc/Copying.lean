import Sigc.ClientRuns
import Sigc.Destruction

/-!
# Observations of slots

A slot can be asked whether it is empty and whether it is blocked, and it can be invoked.  What an
invocation does depends on the functor, on the slots stored in it, on those stored in theirs, and so
on.  A copy has all of it in common with the slot that has been copied, to any depth.
-/

namespace Sigc

open Reasoning Prog

variable {V : Type}

/-! ## Observations -/

/-- What can be observed of a slot, where `α` is what can be said of one that is stored in it. -/
structure Observation (α : Type) where
  empty : Bool
  blocked : Bool
  /-- what is invoked, if anything is -/
  functor : Option (List (Addr ⊕ α))
  deriving DecidableEq

/-- What can be said of a stored slot that looks at functors to this depth: at first, only that it is
there. -/
def Glimpse : Nat → Type
  | 0 => Unit
  | n + 1 => Option (Observation (Glimpse n))

instance decidableEqGlimpse : (n : Nat) → DecidableEq (Glimpse n)
  | 0 => inferInstanceAs (DecidableEq Unit)
  | n + 1 =>
    have := decidableEqGlimpse n
    inferInstanceAs (DecidableEq (Option (Observation (Glimpse n))))

def Target.seen {α : Type} (glimpse : SlotAddr → α) : Target → Addr ⊕ α
  | trackable t => .inl t
  | slot s => .inr (glimpse s)

def Observation.ofCore {α : Type} (glimpse : SlotAddr → α) (blocked : Bool) :
    Option (Bool × Option Functor) → Observation α
  | some (true, f) => ⟨false, blocked, f.map (·.map (Target.seen glimpse))⟩
  | _ => ⟨true, blocked, none⟩

namespace World

/-- A rep that exists can be called. -/
def calls (w : World V) (rep : Option Addr) : Bool :=
  (rep.bind w.reps).any (·.call)

/-- The blocked flag of a slot that is copied from `sl`. -/
def copiedFlag (w : World V) (sl : SlotBase) : Bool :=
  if sl.rep = none ∨ w.calls sl.rep then sl.blocked else false

/-- A slot stored in a functor, as a copy of the functor has it: one that has been invalidated is
copied as a slot that is empty and not blocked. -/
def glimpse (w : World V) : (n : Nat) → SlotAddr → Glimpse n
  | 0, _ => ()
  | n + 1, s => (w.slots s).map fun sl => .ofCore (w.glimpse n) (w.copiedFlag sl) (sl.rep.bind w.core)

def observe (w : World V) (n : Nat) (s : SlotAddr) : Option (Observation (Glimpse n)) :=
  (w.slots s).map fun sl => .ofCore (w.glimpse n) sl.blocked (sl.rep.bind w.core)

end World

variable {w w' v : World V} {D : SlotAddr → Prop} {R : Addr → Prop} {s t : SlotAddr}
  {sl : SlotBase} {f : Functor} {k : Addr}

theorem World.core_of_rep {r : Addr} {rep : SlotRep} (h : w.reps r = some rep) :
    w.core r = some (rep.call, rep.functor) := by
  rw [core, h]
  rfl

theorem World.observe_of_slot {n : Nat} (h : w.slots s = some sl) :
    w.observe n s = some (.ofCore (w.glimpse n) sl.blocked (sl.rep.bind w.core)) := by
  rw [observe, h]
  rfl

theorem World.glimpse_of_slot {n : Nat} (h : w.slots s = some sl) :
    w.glimpse (n + 1) s = some (.ofCore (w.glimpse n) (w.copiedFlag sl) (sl.rep.bind w.core)) := by
  rw [glimpse, h]
  rfl

theorem World.calls_eq_core (w : World V) (rep : Option Addr) :
    w.calls rep = (rep.bind w.core).any (·.1) := by
  cases rep with
  | none => rfl
  | some r =>
    cases hrep : w.reps r with
    | none => simp [calls, core, hrep]
    | some rep => simp [calls, core, hrep]

theorem World.copiedFlag_congr (h : sl.rep.bind w'.core = sl.rep.bind w.core) :
    w'.copiedFlag sl = w.copiedFlag sl := by
  rw [copiedFlag, copiedFlag, calls_eq_core, calls_eq_core, h]

theorem Functor.seen_congr {α : Type} {p p' : SlotAddr → α} (h : ∀ x, .slot x ∈ f → p' x = p x) :
    f.map (Target.seen p') = f.map (Target.seen p) := by
  refine List.map_congr_left fun t ht => ?_
  cases t with
  | trackable t => rfl
  | slot x => exact congrArg Sum.inr (h x ht)

theorem Observation.ofCore_congr {α : Type} {p p' : SlotAddr → α} {b : Bool}
    {core : Option (Bool × Option Functor)}
    (h : ∀ f x, core = some (true, some f) → .slot x ∈ f → p' x = p x) :
    ofCore p' b core = ofCore p b core := by
  match core, h with
  | none, _ => rfl
  | some (false, _), _ => rfl
  | some (true, none), _ => rfl
  | some (true, some f), h =>
    show (⟨false, b, some (f.map _)⟩ : Observation α) = ⟨false, b, some (f.map _)⟩
    rw [Functor.seen_congr fun x => h f x rfl]

theorem Observation.ofCore_blocked {α : Type} {p : SlotAddr → α} {b : Bool}
    {core : Option (Bool × Option Functor)} : (ofCore p b core).blocked = b := by
  rcases core with _ | ⟨_ | _, _⟩ <;> rfl

theorem Observation.ofCore_off {α : Type} {p : SlotAddr → α} {b : Bool} {r : Addr} (h : w.Off r) :
    ofCore p b (w.core r) = ⟨true, b, none⟩ := by
  cases hr : w.reps r with
  | none =>
    rw [World.core, hr]
    rfl
  | some rep =>
    rw [World.core_of_rep hr, h rep hr]
    rfl

theorem Observation.ofCore_of_not_calls {α : Type} {p : SlotAddr → α} {b : Bool} {rep : Option Addr}
    (h : w.calls rep = false) : ofCore p b (rep.bind w.core) = ⟨true, b, none⟩ := by
  cases rep with
  | none => rfl
  | some r =>
    refine ofCore_off fun rep hrep => ?_
    unfold World.calls at h
    simpa [hrep] using h

/-! ## What is left as it was -/

theorem World.functorsOf_of_core {r : Addr} {b : Bool} {fo : Option Functor}
    (h : w.core r = some (b, fo)) : functorsOf w.reps r = some fo := by
  rw [functorsOf_core, h]
  rfl

/-- Slots that do not lead out of `D` look as they did, if nothing has been done to them. -/
theorem World.Closed.glimpse (hw : w.Closed D R) (slots : ∀ t, D t → w'.slots t = w.slots t)
    (cores : ∀ r, R r → w'.core r = w.core r) (n : Nat) :
    ∀ t, D t → w'.glimpse n t = w.glimpse n t := by
  induction n with
  | zero =>
    intro t _
    rfl
  | succ n ih =>
    intro t ht
    cases hsl : w.slots t with
    | none => rw [World.glimpse, World.glimpse, slots t ht, hsl]; rfl
    | some sl =>
      -- The rep of a slot in D is in R, so it has the functor that it had.
      have hcore : sl.rep.bind w'.core = sl.rep.bind w.core := by
        cases hr : sl.rep with
        | none => rfl
        | some r => exact cores r (hw.rep t sl r ht hsl hr)
      rw [glimpse_of_slot ((slots t ht).trans hsl), glimpse_of_slot hsl, hcore, copiedFlag_congr hcore]
      refine congrArg some (Observation.ofCore_congr fun f x hf hx => ih x ?_)
      obtain ⟨r, hr, hrcore⟩ := Option.bind_eq_some_iff.mp hf
      exact hw.functor r f x (hw.rep t sl r ht hsl hr) (functorsOf_of_core hrcore) hx

theorem World.Closed.glimpse_of_spares {P : Addr → Prop} {S : SlotAddr → Prop} (hw : w.Closed D R)
    (h : w.Spares P S w') (hD : ∀ t, D t → S t) (hR : ∀ r, R r → P r) (n : Nat) (ht : D t) :
    w'.glimpse n t = w.glimpse n t :=
  hw.glimpse (fun t ht => h.slots t (hD t ht) (hw.below t ht))
    (fun r hr => h.cores r (hR r hr) (hw.lt r hr)) n t ht

/-! ## What a slot leads to -/

/-- The slot `dst` and those that are stored in it. -/
def World.Part (w : World V) (dst t : SlotAddr) : Prop := t = dst ∨ w.StoredIn dst t

/-- `r` is the rep of `dst`, or of a slot that is stored in it. -/
def World.RepIn (w : World V) (dst : SlotAddr) (r : Addr) : Prop :=
  ∃ t sl, w.Part dst t ∧ w.slots t = some sl ∧ sl.rep = some r

theorem World.Part.inside {dst t x : SlotAddr} {g : Functor} (ht : w.Part dst t)
    (hg : w.inner t = some g) (hx : .slot x ∈ g) : w.StoredIn dst x := by
  cases ht with
  | inl heq =>
    subst heq
    exact ⟨g, hg, .here hx⟩
  -- What is stored in a stored slot is stored, one level deeper.
  | inr hstored =>
    obtain ⟨f, hf, hs⟩ := hstored
    exact ⟨f, hf, hs.snoc hg hx⟩

theorem WellAddressed.inner_below (hw : WellAddressed w) {t x : SlotAddr} {g : Functor}
    (hg : w.inner t = some g) (hx : .slot x ∈ g) : x.Below w.next := by
  obtain ⟨sl, r, _, _, hg⟩ := World.inner_eq_some.mp hg
  obtain ⟨rep, hrep, hfunctor⟩ := Option.map_eq_some_iff.mp hg
  obtain ⟨a, rfl, hlt, _⟩ := (hw.functor r rep g hrep hfunctor).slot x hx
  intro b hb
  cases hb
  exact hlt

theorem WellAddressed.stored_below (hw : WellAddressed w) {dst s : SlotAddr}
    (h : w.StoredIn dst s) : s.Below w.next := by
  obtain ⟨f, hf, hs⟩ := h
  apply hs.mem (D := fun t => t.Below w.next)
  · intro t g x _ hg hx
    exact hw.inner_below hg hx
  · intro x hx
    exact hw.inner_below hf hx

/-- What a slot stores does not lead out of it. -/
theorem World.closed_storedIn {dst : SlotAddr}
    (below : ∀ t, w.StoredIn dst t → t.Below w.next) (lt : ∀ r, w.RepIn dst r → r < w.next) :
    w.Closed (w.StoredIn dst) (w.RepIn dst) where
  below := below
  lt := lt
  rep t sl r ht hsl hr := ⟨t, sl, .inr ht, hsl, hr⟩
  functor r g x hr hg hx := by
    obtain ⟨t, sl, ht, hsl, hrep⟩ := hr
    exact ht.inside (World.inner_eq_some.mpr ⟨sl, r, hsl, hrep, hg⟩) hx

theorem WellAddressed.closed_storedIn (hw : WellAddressed w) (dst : SlotAddr) :
    w.Closed (w.StoredIn dst) (w.RepIn dst) := by
  apply World.closed_storedIn
  · intro t ht
    exact hw.stored_below ht
  · rintro r ⟨t, sl, _, hsl, hr⟩
    exact hw.slotRep t sl r hsl hr

/-- A rep that is left alone shows the functor that it showed, and to any depth if what it leads to
is left alone, too. -/
theorem WellAddressed.seen_of_spares {K : Prop} (hw : WellAddressed w) (hsl : w.slots s = some sl)
    (h : w.Spares (fun q => sl.rep = some q ∨ K ∧ w.RepIn s q) (fun t => K ∧ w.StoredIn s t) w')
    {n : Nat} (hn : w.calls sl.rep = true → n = 0 ∨ K) (b : Bool) :
    Observation.ofCore (w'.glimpse n) b (sl.rep.bind w'.core) =
      .ofCore (w.glimpse n) b (sl.rep.bind w.core) := by
  cases hr : sl.rep with
  | none => rfl
  | some r =>
    have hlt := hw.slotRep s sl r hsl hr
    show Observation.ofCore _ b (w'.core r) = .ofCore _ b (w.core r)
    rw [h.cores r (.inl hr) hlt]
    -- The functor is the same; what matters is how the slots stored in it look.
    refine Observation.ofCore_congr fun f x hf hx => ?_
    have hcalls : w.calls sl.rep = true := by
      rw [World.calls_eq_core, hr]
      exact congrArg (Option.any (·.1)) hf
    cases hn hcalls with
    | inl hn =>
      subst hn
      rfl
    | inr hK =>
      refine (hw.closed_storedIn s).glimpse_of_spares h (fun t ht => ⟨hK, ht⟩)
        (fun r hr => .inr ⟨hK, hr⟩) n ?_
      exact ⟨f, World.inner_eq_some.mpr ⟨sl, r, hsl, hr, World.functorsOf_of_core hf⟩, .here hx⟩

/-! ## What has been made -/

/-- An object that has been placed between `k` and `m`. -/
def SlotAddr.Made (k m : Addr) (s : SlotAddr) : Prop := ∃ a, s = .object a ∧ k ≤ a ∧ a < m

/-- The slots that have been made since `k` have reps that have been made since, and their functors
store such slots only. -/
structure World.Since (k : Addr) (w : World V) : Prop extends
    w.Closed (SlotAddr.Made k w.next) fun r => k ≤ r ∧ r < w.next where
  vacant : ∀ a, w.next ≤ a → w.slots (.object a) = none ∧ w.reps a = none

theorem SlotAddr.Made.mono {k' m m' : Addr} (h : s.Made k m) (hk : k' ≤ k) (hm : m ≤ m') :
    s.Made k' m' := by
  obtain ⟨a, rfl, hka, ham⟩ := h
  exact ⟨a, rfl, Nat.le_trans hk hka, Nat.lt_of_lt_of_le ham hm⟩

theorem SlotAddr.Made.below {m : Addr} (h : s.Made k m) : s.Below m := by
  rintro a rfl
  obtain ⟨b, hb, -, hlt⟩ := h
  cases hb
  exact hlt

theorem World.since_intro
    (rep : ∀ t sl r, t.Made k w.next → w.slots t = some sl → sl.rep = some r → k ≤ r ∧ r < w.next)
    (functor : ∀ r g x, k ≤ r → r < w.next → functorsOf w.reps r = some (some g) → .slot x ∈ g →
      x.Made k w.next)
    (vacant : ∀ a, w.next ≤ a → w.slots (.object a) = none ∧ w.reps a = none) : w.Since k where
  below _ ht := ht.below
  lt _ hr := hr.2
  rep := rep
  functor r g x hr := functor r g x hr.1 hr.2
  vacant := vacant

theorem WellAddressed.vacant (hw : WellAddressed w) (a : Addr) (ha : w.next ≤ a) :
    w.slots (.object a) = none ∧ w.reps a = none := by
  refine ⟨?_, hw.reps.eq_none ha⟩
  cases hsl : w.slots (.object a) with
  | none => rfl
  | some sl => exact absurd (hw.slots a sl hsl) (Nat.not_lt.mpr ha)

/-- Nothing has been made yet. -/
theorem World.since_next (vacant : ∀ a, w.next ≤ a → w.slots (.object a) = none ∧ w.reps a = none) :
    w.Since w.next := by
  refine since_intro (fun t sl r ht => ?_) (fun r g x hk hlt => absurd hlt (Nat.not_lt.mpr hk)) vacant
  obtain ⟨a, -, hk, hlt⟩ := ht
  exact absurd hlt (Nat.not_lt.mpr hk)

theorem WellAddressed.since_zero (hw : WellAddressed w) : w.Since 0 := by
  refine World.since_intro (fun t sl r _ hsl hr => ⟨Nat.zero_le _, hw.slotRep t sl r hsl hr⟩)
    (fun r g x _ _ hg hx => ?_) hw.vacant
  obtain ⟨rep, hrep, hfunctor⟩ := Option.map_eq_some_iff.mp hg
  obtain ⟨a, rfl, hlt, -⟩ := (hw.functor r rep g hrep hfunctor).slot x hx
  exact ⟨a, rfl, Nat.zero_le _, hlt⟩

/-- A slot is given another flag. -/
theorem World.Since.setBlocked (hw : w.Since k) (hsl : w.slots s = some sl) (b : Bool) :
    (w.setSlot s (some { sl with blocked := b })).Since k := by
  refine since_intro (fun t sl' r ht hsl' hr => ?_)
    (fun r g x hk hlt hg hx => hw.functor r g x ⟨hk, hlt⟩ hg hx) fun a ha => ⟨?_, (hw.vacant a ha).2⟩
  · obtain ⟨rfl, heq⟩ | ⟨-, hsl'⟩ := update_eq_some.mp hsl'
    · obtain rfl := Option.some.inj heq
      exact hw.rep t sl r ht hsl hr
    · exact hw.rep t sl' r ht hsl' hr
  · refine (Function.update_of_ne ?_ _ _).trans (hw.vacant a ha).1
    rintro rfl
    rw [(hw.vacant a ha).1] at hsl
    cases hsl

theorem SlotRep.construct_core {r : Addr} (h : construct f w = (.ret r, w')) :
    r = w.next ∧ w'.next = w.next + 1 ∧ w'.slots = w.slots ∧ w'.core r = some (true, some f) ∧
      (∀ q < w.next, w'.core q = w.core q) ∧ ∀ q, q ≠ w.next → w.reps q = none → w'.reps q = none := by
  have hspares := (construct_spares (P := fun _ => True) (S := fun _ => True) f).of_ret h
  obtain ⟨rfl, tks, ign, rps, rfl, hcons⟩ := construct_effect h
  refine ⟨rfl, rfl, rfl, ?_, fun q hq => hspares.cores q trivial hq, fun q hne hq =>
    (hcons.bound.none_iff q).mpr ((Function.update_of_ne hne _ _).trans hq)⟩
  unfold construct at h
  obtain ⟨a, w₁, halloc, h⟩ := bind_eq_ret.mp h
  obtain ⟨rfl, rfl⟩ := alloc_eq_ret.mp halloc
  rw [modify_bind_run] at h
  obtain ⟨_, w₂, hbind, h⟩ := bind_eq_ret.mp h
  obtain ⟨-, rfl⟩ := pure_eq_ret.mp h
  have hbound := (visitEach_within (R := World.Spares (fun _ => True) fun _ => True)
    (slotDoBind_spares w.next) f).of_ret hbind
  rw [hbound.cores w.next trivial (Nat.lt_succ_self _)]
  change Option.map _ (Function.update w.reps w.next _ w.next) = _
  rw [Function.update_self]
  rfl

/-- What the construction of a rep leaves: a rep with the functor at the next address. -/
theorem SlotRep.construct_since {r : Addr} (hw : w.Since k)
    (hf : ∀ x, .slot x ∈ f → x.Made k w.next) (h : construct f w = (.ret r, w')) : w'.Since k := by
  obtain ⟨rfl, hnext, hslots, hcore, hcores, hnone⟩ := construct_core h
  have hle : w.next ≤ w'.next := hnext ▸ Nat.le_succ _
  refine World.since_intro (fun t sl r ht hsl hr => ?_) (fun r g x hkr hlt hg hx => ?_)
    fun a ha => ?_
  · rw [hslots] at hsl
    obtain ⟨a, rfl, hka, hlt⟩ := ht
    -- No slot has been made by the construction of a rep.
    have hlt' : a < w.next := by
      by_contra hnot
      rw [(hw.vacant a (Nat.not_lt.mp hnot)).1] at hsl
      cases hsl
    obtain ⟨hkr, hrlt⟩ := hw.rep _ sl r ⟨a, rfl, hka, hlt'⟩ hsl hr
    exact ⟨hkr, Nat.lt_of_lt_of_le hrlt hle⟩
  -- The new rep stores the slots in f, which have been made; the others are as they were.
  · by_cases hr : r = w.next
    · subst hr
      rw [World.functorsOf_of_core hcore] at hg
      cases hg
      exact (hf x hx).mono (Nat.le_refl _) hle
    · rw [hnext] at hlt
      have hrlt : r < w.next := Nat.lt_of_le_of_ne (Nat.lt_succ_iff.mp hlt) hr
      rw [functorsOf_core, hcores r hrlt, ← functorsOf_core] at hg
      exact (hw.functor r g x ⟨hkr, hrlt⟩ hg hx).mono (Nat.le_refl _) hle
  · rw [hslots]
    obtain ⟨hslot, hrep⟩ := hw.vacant a (Nat.le_trans hle ha)
    refine ⟨hslot, hnone a ?_ hrep⟩
    rintro rfl
    exact absurd ha (Nat.not_le.mpr (hnext ▸ Nat.lt_succ_self _))

namespace SlotBase

theorem new_since (hw : w.Since k) (hr : ∀ r, sl.rep = some r → k ≤ r ∧ r < w.next)
    (h : new sl w = (.ret s, w')) : w'.Since k ∧ s.Made w.next w'.next := by
  obtain ⟨rfl, rfl⟩ := new_effect h
  refine ⟨World.since_intro (fun t sl' r ht hsl hrep => ?_) (fun r g x hkr hlt hg hx => ?_)
    fun a ha => ?_, w.next, rfl, Nat.le_refl _, Nat.lt_succ_self _⟩
  · obtain ⟨rfl, heq⟩ | ⟨hne, hsl⟩ := update_eq_some.mp hsl
    · obtain rfl := Option.some.inj heq
      exact (hr r hrep).imp id Nat.lt_succ_of_lt
    · obtain ⟨a, rfl, hka, hlt⟩ := ht
      have hlt' : a < w.next := Nat.lt_of_le_of_ne (Nat.lt_succ_iff.mp hlt) fun heq => hne (heq ▸ rfl)
      exact (hw.rep _ sl' r ⟨a, rfl, hka, hlt'⟩ hsl hrep).imp id Nat.lt_succ_of_lt
  · change functorsOf w.reps r = _ at hg
    -- The address of the new slot is not that of a rep.
    have hrlt : r < w.next := by
      refine Nat.lt_of_le_of_ne (Nat.lt_succ_iff.mp hlt) fun heq => ?_
      rw [functorsOf, heq, (hw.vacant w.next (Nat.le_refl _)).2] at hg
      cases hg
    exact (hw.functor r g x ⟨hkr, hrlt⟩ hg hx).mono (Nat.le_refl _) (Nat.le_succ _)
  · obtain ⟨hslot, hrep⟩ := hw.vacant a (Nat.le_of_succ_le ha)
    refine ⟨(Function.update_of_ne ?_ _ _).trans hslot, hrep⟩
    rintro ⟨⟩
    exact absurd ha (Nat.not_succ_le_self _)

theorem construct_since {owner : Owner} {init : SlotInit} (hk : k ≤ w.next) (hw : w.Since k)
    (hf : ∀ f x, init.functor = some f → .slot x ∈ f → x.Made k w.next)
    (h : construct owner init w = (.ret s, w')) : w'.Since k ∧ s.Made w.next w'.next := by
  obtain ⟨functor, blocked⟩ := init
  cases functor with
  | none =>
    have hnew : new ({ blocked, owner } : SlotBase) w = (.ret s, w') := h
    exact new_since hw (fun r hr => by cases hr) hnew
  | some f =>
    obtain ⟨r, w₁, hr, h⟩ := bind_eq_ret.mp h
    have h₁ := SlotRep.construct_since hw (fun x => hf f x rfl) hr
    obtain ⟨rfl, hnext, -⟩ := SlotRep.construct_core hr
    have hlt : w.next < w₁.next := hnext ▸ Nat.lt_succ_self _
    -- The rep is made right before the slot.
    have hrep (r : Addr) (hr : some w.next = some r) : k ≤ r ∧ r < w₁.next := by
      obtain rfl := Option.some.inj hr
      exact ⟨hk, hlt⟩
    exact (new_since h₁ hrep h).imp id fun hs =>
      hs.mono (Nat.le_of_lt hlt) (Nat.le_refl _)

/-- The slots that a copy of a functor stores have all been made for it. -/
theorem copyFunctor_since {copySlot : SlotAddr → M V SlotAddr}
    (hcopy : ∀ s s' (v v' : World V), copySlot s v = (.ret s', v') → k ≤ v.next → v.Since k →
      v'.Since k ∧ v.next ≤ v'.next ∧ s'.Made v.next v'.next) (f : Functor) :
    ∀ {w w' : World V} {f' : Functor}, copyFunctor copySlot f w = (.ret f', w') → k ≤ w.next →
      w.Since k → w'.Since k ∧ w.next ≤ w'.next ∧ ∀ x, .slot x ∈ f' → x.Made w.next w'.next := by
  induction f with
  | nil =>
    intro w w' f' h hk hw
    obtain ⟨rfl, rfl⟩ := pure_eq_ret.mp h
    exact ⟨hw, Nat.le_refl _, fun x hx => by cases hx⟩
  | cons t ts ih =>
    intro w w' f' h hk hw
    cases t with
    | trackable t =>
      obtain ⟨ts', w₁, hts, h⟩ := bind_eq_ret.mp h
      obtain ⟨rfl, rfl⟩ := pure_eq_ret.mp h
      obtain ⟨h₁, hle, hmade⟩ := ih hts hk hw
      refine ⟨h₁, hle, fun x hx => ?_⟩
      cases hx with
      | tail _ hx => exact hmade x hx
    | slot s =>
      obtain ⟨s', w₁, hs, h⟩ := bind_eq_ret.mp h
      obtain ⟨ts', w₂, hts, h⟩ := bind_eq_ret.mp h
      obtain ⟨rfl, rfl⟩ := pure_eq_ret.mp h
      -- The slot is copied first, then the rest of the functor.
      obtain ⟨h₁, hle₁, hs'⟩ := hcopy s s' w w₁ hs hk hw
      obtain ⟨h₂, hle₂, hmade⟩ := ih hts (Nat.le_trans hk hle₁) h₁
      refine ⟨h₂, Nat.le_trans hle₁ hle₂, fun x hx => ?_⟩
      cases hx with
      | head => exact hs'.mono (Nat.le_refl _) hle₂
      | tail _ hx => exact (hmade x hx).mono hle₁ (Nat.le_refl _)

theorem copyInit_since (n : Nat) :
    ∀ {src : SlotAddr} {w w' : World V} {init : SlotInit}, copyInit n src w = (.ret init, w') →
      k ≤ w.next → w.Since k → w'.Since k ∧ w.next ≤ w'.next ∧
        ∀ f x, init.functor = some f → .slot x ∈ f → x.Made w.next w'.next := by
  -- on the depth: the slots in a copied functor are copied one level deeper
  induction n with
  | zero =>
    intro src w w' init h
    cases h
  | succ n ih =>
    intro src w w' init h hk hw
    obtain ⟨sl, w₁, hload, h⟩ := bind_eq_ret.mp h
    obtain ⟨hsl, rfl⟩ := deref_eq_ret.mp hload
    cases hr : sl.rep with
    | none =>
      rw [hr] at h
      obtain ⟨rfl, rfl⟩ := pure_eq_ret.mp h
      exact ⟨hw, Nat.le_refl _, fun f x hf => by cases hf⟩
    | some r =>
      rw [hr] at h
      obtain ⟨rep, w₁, hload, h⟩ := bind_eq_ret.mp h
      obtain ⟨hrep, rfl⟩ := deref_eq_ret.mp hload
      split at h
      · obtain ⟨f, w₁, hload, h⟩ := bind_eq_ret.mp h
        obtain ⟨hf, rfl⟩ := deref_eq_ret.mp hload
        obtain ⟨f', w₂, hcopy, h⟩ := bind_eq_ret.mp h
        obtain ⟨rfl, rfl⟩ := pure_eq_ret.mp h
        have hstored (s s' : SlotAddr) (v v' : World V)
            (hs : (copyInit n s >>= construct .functor) v = (.ret s', v')) (hkv : k ≤ v.next)
            (hv : v.Since k) : v'.Since k ∧ v.next ≤ v'.next ∧ s'.Made v.next v'.next := by
          obtain ⟨init, v₁, hinit, hs⟩ := bind_eq_ret.mp hs
          obtain ⟨h₁, hle, hmade⟩ := ih hinit hkv hv
          obtain ⟨h₂, hs'⟩ := construct_since (Nat.le_trans hkv hle) h₁
            (fun f x hf hx => (hmade f x hf hx).mono hkv (Nat.le_refl _)) hs
          obtain ⟨a, -, hka, hlt⟩ := id hs'
          exact ⟨h₂, Nat.le_trans hle (Nat.le_of_lt (Nat.lt_of_le_of_lt hka hlt)),
            hs'.mono hle (Nat.le_refl _)⟩
        obtain ⟨h₁, hle, hmade⟩ := copyFunctor_since hstored f hcopy hk hw
        exact ⟨h₁, hle, fun f x hf => (Option.some.inj hf) ▸ hmade x⟩
      · obtain ⟨rfl, rfl⟩ := pure_eq_ret.mp h
        exact ⟨hw, Nat.le_refl _, fun f x hf => by cases hf⟩

end SlotBase

/-! ## Copies -/

/-- What can be observed of a slot that is constructed in this way. -/
def SlotInit.observation {α : Type} (glimpse : SlotAddr → α) (init : SlotInit) : Observation α :=
  .ofCore glimpse init.blocked (init.functor.map fun f => (true, some f))

namespace SlotBase

variable {P : Addr → Prop} {S : SlotAddr → Prop} {owner : Owner} {init : SlotInit}

theorem new_spares (sl : SlotBase) : Within (World.Spares P S) (new sl : M V SlotAddr) := by
  intro w
  exact World.Spares.newSlot _

theorem construct_spares (owner : Owner) (init : SlotInit) :
    Within (World.Spares P S) (construct owner init : M V SlotAddr) := by
  unfold construct
  cases init.functor with
  | none => exact new_spares _
  | some f => exact within_bind (SlotRep.construct_spares f) fun _ => new_spares _

theorem copyInit_spares (n : Nat) (src : SlotAddr) :
    Within (World.Spares P S) (copyInit n src : M V SlotInit) :=
  copyInit_within (construct_spares .functor) n src

/-- The slot that is constructed has the functor, with all that it stores. -/
theorem construct_core (hw : w.Since 0)
    (hf : ∀ f x, init.functor = some f → .slot x ∈ f → x.Made 0 w.next)
    (h : construct owner init w = (.ret s, w')) : ∃ sl, w'.slots s = some sl ∧
      sl.blocked = init.blocked ∧ w'.copiedFlag sl = init.blocked ∧
        ∀ m, Observation.ofCore (w'.glimpse m) init.blocked (sl.rep.bind w'.core) =
          init.observation (w.glimpse m) := by
  have hspares := (construct_spares (P := fun _ => True) (S := fun _ => True) owner init).of_ret h
  obtain ⟨functor, blocked⟩ := init
  cases functor with
  | none =>
    have hnew : new ({ blocked, owner } : SlotBase) w = (.ret s, w') := h
    obtain ⟨rfl, rfl⟩ := new_effect hnew
    exact ⟨_, Function.update_self _ _ _, rfl, if_pos (.inl rfl), fun m => rfl⟩
  | some f =>
    -- Nothing that the functor stores has been touched by the construction.
    have hseen (m : Nat) (x : SlotAddr) (hx : .slot x ∈ f) : w'.glimpse m x = w.glimpse m x :=
      hw.glimpse_of_spares hspares (fun _ _ => trivial) (fun _ _ => trivial) m (hf f x rfl hx)
    obtain ⟨r, w₁, hr, h⟩ := bind_eq_ret.mp h
    obtain ⟨-, -, -, hcore, -⟩ := SlotRep.construct_core hr
    have hnew : new ({ rep := some r, blocked, owner } : SlotBase) w₁ = (.ret s, w') := h
    obtain ⟨rfl, rfl⟩ := new_effect hnew
    refine ⟨_, Function.update_self _ _ _, rfl, if_pos (.inr ?_), fun m => ?_⟩
    · refine (congrArg _ hcore).trans (Observation.ofCore_congr fun g x hg hx => ?_)
      cases hg
      exact hseen m x hx
    · rw [World.calls_eq_core]
      exact (congrArg (Option.any (·.1)) hcore).trans rfl

theorem construct_observe (hw : w.Since 0)
    (hf : ∀ f x, init.functor = some f → .slot x ∈ f → x.Made 0 w.next)
    (h : construct owner init w = (.ret s, w')) (m : Nat) :
    w'.observe m s = some (init.observation (w.glimpse m)) := by
  obtain ⟨sl, hsl, hblocked, -, hsame⟩ := construct_core hw hf h
  rw [World.observe_of_slot hsl, hblocked, hsame]

theorem construct_glimpse (hw : w.Since 0)
    (hf : ∀ f x, init.functor = some f → .slot x ∈ f → x.Made 0 w.next)
    (h : construct owner init w = (.ret s, w')) (m : Nat) :
    w'.glimpse (m + 1) s = some (init.observation (w.glimpse m)) := by
  obtain ⟨sl, hsl, -, hflag, hsame⟩ := construct_core hw hf h
  rw [World.glimpse_of_slot hsl, hflag, hsame]

/-- The copy of a functor looks like it. -/
theorem copyFunctor_seen {copySlot : SlotAddr → M V SlotAddr}
    (hcopy : ∀ s s' (v v' : World V), copySlot s v = (.ret s', v') → v.Since 0 → s.Made 0 v.next →
      v'.Since 0 ∧ v.Spares (fun _ => True) (fun _ => True) v' ∧ s'.Made 0 v'.next ∧
        ∀ m, v'.glimpse m s' = v.glimpse m s) (f : Functor) :
    ∀ {w w' : World V} {f' : Functor}, copyFunctor copySlot f w = (.ret f', w') → w.Since 0 →
      (∀ x, .slot x ∈ f → x.Made 0 w.next) → w.Spares (fun _ => True) (fun _ => True) w' ∧
        ∀ m, f'.map (Target.seen (w'.glimpse m)) = f.map (Target.seen (w.glimpse m)) := by
  induction f with
  | nil =>
    intro w w' f' h hw _
    obtain ⟨rfl, rfl⟩ := pure_eq_ret.mp h
    exact ⟨.refl _, fun m => rfl⟩
  | cons t ts ih =>
    intro w w' f' h hw hf
    have hts (x : SlotAddr) (hx : .slot x ∈ ts) : x.Made 0 w.next := hf x (List.mem_cons_of_mem _ hx)
    cases t with
    | trackable t =>
      obtain ⟨ts', w₁, hts', h⟩ := bind_eq_ret.mp h
      obtain ⟨rfl, rfl⟩ := pure_eq_ret.mp h
      obtain ⟨h₁, hseen⟩ := ih hts' hw hts
      exact ⟨h₁, fun m => by rw [List.map_cons, List.map_cons, hseen m]; rfl⟩
    | slot s =>
      obtain ⟨s', w₁, hs, h⟩ := bind_eq_ret.mp h
      obtain ⟨ts', w₂, hts', h⟩ := bind_eq_ret.mp h
      obtain ⟨rfl, rfl⟩ := pure_eq_ret.mp h
      obtain ⟨hw₁, h₁, hs', hpart⟩ := hcopy s s' w w₁ hs hw (hf s List.mem_cons_self)
      obtain ⟨h₂, hseen⟩ := ih hts' hw₁ fun x hx => (hts x hx).mono (Nat.le_refl _) h₁.next
      refine ⟨h₁.trans h₂, fun m => ?_⟩
      -- The copy looks like the slot when it has just been made, and is left alone by what follows.
      have hcopied : w₂.glimpse m s' = w.glimpse m s :=
        (hw₁.glimpse_of_spares h₂ (fun _ _ => trivial) (fun _ _ => trivial) m hs').trans (hpart m)
      -- The slots that are copied later have been left alone by the first copy.
      have hrest : ts.map (Target.seen (w₁.glimpse m)) = ts.map (Target.seen (w.glimpse m)) :=
        Functor.seen_congr fun x hx =>
          hw.glimpse_of_spares h₁ (fun _ _ => trivial) (fun _ _ => trivial) m (hts x hx)
      rw [List.map_cons, List.map_cons, hseen m, hrest]
      exact congrArg (· :: _) (congrArg Sum.inr hcopied)

theorem copyInit_alive {n : Nat} {src : SlotAddr} (h : copyInit n src w = (.ret init, w')) :
    ∃ sl, w.slots src = some sl := by
  cases n with
  | zero => cases h
  | succ n =>
    obtain ⟨sl, w₁, hload, -⟩ := bind_eq_ret.mp h
    exact ⟨sl, (deref_eq_ret.mp hload).1⟩

/-- What the copy constructor takes from `src`. -/
theorem copyInit_observation (n : Nat) :
    ∀ {src : SlotAddr} {w w' : World V} {sl : SlotBase} {init : SlotInit}, w.Since 0 →
      w.slots src = some sl → copyInit n src w = (.ret init, w') → ∀ m,
        init.observation (w'.glimpse m) =
          .ofCore (w.glimpse m) (w.copiedFlag sl) (sl.rep.bind w.core) := by
  -- on the depth: the slots in the functor are copied, and show the same, one level deeper
  induction n with
  | zero =>
    intro src w w' sl init _ _ h
    cases h
  | succ n ih =>
    intro src w w' sl init hw hsl h m
    obtain ⟨sl', w₁, hload, h⟩ := bind_eq_ret.mp h
    obtain ⟨hsl', rfl⟩ := deref_eq_ret.mp hload
    obtain rfl := Option.some.inj (hsl.symm.trans hsl')
    obtain ⟨rep, blocked, owner, dying⟩ := sl
    cases rep with
    | none =>
      obtain ⟨rfl, rfl⟩ := pure_eq_ret.mp h
      rfl
    | some r =>
      obtain ⟨rep, w₁, hload, h⟩ := bind_eq_ret.mp h
      obtain ⟨hrep, rfl⟩ := deref_eq_ret.mp hload
      have hcore := World.core_of_rep hrep
      have hcalls : w.calls (some r) = rep.call := by
        unfold World.calls
        simp [hrep]
      cases hcall : rep.call with
      | false =>
        rw [if_neg (by simp [hcall])] at h
        obtain ⟨rfl, rfl⟩ := pure_eq_ret.mp h
        have hflag : w.copiedFlag ⟨some r, blocked, owner, dying⟩ = false :=
          if_neg (by simp [hcalls, hcall])
        show (⟨true, false, none⟩ : Observation (Glimpse m)) = .ofCore _ _ (w.core r)
        rw [hflag, hcore, hcall]
        rfl
      | true =>
        rw [if_pos hcall] at h
        obtain ⟨f, w₁, hload, h⟩ := bind_eq_ret.mp h
        obtain ⟨hf, rfl⟩ := deref_eq_ret.mp hload
        obtain ⟨f', w₂, hcopy, h⟩ := bind_eq_ret.mp h
        obtain ⟨rfl, rfl⟩ := pure_eq_ret.mp h
        have hflag : w.copiedFlag ⟨some r, blocked, owner, dying⟩ = blocked :=
          if_pos (.inr (hcalls.trans hcall))
        have hrlt : r < w.next := by
          by_contra hnot
          rw [(hw.vacant r (Nat.not_lt.mp hnot)).2] at hrep
          cases hrep
        -- The slots stored in the functor have been made before.
        have hstored (x : SlotAddr) (hx : .slot x ∈ f) : x.Made 0 w.next := by
          refine hw.functor r f x ⟨Nat.zero_le _, hrlt⟩ ?_ hx
          rw [World.functorsOf_of_core hcore, hf]
        -- The copy constructor of a stored slot, of which less depth is left.
        have hslots (s s' : SlotAddr) (v v' : World V)
            (hs : (copyInit n s >>= construct .functor) v = (.ret s', v')) (hv : v.Since 0)
            (_ : s.Made 0 v.next) : v'.Since 0 ∧ v.Spares (fun _ => True) (fun _ => True) v' ∧
              s'.Made 0 v'.next ∧ ∀ m, v'.glimpse m s' = v.glimpse m s := by
          obtain ⟨init, v₁, hinit, hs⟩ := bind_eq_ret.mp hs
          obtain ⟨sl, hsl⟩ := copyInit_alive hinit
          obtain ⟨hv₁, hle, hmade⟩ := copyInit_since n hinit (Nat.zero_le _) hv
          have hmade₀ (f : Functor) (x : SlotAddr) (hf : init.functor = some f) (hx : .slot x ∈ f) :
              x.Made 0 v₁.next := (hmade f x hf hx).mono (Nat.zero_le _) (Nat.le_refl _)
          obtain ⟨hv', hs'⟩ := construct_since (Nat.zero_le _) hv₁ hmade₀ hs
          refine ⟨hv', ((copyInit_spares n s).of_ret hinit).trans
            ((construct_spares .functor init).of_ret hs), hs'.mono (Nat.zero_le _) (Nat.le_refl _),
            fun m => ?_⟩
          cases m with
          | zero => rfl
          | succ m =>
            rw [construct_glimpse hv₁ hmade₀ hs, World.glimpse_of_slot hsl, ih hv hsl hinit m]
        obtain ⟨-, hseen⟩ := copyFunctor_seen hslots f hcopy hw hstored
        show (⟨false, blocked, some (f'.map _)⟩ : Observation (Glimpse m)) = .ofCore _ _ (w.core r)
        rw [hflag, hcore, hcall, hf, hseen m]
        rfl

/-- A rep that holds the copy shows what the source shows, as long as what has been made for it is
left alone. -/
theorem copyInit_seen {n : Nat} {src : SlotAddr} {w₁ : World V} (hw : w.Since 0)
    (hsl : w.slots src = some sl) (hcalls : w.calls sl.rep = true)
    (hinit : copyInit n src w = (.ret init, w₁)) (hf : init.functor = some f)
    (h : w₁.Spares (w.next ≤ ·) (fun t => ∃ a, t = .object a ∧ w.next ≤ a) w') (m : Nat) :
    Observation.ofCore (w'.glimpse m) sl.blocked (some (true, some f)) =
      .ofCore (w.glimpse m) sl.blocked (sl.rep.bind w.core) := by
  have hflag : w.copiedFlag sl = sl.blocked := if_pos (.inr hcalls)
  have hcopy := copyInit_observation n hw hsl hinit m
  obtain ⟨hw₁, -, hmade⟩ := copyInit_since n hinit (Nat.le_refl _) (World.since_next hw.vacant)
  obtain ⟨functor, blocked⟩ := init
  obtain rfl : functor = some f := hf
  have hblocked : blocked = sl.blocked := by
    have hflags := congrArg Observation.blocked hcopy
    rw [Observation.ofCore_blocked, hflag] at hflags
    exact hflags
  rw [hflag, ← hblocked] at hcopy
  rw [← hblocked, ← hcopy]
  refine Observation.ofCore_congr fun g x hg hx => ?_
  cases hg
  refine hw₁.glimpse_of_spares h (fun t ht => ?_) (fun r hr => hr.1) m (hmade f x rfl hx)
  obtain ⟨a, rfl, ha, -⟩ := ht
  exact ⟨a, rfl, ha⟩

end SlotBase

end Sigc
