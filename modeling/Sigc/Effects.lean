import Sigc.Step
import Mathlib.Logic.Function.Iterate

/-!
# What the straight-line functions do

For every function of the library that is a step of its own, its effect on the world: which parts
it may change, and how.
-/

namespace Sigc

open Reasoning Prog

variable {V : Type} {w w' : World V}

theorem alloc_eq_ret {a : Addr} :
    alloc w = (.ret a, w') ↔ a = w.next ∧ w' = { w with next := w.next + 1 } := by
  unfold alloc
  simp [eq_comm]

/-! ## Callbacks -/

theorem loadIntact_eq_ret {s : SlotAddr} {sl : SlotBase} :
    loadIntact s w = (.ret sl, w') ↔ (w.slots s = some sl ∧ sl.dying = false) ∧ w = w' := by
  simp [loadIntact, deref_eq_ret, Option.filter_eq_some_iff]

namespace Trackable

variable {data : Addr} {func : DestroyNotify} {tr : Trackable}

@[simp] theorem addCallback_dying : (tr.addCallback data func).dying = tr.dying := rfl

@[simp] theorem removeCallback_dying : (tr.removeCallback data).dying = tr.dying := rfl

@[simp] theorem addCallback_clearing :
    (tr.addCallback data func).callbacks.clearing = tr.callbacks.clearing := by
  change ((tr.callbacks).addCallback data func).clearing = _
  unfold TrackableCallbackList.addCallback
  split <;> rfl

@[simp] theorem removeCallback_clearing :
    (tr.removeCallback data).callbacks.clearing = tr.callbacks.clearing := rfl

end Trackable

/-- Every trackable `t` has been changed `k t` times by `g`; none has been created or destroyed. -/
def Changed (g : Trackable → Trackable) (k : Addr → Nat) (old new : Addr → Option Trackable) :
    Prop := ∀ t, new t = (old t).map (Nat.iterate g (k t))

namespace Changed

variable {g : Trackable → Trackable} {k k' : Addr → Nat}
  {old mid new : Addr → Option Trackable}

theorem refl (g) (f : Addr → Option Trackable) : Changed g (fun _ => 0) f f := by
  intro t
  cases f t <;> simp

theorem trans (h : Changed g k old mid) (h' : Changed g k' mid new) :
    Changed g (fun t => k t + k' t) old new := by
  intro t
  rw [h' t, h t, Option.map_map, ← Function.iterate_add, Nat.add_comm]

theorem update {t : Addr} {tr : Trackable} (h : old t = some tr) :
    Changed g (fun t' => if t' = t then 1 else 0) old (Function.update old t (some (g tr))) := by
  intro t'
  by_cases ht : t' = t
  · subst ht
    simp [h]
  · rw [Function.update_of_ne ht]
    cases old t' <;> simp [ht]

theorem congr (h : Changed g k old new) (hk : ∀ t, k t = k' t) : Changed g k' old new :=
  fun t => hk t ▸ h t

/-- What `g` preserves holds of the trackables that it has changed. -/
theorem preserves {P : Trackable → Trackable → Prop} (hrefl : ∀ tr, P tr tr)
    (htrans : ∀ a b c, P a b → P b c → P a c) (hg : ∀ tr, P tr (g tr)) (h : Changed g k old new)
    {t : Addr} {tr' : Trackable} (ht : new t = some tr') : ∃ tr, old t = some tr ∧ P tr tr' := by
  rw [h t] at ht
  obtain ⟨tr, htr, rfl⟩ := Option.map_eq_some_iff.mp ht
  refine ⟨tr, htr, ?_⟩
  -- By induction on how often g has been applied.
  induction k t with
  | zero => exact hrefl tr
  | succ n ih =>
    rw [Function.iterate_succ_apply']
    exact htrans _ _ _ ih (hg _)

theorem none_iff (h : Changed g k old new) (t : Addr) : new t = none ↔ old t = none := by
  rw [h t, Option.map_eq_none_iff]

end Changed

/-- The callback `func` for `data` has been added `k t` times to every trackable `t`, or ignored
where `t` was running through its callbacks. -/
structure Registered (data : Addr) (func : DestroyNotify) (k : Addr → Nat)
    (old : Addr → Option Trackable) (ign : List (Addr × Addr))
    (new : Addr → Option Trackable) (ign' : List (Addr × Addr)) : Prop where
  changed : Changed (Trackable.addCallback data func) k old new
  grown : ∀ p ∈ ign, p ∈ ign'
  ignores : ∀ p ∈ ign', p ∈ ign ∨
    p.2 = data ∧ ∃ tr, old p.1 = some tr ∧ tr.callbacks.clearing = true
  refused : ∀ t tr, old t = some tr → 0 < k t → tr.callbacks.clearing = true → (t, data) ∈ ign'
  alive : ∀ t, 0 < k t → ∃ tr, old t = some tr

namespace Registered

variable {data : Addr} {func : DestroyNotify} {k k' : Addr → Nat}
  {old mid new : Addr → Option Trackable} {ign ign' ign'' : List (Addr × Addr)}

theorem refl (old : Addr → Option Trackable) (ign : List (Addr × Addr)) :
    Registered data func (fun _ => 0) old ign old ign where
  changed := .refl _ _
  grown _ h := h
  ignores _ h := .inl h
  refused _ _ _ h := absurd h (Nat.lt_irrefl 0)
  alive _ h := absurd h (Nat.lt_irrefl 0)

theorem trans (h : Registered data func k old ign mid ign')
    (h' : Registered data func k' mid ign' new ign'') :
    Registered data func (fun t => k t + k' t) old ign new ign'' where
  changed := h.changed.trans h'.changed
  grown p hp := h'.grown p (h.grown p hp)
  ignores p hp := by
    rcases h'.ignores p hp with hmid | ⟨hdata, tr', htr', hclearing⟩
    · exact h.ignores p hmid
    · obtain ⟨tr, htr, hsame⟩ := h.changed.preserves
        (P := fun tr tr' => tr'.callbacks.clearing = tr.callbacks.clearing) (fun _ => rfl)
        (fun _ _ _ hab hbc => hbc.trans hab) (fun _ => Trackable.addCallback_clearing) htr'
      exact .inr ⟨hdata, tr, htr, hsame ▸ hclearing⟩
  refused t tr ht hk hc := by
    -- It was refused the first time already, or the list has not changed since.
    by_cases hkt : 0 < k t
    · exact h'.grown _ (h.refused t tr ht hkt hc)
    · have hk' : 0 < k' t := by omega
      have hkt' : k t = 0 := by omega
      have hmid : mid t = some tr := by
        rw [h.changed t, ht, hkt']
        rfl
      exact h'.refused t tr hmid hk' hc
  alive t hk := by
    by_cases hkt : 0 < k t
    · exact h.alive t hkt
    · obtain ⟨tr, htr⟩ := h'.alive t (by omega)
      rw [h.changed t] at htr
      obtain ⟨tr₀, htr₀, -⟩ := Option.map_eq_some_iff.mp htr
      exact ⟨tr₀, htr₀⟩

theorem congr (h : Registered data func k old ign new ign') (hk : ∀ t, k t = k' t) :
    Registered data func k' old ign new ign' :=
  funext hk ▸ h

end Registered

namespace Trackable

theorem addDestroyNotifyCallback_effect {t data : Addr} {func : DestroyNotify}
    (h : addDestroyNotifyCallback t data func w = (.ret (), w')) :
    ∃ tks ign, w' = { w with trackables := tks, ignored := ign } ∧
      Registered data func (fun t' => if t' = t then 1 else 0) w.trackables w.ignored tks ign := by
  unfold addDestroyNotifyCallback loadTrackable at h
  simp only [bind_eq_ret, deref_eq_ret, modify_eq_ret] at h
  obtain ⟨tr, _, ⟨htr, rfl⟩, rfl⟩ := h
  refine ⟨_, _, rfl, .update htr, fun p hp => ?_, fun p hp => ?_, fun t' tr' htr' hk hc => ?_,
    fun t' hk => ?_⟩
  · split
    · exact List.mem_cons_of_mem _ hp
    · exact hp
  · split at hp
    · rename_i hclearing
      rcases List.mem_cons.mp hp with rfl | hold
      · exact .inr ⟨rfl, tr, htr, hclearing⟩
      · exact .inl hold
    · exact .inl hp
  · obtain rfl : t' = t := by
      by_contra ht
      simp [ht] at hk
    obtain rfl := Option.some.inj (htr.symm.trans htr')
    simp [hc]
  · obtain rfl : t' = t := by
      by_contra ht
      simp [ht] at hk
    exact ⟨tr, htr⟩

theorem removeDestroyNotifyCallback_effect {t data : Addr}
    (h : removeDestroyNotifyCallback t data w = (.ret (), w')) :
    ∃ tks, w' = { w with trackables := tks } ∧
      Changed (removeCallback data) (fun t' => if t' = t then 1 else 0) w.trackables tks := by
  unfold removeDestroyNotifyCallback loadTrackable at h
  simp only [bind_eq_ret, deref_eq_ret, modify_eq_ret] at h
  obtain ⟨tr, _, ⟨htr, rfl⟩, rfl⟩ := h
  exact ⟨_, rfl, .update htr⟩

end Trackable

/-! ## Weak pointers -/

/-- The trackable that a weak pointer is registered with. -/
def WeakTarget.pointee (slots : SlotAddr → Option SlotBase) : WeakTarget → Option Addr
  | .rep r => some r
  | .slot s => (slots s).bind (·.rep)

namespace WeakRawPtr

/-- How often a weak pointer to `p` is registered with `t`. -/
def uses (slots : SlotAddr → Option SlotBase) (p : Option WeakTarget) (t : Addr) : Nat :=
  if p.bind (·.pointee slots) = some t then 1 else 0

theorem registerPtr_effect {c : Addr} {p : Option WeakTarget}
    (h : registerPtr c p w = (.ret (), w')) :
    ∃ tks ign, w' = { w with trackables := tks, ignored := ign } ∧
      Registered c .notifyObjectInvalidated (uses w.slots p) w.trackables w.ignored tks ign := by
  -- The pointee is a rep, by itself or as the rep of a slot; or there is none, and nothing happens.
  have hrep {r : Addr} (hp : p.bind (·.pointee w.slots) = some r)
      (h : Trackable.addDestroyNotifyCallback r c .notifyObjectInvalidated w = (.ret (), w')) :
      ∃ tks ign, w' = { w with trackables := tks, ignored := ign } ∧
        Registered c .notifyObjectInvalidated (uses w.slots p) w.trackables w.ignored tks ign := by
    obtain ⟨tks, ign, rfl, hreg⟩ := Trackable.addDestroyNotifyCallback_effect h
    exact ⟨tks, ign, rfl, hreg.congr fun t => by simp [uses, hp, eq_comm]⟩
  have hnone (hp : p.bind (·.pointee w.slots) = none) (h : w = w') :
      ∃ tks ign, w' = { w with trackables := tks, ignored := ign } ∧
        Registered c .notifyObjectInvalidated (uses w.slots p) w.trackables w.ignored tks ign :=
    ⟨_, _, h.symm, (Registered.refl _ _).congr fun t => by simp [uses, hp]⟩
  cases p with
  | none =>
    simp only [registerPtr, pure_eq_ret, true_and] at h
    exact hnone rfl h
  | some p =>
    cases p with
    | rep r => exact hrep rfl h
    | slot s =>
      simp only [registerPtr, register, loadSlot, bind_eq_ret, deref_eq_ret] at h
      obtain ⟨sl, _, ⟨hsl, rfl⟩, h⟩ := h
      cases hr : sl.rep with
      | none =>
        simp only [hr, pure_eq_ret, true_and] at h
        exact hnone (by simp [WeakTarget.pointee, hsl, hr]) h
      | some r =>
        simp only [hr] at h
        exact hrep (by simp [WeakTarget.pointee, hsl, hr]) h

theorem unregisterPtr_effect {c : Addr} {p : Option WeakTarget}
    (h : unregisterPtr c p w = (.ret (), w')) :
    ∃ tks, w' = { w with trackables := tks } ∧
      Changed (Trackable.removeCallback c) (uses w.slots p) w.trackables tks := by
  have hrep {r : Addr} (hp : p.bind (·.pointee w.slots) = some r)
      (h : Trackable.removeDestroyNotifyCallback r c w = (.ret (), w')) :
      ∃ tks, w' = { w with trackables := tks } ∧
        Changed (Trackable.removeCallback c) (uses w.slots p) w.trackables tks := by
    obtain ⟨tks, rfl, hch⟩ := Trackable.removeDestroyNotifyCallback_effect h
    exact ⟨tks, rfl, hch.congr fun t => by simp [uses, hp, eq_comm]⟩
  have hnone (hp : p.bind (·.pointee w.slots) = none) (h : w = w') :
      ∃ tks, w' = { w with trackables := tks } ∧
        Changed (Trackable.removeCallback c) (uses w.slots p) w.trackables tks :=
    ⟨_, h.symm, (Changed.refl _ _).congr fun t => by simp [uses, hp]⟩
  cases p with
  | none =>
    simp only [unregisterPtr, pure_eq_ret, true_and] at h
    exact hnone rfl h
  | some p =>
    cases p with
    | rep r => exact hrep rfl h
    | slot s =>
      simp only [unregisterPtr, unregister, loadSlot, bind_eq_ret, deref_eq_ret] at h
      obtain ⟨sl, _, ⟨hsl, rfl⟩, h⟩ := h
      cases hr : sl.rep with
      | none =>
        simp only [hr, pure_eq_ret, true_and] at h
        exact hnone (by simp [WeakTarget.pointee, hsl, hr]) h
      | some r =>
        simp only [hr] at h
        exact hrep (by simp [WeakTarget.pointee, hsl, hr]) h

theorem construct_effect {p : Option WeakTarget} {b : Bool} {c : Addr}
    (h : construct p b w = (.ret c, w')) :
    c = w.next ∧ ∃ tks ign, w' = { w with
      next := w.next + 1
      trackables := tks
      weaks := Function.update w.weaks w.next (some ⟨p, b⟩)
      ignored := ign } ∧
      Registered w.next .notifyObjectInvalidated (uses w.slots p) w.trackables w.ignored
        tks ign := by
  unfold construct at h
  simp only [bind_eq_ret, alloc_eq_ret, modify_eq_ret, pure_eq_ret] at h
  obtain ⟨_, _, ⟨rfl, rfl⟩, _, _, rfl, _, _, hreg, rfl, rfl⟩ := h
  obtain ⟨tks, ign, rfl, hreg'⟩ := registerPtr_effect hreg
  exact ⟨rfl, tks, ign, rfl, hreg'⟩

theorem assign_effect {c src : Addr} (h : assign c src w = (.ret (), w')) :
    ∃ mid tks ign self from_, w.weaks c = some self ∧ w.weaks src = some from_ ∧
      w' = { w with
        trackables := tks
        weaks := Function.update w.weaks c (some { self with ptr := from_.ptr })
        ignored := ign } ∧
      Changed (Trackable.removeCallback c) (uses w.slots self.ptr) w.trackables mid ∧
      Registered c .notifyObjectInvalidated (uses w.slots from_.ptr) mid w.ignored tks ign := by
  unfold assign loadWeak at h
  simp only [bind_eq_ret, deref_eq_ret, modify_eq_ret] at h
  obtain ⟨self, _, ⟨hself, rfl⟩, _, _, hun, from_, _, ⟨hfrom, rfl⟩, _, _, rfl, hreg⟩ := h
  -- First the old target is left, and then the new one is joined.
  obtain ⟨mid, rfl, hch⟩ := unregisterPtr_effect hun
  obtain ⟨tks, ign, rfl, hreg'⟩ := registerPtr_effect hreg
  exact ⟨mid, tks, ign, self, from_, hself, hfrom, rfl, hch, hreg'⟩

theorem destroy_effect {c : Addr} (h : destroy c w = (.ret (), w')) :
    ∃ tks self, w.weaks c = some self ∧
      w' = { w with trackables := tks, weaks := Function.update w.weaks c none } ∧
      Changed (Trackable.removeCallback c) (uses w.slots self.ptr) w.trackables tks := by
  unfold destroy loadWeak at h
  simp only [bind_eq_ret, deref_eq_ret, modify_eq_ret] at h
  obtain ⟨self, _, ⟨hself, rfl⟩, _, _, hun, rfl⟩ := h
  obtain ⟨tks, rfl, hch⟩ := unregisterPtr_effect hun
  exact ⟨tks, self, hself, rfl, hch⟩

end WeakRawPtr

/-! ## Binding and unbinding -/

theorem count_trackable (t t' : Addr) :
    List.count (Target.trackable t') [.trackable t] = if t' = t then 1 else 0 := by
  by_cases h : t' = t
  · simp [h]
  · have h' : t ≠ t' := fun ht => h ht.symm
    simp [h, h']

/-- `r` has been registered with the trackables in `f`. -/
abbrev Bound (r : Addr) (f : Functor) :=
  Registered r .notifySlotRepInvalidated fun t => f.count (.trackable t)

/-- `r` is no longer registered with the trackables in `f`. -/
abbrev Unbound (r : Addr) (f : Functor) :=
  Changed (Trackable.removeCallback r) fun t => f.count (.trackable t)

/-- `r` has become the parent of reps of the slots in `f` that had none. -/
def RepsBound (slots : SlotAddr → Option SlotBase) (r : Addr) (f : Functor)
    (old new : Addr → Option SlotRep) : Prop :=
  ∀ q, new q = old q ∨ ∃ s sl rep, .slot s ∈ f ∧ slots s = some sl ∧ sl.rep = some q ∧
    old q = some rep ∧ rep.parent = none ∧
    new q = some { rep with parent := some r, cleanup := some .notifySlotRepInvalidated }

/-- `r` is no longer the parent of the reps of the slots in `f`. -/
def RepsUnbound (slots : SlotAddr → Option SlotBase) (r : Addr) (f : Functor)
    (old new : Addr → Option SlotRep) : Prop :=
  ∀ q, new q = old q ∨ ∃ s sl rep, .slot s ∈ f ∧ slots s = some sl ∧ sl.rep = some q ∧
    old q = some rep ∧ rep.parent = some r ∧
    new q = some { rep with parent := none, cleanup := none }

theorem slotDoBind_effect {r : Addr} {t : Target} (h : slotDoBind r t w = (.ret (), w')) :
    ∃ tks ign rps, w' = { w with trackables := tks, ignored := ign, reps := rps } ∧
      Bound r [t] w.trackables w.ignored tks ign ∧ RepsBound w.slots r [t] w.reps rps := by
  cases t with
  | trackable t =>
    obtain ⟨tks, ign, rfl, hreg⟩ := Trackable.addDestroyNotifyCallback_effect h
    exact ⟨tks, ign, w.reps, rfl, hreg.congr fun t' => (count_trackable t t').symm,
      fun q => .inl rfl⟩
  | slot s =>
    have hbound : Bound r [.slot s] w.trackables w.ignored w.trackables w.ignored :=
      (Registered.refl _ _).congr fun t => by simp
    unfold slotDoBind loadSlot at h
    simp only [bind_eq_ret, deref_eq_ret] at h
    obtain ⟨sl, _, ⟨hsl, rfl⟩, h⟩ := h
    cases hr : sl.rep with
    | none =>
      simp only [hr, pure_eq_ret, true_and] at h
      exact ⟨_, _, _, h.symm, hbound, fun q => .inl rfl⟩
    | some q =>
      simp only [hr, loadRep, bind_eq_ret, deref_eq_ret] at h
      obtain ⟨rep, _, ⟨hrep, rfl⟩, h⟩ := h
      -- A rep that has a parent already keeps it.
      by_cases hp : rep.parent = none
      · rw [if_pos hp, modify_eq_ret] at h
        refine ⟨_, _, _, h.symm, hbound, fun q' => ?_⟩
        by_cases hq : q' = q
        · subst hq
          exact .inr ⟨s, sl, rep, by simp, hsl, hr, hrep, hp, by simp⟩
        · exact .inl (Function.update_of_ne hq _ _)
      · rw [if_neg hp, pure_eq_ret] at h
        exact ⟨_, _, _, h.2.symm, hbound, fun q => .inl rfl⟩

theorem slotDoUnbind_effect {r : Addr} {t : Target} (h : slotDoUnbind r t w = (.ret (), w')) :
    ∃ tks rps, w' = { w with trackables := tks, reps := rps } ∧
      Unbound r [t] w.trackables tks ∧ RepsUnbound w.slots r [t] w.reps rps := by
  cases t with
  | trackable t =>
    obtain ⟨tks, rfl, hch⟩ := Trackable.removeDestroyNotifyCallback_effect h
    exact ⟨tks, w.reps, rfl, hch.congr fun t' => (count_trackable t t').symm,
      fun q => .inl rfl⟩
  | slot s =>
    have hbound : Unbound r [.slot s] w.trackables w.trackables :=
      (Changed.refl _ _).congr fun t => by simp
    unfold slotDoUnbind loadSlot at h
    simp only [bind_eq_ret, deref_eq_ret] at h
    obtain ⟨sl, _, ⟨hsl, rfl⟩, h⟩ := h
    cases hr : sl.rep with
    | none =>
      simp only [hr, pure_eq_ret, true_and] at h
      exact ⟨_, _, h.symm, hbound, fun q => .inl rfl⟩
    | some q =>
      simp only [hr, loadRep, bind_eq_ret, deref_eq_ret] at h
      obtain ⟨rep, _, ⟨hrep, rfl⟩, h⟩ := h
      -- Only where this rep is the parent it is taken away.
      by_cases hp : rep.parent = some r
      · rw [if_pos hp, modify_eq_ret] at h
        refine ⟨_, _, h.symm, hbound, fun q' => ?_⟩
        by_cases hq : q' = q
        · subst hq
          exact .inr ⟨s, sl, rep, by simp, hsl, hr, hrep, hp, by simp⟩
        · exact .inl (Function.update_of_ne hq _ _)
      · rw [if_neg hp, pure_eq_ret] at h
        exact ⟨_, _, h.2.symm, hbound, fun q => .inl rfl⟩

section Append

variable {slots : SlotAddr → Option SlotBase} {r : Addr} {f g : Functor}
  {a b c : Addr → Option SlotRep}

theorem RepsBound.append (hf : RepsBound slots r f a b) (hg : RepsBound slots r g b c) :
    RepsBound slots r (f ++ g) a c := by
  intro q
  rcases hg q with hg | ⟨s, sl, rep, hs, hsl, hr, hrep, hp, hq⟩
  · rw [hg]
    rcases hf q with hf | ⟨s, sl, rep, hs, h⟩
    · exact .inl hf
    · exact .inr ⟨s, sl, rep, List.mem_append_left _ hs, h⟩
  -- A rep that has got its parent from the first part does not get one from the second.
  · rcases hf q with hf | ⟨_, _, _, _, _, _, _, _, hq'⟩
    · exact .inr ⟨s, sl, rep, List.mem_append_right _ hs, hsl, hr, hf ▸ hrep, hp, hq⟩
    · rw [hq'] at hrep
      obtain rfl := Option.some.inj hrep
      simp at hp

theorem RepsUnbound.append (hf : RepsUnbound slots r f a b) (hg : RepsUnbound slots r g b c) :
    RepsUnbound slots r (f ++ g) a c := by
  intro q
  rcases hg q with hg | ⟨s, sl, rep, hs, hsl, hr, hrep, hp, hq⟩
  · rw [hg]
    rcases hf q with hf | ⟨s, sl, rep, hs, h⟩
    · exact .inl hf
    · exact .inr ⟨s, sl, rep, List.mem_append_left _ hs, h⟩
  -- Nor does it lose it twice.
  · rcases hf q with hf | ⟨_, _, _, _, _, _, _, _, hq'⟩
    · exact .inr ⟨s, sl, rep, List.mem_append_right _ hs, hsl, hr, hf ▸ hrep, hp, hq⟩
    · rw [hq'] at hrep
      obtain rfl := Option.some.inj hrep
      simp at hp

end Append

theorem visitEach_bind_effect {r : Addr} {f : Functor}
    (h : visitEach (slotDoBind r) f w = (.ret (), w')) :
    ∃ tks ign rps, w' = { w with trackables := tks, ignored := ign, reps := rps } ∧
      Bound r f w.trackables w.ignored tks ign ∧ RepsBound w.slots r f w.reps rps := by
  induction f generalizing w with
  | nil =>
    simp only [visitEach, pure_eq_ret, true_and] at h
    exact ⟨_, _, _, h.symm, .refl _ _, fun q => .inl rfl⟩
  | cons t ts ih =>
    simp only [visitEach, bind_eq_ret] at h
    obtain ⟨_, _, ht, hts⟩ := h
    obtain ⟨tks, ign, rps, rfl, hsame, hbound⟩ := slotDoBind_effect ht
    obtain ⟨tks', ign', rps', rfl, hsame', hbound'⟩ := ih hts
    exact ⟨_, _, _, rfl, (hsame.trans hsame').congr fun t => by
      simp [List.count_cons, Nat.add_comm], hbound.append hbound'⟩

theorem visitEach_unbind_effect {r : Addr} {f : Functor}
    (h : visitEach (slotDoUnbind r) f w = (.ret (), w')) :
    ∃ tks rps, w' = { w with trackables := tks, reps := rps } ∧
      Unbound r f w.trackables tks ∧ RepsUnbound w.slots r f w.reps rps := by
  induction f generalizing w with
  | nil =>
    simp only [visitEach, pure_eq_ret, true_and] at h
    exact ⟨_, _, h.symm, .refl _ _, fun q => .inl rfl⟩
  | cons t ts ih =>
    simp only [visitEach, bind_eq_ret] at h
    obtain ⟨_, _, ht, hts⟩ := h
    obtain ⟨tks, rps, rfl, hsame, hbound⟩ := slotDoUnbind_effect ht
    obtain ⟨tks', rps', rfl, hsame', hbound'⟩ := ih hts
    exact ⟨_, _, rfl, (hsame.trans hsame').congr fun t => by
      simp [List.count_cons, Nat.add_comm], hbound.append hbound'⟩

/-! ## Reps and slots -/

/-- The world after a rep for `f` has been constructed at the next address. -/
def World.afterRep (w : World V) (tks : Addr → Option Trackable) (ign : List (Addr × Addr))
    (rps : Addr → Option SlotRep) : World V :=
  { w with next := w.next + 1, trackables := tks, ignored := ign, reps := rps }

/-- `tks`, `ign` and `rps` are the trackables, the ignored dependencies and the reps after the
construction. -/
structure RepConstructed (w : World V) (f : Functor) (tks : Addr → Option Trackable)
    (ign : List (Addr × Addr)) (rps : Addr → Option SlotRep) : Prop where
  registered : Bound w.next f (Function.update w.trackables w.next (some {})) w.ignored tks ign
  bound : RepsBound w.slots w.next f
    (Function.update w.reps w.next (some { call := true, functor := some f })) rps

theorem SlotRep.construct_effect {r : Addr} {f : Functor}
    (h : SlotRep.construct f w = (.ret r, w')) :
    r = w.next ∧ ∃ tks ign rps, w' = w.afterRep tks ign rps ∧ RepConstructed w f tks ign rps := by
  unfold SlotRep.construct at h
  simp only [bind_eq_ret, alloc_eq_ret, modify_eq_ret, pure_eq_ret] at h
  obtain ⟨_, _, ⟨rfl, rfl⟩, _, _, rfl, _, _, hbind, rfl, rfl⟩ := h
  obtain ⟨tks, ign, rps, rfl, hsame, hbound⟩ := visitEach_bind_effect hbind
  exact ⟨rfl, tks, ign, rps, rfl, hsame, hbound⟩

theorem SlotBase.new_effect {sl : SlotBase} {s : SlotAddr}
    (h : SlotBase.new sl w = (.ret s, w')) :
    s = .object w.next ∧
      w' = World.setSlot { w with next := w.next + 1 } (.object w.next) (some sl) := by
  unfold SlotBase.new at h
  simp only [bind_eq_ret, alloc_eq_ret, modify_eq_ret, pure_eq_ret] at h
  obtain ⟨_, _, ⟨rfl, rfl⟩, _, _, rfl, rfl, rfl⟩ := h
  exact ⟨rfl, rfl⟩

/-- A slot is constructed without a rep at the next address, or with one right before it. -/
theorem SlotBase.construct_effect {owner : Owner} {init : SlotInit} {s : SlotAddr}
    (h : SlotBase.construct owner init w = (.ret s, w')) :
    (init.functor = none ∧ s = .object w.next ∧ w' = World.setSlot { w with next := w.next + 1 } s
      (some { blocked := init.blocked, owner })) ∨
    ∃ f tks ign rps, init.functor = some f ∧ RepConstructed w f tks ign rps ∧
      s = .object (w.next + 1) ∧
      w' = World.setSlot { w.afterRep tks ign rps with next := w.next + 1 + 1 } s
        (some { rep := some w.next, blocked := init.blocked, owner }) := by
  unfold SlotBase.construct at h
  cases hf : init.functor with
  | none =>
    simp only [hf] at h
    obtain ⟨rfl, rfl⟩ := SlotBase.new_effect h
    exact .inl ⟨rfl, rfl, rfl⟩
  | some f =>
    simp only [hf, bind_eq_ret] at h
    obtain ⟨r, _, hrep, hnew⟩ := h
    obtain ⟨rfl, tks, ign, rps, rfl, hcons⟩ := SlotRep.construct_effect hrep
    obtain ⟨rfl, rfl⟩ := SlotBase.new_effect hnew
    exact .inr ⟨f, tks, ign, rps, rfl, hcons, rfl, rfl⟩

theorem SlotBase.takeRep_effect {owner : Owner} {src s : SlotAddr} {blocked : Bool}
    (h : SlotBase.takeRep owner src blocked w = (.ret s, w')) :
    ∃ sl, (w.slots src = some sl ∧ sl.dying = false) ∧ s = .object w.next ∧
      w' = (World.setSlot { w with next := w.next + 1 } src
        (some { sl with rep := none, blocked := false })).setSlot s
          (some { rep := sl.rep, blocked, owner }) := by
  unfold SlotBase.takeRep at h
  simp only [bind_eq_ret, loadIntact_eq_ret, modify_eq_ret] at h
  obtain ⟨sl, _, ⟨hsl, rfl⟩, _, _, rfl, hnew⟩ := h
  obtain ⟨rfl, rfl⟩ := SlotBase.new_effect hnew
  exact ⟨sl, hsl, rfl, rfl⟩

/-- `destroy()` up to the destruction of the functor. -/
theorem SlotRep.detachFunctor_effect {r : Addr} {fo : Option Functor}
    (h : SlotRep.detachFunctor r w = (.ret fo, w')) :
    ∃ rep tks rps, w.reps r = some rep ∧ rep.functor = fo ∧
      w' = { w with trackables := tks, reps := rps } ∧ Unbound r (fo.getD []) w.trackables tks ∧
      ∃ rps₁ rep', RepsUnbound w.slots r (fo.getD [])
        (Function.update w.reps r (some { rep with call := false })) rps₁ ∧
        rps₁ r = some rep' ∧ rps = Function.update rps₁ r (some { rep' with functor := none }) := by
  unfold SlotRep.detachFunctor loadRep at h
  simp only [bind_eq_ret, deref_eq_ret] at h
  obtain ⟨rep, _, ⟨hrep, rfl⟩, h⟩ := h
  cases hf : rep.functor with
  -- Nothing to unbind: call_ is cleared.
  | none =>
    simp only [hf, bind_eq_ret, modify_eq_ret, pure_eq_ret] at h
    obtain ⟨_, _, rfl, rfl, rfl⟩ := h
    refine ⟨rep, _, _, hrep, hf, rfl, .refl _ _, _, { rep with call := false }, fun q => .inl rfl,
      by simp, ?_⟩
    simp [← hf]
  | some f =>
    simp only [hf, bind_eq_ret, modify_eq_ret, pure_eq_ret, deref_eq_ret] at h
    obtain ⟨_, _, rfl, _, _, hun, rep', _, ⟨hrep', rfl⟩, _, _, rfl, rfl, rfl⟩ := h
    -- The visitors run while the functor is still there, and it is taken away afterwards.
    obtain ⟨tks, rps, rfl, hsame, hunbound⟩ := visitEach_unbind_effect hun
    refine ⟨rep, _, _, hrep, hf, rfl, hsame, rps, rep', ?_, hrep', rfl⟩
    rw [hf]
    exact hunbound

theorem SlotBase.passParent_effect {new : Addr} {old : Option Addr}
    (h : SlotBase.passParent new old w = (.ret (), w')) :
    (old = none ∧ w' = w) ∨ ∃ r oldRep newRep, old = some r ∧ w.reps r = some oldRep ∧
      w.reps new = some newRep ∧
      w' = w.setRep new (some { newRep with
        parent := oldRep.parent, cleanup := oldRep.cleanup }) := by
  cases old with
  | none =>
    simp only [SlotBase.passParent, pure_eq_ret, true_and] at h
    exact .inl ⟨rfl, h.symm⟩
  | some r =>
    simp only [SlotBase.passParent, loadRep, bind_eq_ret, deref_eq_ret, modify_eq_ret] at h
    obtain ⟨oldRep, _, ⟨hold, rfl⟩, newRep, _, ⟨hnew, rfl⟩, rfl⟩ := h
    exact .inr ⟨r, oldRep, newRep, rfl, hold, hnew, rfl⟩

theorem SlotBase.cloneFor_effect {dst : SlotAddr} {f : Functor} {new : Addr}
    (h : SlotBase.cloneFor dst f w = (.ret new, w')) :
    new = w.next ∧ ∃ tks ign rps sl w₁, RepConstructed w f tks ign rps ∧ w.slots dst = some sl ∧
      SlotBase.passParent new sl.rep (w.afterRep tks ign rps) = (.ret (), w₁) ∧
      w' = w₁.push (.assigning dst new) := by
  unfold SlotBase.cloneFor loadSlot at h
  simp only [bind_eq_ret, deref_eq_ret, modify_eq_ret, pure_eq_ret] at h
  obtain ⟨_, _, hrep, sl, _, ⟨hsl, rfl⟩, _, _, hpass, _, _, rfl, rfl, rfl⟩ := h
  obtain ⟨rfl, tks, ign, rps, rfl, hcons⟩ := SlotRep.construct_effect hrep
  exact ⟨rfl, tks, ign, rps, sl, _, hcons, hsl, hpass, rfl⟩

theorem SlotBase.moveFor_effect {dst src : SlotAddr} {new : Addr}
    (h : SlotBase.moveFor dst src w = (.ret new, w')) :
    ∃ from_ sl w₁, (w.slots src = some from_ ∧ from_.dying = false) ∧ from_.rep = some new ∧
      Function.update w.slots src (some { from_ with rep := none, blocked := false }) dst =
        some sl ∧
      SlotBase.passParent new sl.rep (w.setSlot src
        (some { from_ with rep := none, blocked := false })) = (.ret (), w₁) ∧
      w' = w₁.push (.assigning dst new) := by
  unfold SlotBase.moveFor loadSlot at h
  simp only [bind_eq_ret, loadIntact_eq_ret, deref_eq_ret, modify_eq_ret, pure_eq_ret] at h
  obtain ⟨from_, _, ⟨hfrom, rfl⟩, new, _, ⟨hnew, rfl⟩, _, _, rfl, sl, _, ⟨hsl, rfl⟩, _, _, hpass,
    _, _, rfl, rfl, rfl⟩ := h
  exact ⟨from_, sl, _, hfrom, hnew, hsl, hpass, rfl⟩

/-! ## Signals -/

/-- The rep that an element gets its parent set in, and what is allocated for it: the rep that it
has, or a `dummy_slot_rep`. -/
def PlacedRep (w : World V) (rep? : Option Addr) (r : Addr) (rep : SlotRep) (nx : Addr)
    (tks : Addr → Option Trackable) : Prop :=
  (rep? = some r ∧ w.reps r = some rep ∧ nx = w.next + 1 ∧ tks = w.trackables) ∨
    (rep? = none ∧ r = w.next + 1 ∧ rep = { call := false } ∧ nx = w.next + 1 + 1 ∧
      tks = Function.update w.trackables r (some {}))

/-- The world after the element `n`, which is `sl`, has been placed in the list `self` of `i`. -/
def World.placed (w : World V) (i : Addr) (self : SignalImpl) (first : Bool) (n : SlotAddr)
    (sl : SlotBase) (r : Addr) (rep : SlotRep) (nx : Addr) (tks : Addr → Option Trackable) :
    World V :=
  { w with
    next := nx
    trackables := tks
    impls := Function.update w.impls i
      (some { self with slots := if first then n :: self.slots else self.slots ++ [n] })
    slots := Function.update w.slots n (some { sl with rep := some r })
    reps := Function.update w.reps r (some { rep with
      parent := some w.next, cleanup := some .notifySelfAndIterOfInvalidatedSlot })
    records := Function.update w.records w.next (some { self := i, iter := n })
    log := .connected i (some r) first rep.call :: w.log }

namespace SignalImpl

theorem loadSlots_eq_ret {i : Addr} {l : List SlotAddr} :
    loadSlots i w = (.ret l, w') ↔ ∃ self, w.impls i = some self ∧ self.slots = l ∧
      w.frames.any (Frame.destroys i) = false ∧ w' = w := by
  unfold loadSlots loadImpl
  simp only [bind_eq_ret, deref_eq_ret, read_eq_ret]
  constructor
  · rintro ⟨self, _, ⟨hself, rfl⟩, b, _, ⟨rfl, rfl⟩, h⟩
    split at h
    · cases h
    · rename_i hd
      simp only [pure_eq_ret] at h
      exact ⟨self, hself, h.1, by simpa using hd, h.2.symm⟩
  · rintro ⟨self, hself, rfl, hd, rfl⟩
    exact ⟨self, _, ⟨hself, rfl⟩, _, _, ⟨rfl, rfl⟩, by simp [hd]⟩

theorem setSlots_eq_ret {i : Addr} {l : List SlotAddr} {a : Unit} :
    setSlots i l w = (.ret a, w') ↔ ∃ self, w.impls i = some self ∧
      w' = w.setImpl i (some { self with slots := l }) := by
  unfold setSlots loadImpl
  simp only [bind_eq_ret, deref_eq_ret, modify_eq_ret]
  constructor
  · rintro ⟨self, _, ⟨hself, rfl⟩, rfl⟩
    exact ⟨self, hself, rfl⟩
  · rintro ⟨self, hself, rfl⟩
    exact ⟨self, _, ⟨hself, rfl⟩, rfl⟩

theorem setDeferred_eq_ret {i : Addr} {b : Bool} {a : Unit} :
    setDeferred i b w = (.ret a, w') ↔ ∃ self, w.impls i = some self ∧
      w' = w.setImpl i (some { self with deferred := b }) := by
  unfold setDeferred loadImpl
  simp only [bind_eq_ret, deref_eq_ret, modify_eq_ret]
  constructor
  · rintro ⟨self, _, ⟨hself, rfl⟩, rfl⟩
    exact ⟨self, hself, rfl⟩
  · rintro ⟨self, hself, rfl⟩
    exact ⟨self, _, ⟨hself, rfl⟩, rfl⟩

theorem referenceExec_eq_ret {i : Addr} {a : Unit} :
    referenceExec i w = (.ret a, w') ↔ ∃ self, w.impls i = some self ∧
      w' = w.setImpl i (some { self with execCount := self.execCount + 1 }) := by
  unfold referenceExec loadImpl
  simp only [bind_eq_ret, deref_eq_ret, modify_eq_ret]
  constructor
  · rintro ⟨self, _, ⟨hself, rfl⟩, rfl⟩
    exact ⟨self, hself, rfl⟩
  · rintro ⟨self, hself, rfl⟩
    exact ⟨self, _, ⟨hself, rfl⟩, rfl⟩

theorem decrementExec_eq_ret {i : Addr} {a : Unit} :
    decrementExec i w = (.ret a, w') ↔ ∃ self, w.impls i = some self ∧
      w' = w.decrement i self := by
  unfold decrementExec loadImpl
  simp only [bind_eq_ret, deref_eq_ret, modify_eq_ret]
  constructor
  · rintro ⟨self, _, ⟨hself, rfl⟩, rfl⟩
    exact ⟨self, hself, rfl⟩
  · rintro ⟨self, hself, rfl⟩
    exact ⟨self, _, ⟨hself, rfl⟩, rfl⟩

theorem enterSweep_effect {i : Addr} {it : Option SlotAddr}
    (h : enterSweep i w = (.ret it, w')) :
    ∃ self, w.impls i = some self ∧ it = self.slots.head? ∧
      w' = (w.setImpl i (some { self with
        execCount := self.execCount + 1, deferred := false })).push
          (.sweep i self.slots.head? none) := by
  unfold enterSweep at h
  simp only [bind_eq_ret, referenceExec_eq_ret, setDeferred_eq_ret, loadSlots_eq_ret, modify_eq_ret,
    pure_eq_ret] at h
  obtain ⟨_, _, ⟨self, hself, rfl⟩, _, _, ⟨_, h₁, rfl⟩, _, _, ⟨_, h₂, rfl, -, rfl⟩, _, _, rfl, rfl,
    rfl⟩ := h
  simp only [World.setImpl, Function.update_self, Option.some.injEq] at h₁ h₂
  subst h₁ h₂
  exact ⟨self, hself, rfl, by simp [World.setImpl, World.push]⟩

theorem enterClear_effect {i : Addr} {during saved : Bool} {it : Option SlotAddr}
    (h : enterClear i w = (.ret (during, saved, it), w')) :
    ∃ self, w.impls i = some self ∧ during = decide (0 < self.execCount.toInt) ∧
      saved = self.deferred ∧ it = self.slots.head? ∧ w.frames.any (Frame.destroys i) = false ∧
      w' = (w.setImpl i (some { self with execCount := self.execCount + 1 })).push
        (.clear i it none during saved) := by
  unfold enterClear loadImpl at h
  simp only [bind_eq_ret, deref_eq_ret, referenceExec_eq_ret, loadSlots_eq_ret, modify_eq_ret,
    pure_eq_ret, Prod.mk.injEq] at h
  obtain ⟨self, _, ⟨hself, rfl⟩, _, _, ⟨_, hself', rfl⟩, _, _, ⟨_, hself'', rfl, hd, rfl⟩, _, _, rfl,
    ⟨rfl, rfl, rfl⟩, rfl⟩ := h
  obtain rfl := Option.some.inj (hself.symm.trans hself')
  simp only [World.setImpl, Function.update_self, Option.some.injEq] at hself''
  subst hself''
  exact ⟨self, hself, rfl, rfl, rfl, hd, rfl⟩

theorem place_effect {i : Addr} {first : Bool} {n : SlotAddr} {sl : SlotBase} {a : Unit}
    (hsl : w.slots n = some sl) (h : place i first n w = (.ret a, w')) :
    ∃ self r rep nx tks, w.impls i = some self ∧ w.frames.any (Frame.destroys i) = false ∧
      PlacedRep w sl.rep r rep nx tks ∧ w' = w.placed i self first n sl r rep nx tks := by
  have hslots : ∀ q, sl.rep = some q →
      Function.update w.slots n (some { sl with rep := some q }) = w.slots := by
    intro q hq
    rw [← hq, Function.update_eq_self_iff, hsl]
  unfold place link addNotificationToIter SlotBase.setParent SlotBase.repOrDummy loadRep at h
  simp only [bind_eq_ret, loadSlots_eq_ret, setSlots_eq_ret, alloc_eq_ret, modify_eq_ret,
    loadIntact_eq_ret, deref_eq_ret] at h
  obtain ⟨_, _, ⟨_, _, ⟨self, hself, rfl, hd, rfl⟩, self', hself', rfl⟩, _, _, ⟨_, _, ⟨rfl, rfl⟩, _, _,
    rfl, r, w₁, ⟨_, _, ⟨⟨hsl', -⟩, rfl⟩, hrep⟩, rep, _, ⟨hr, rfl⟩, rfl⟩, rfl⟩ := h
  obtain rfl := Option.some.inj (hself.symm.trans hself')
  obtain rfl := Option.some.inj (hsl.symm.trans hsl')
  cases ho : sl.rep with
  | some q =>
    simp only [ho, pure_eq_ret] at hrep
    obtain ⟨rfl, rfl⟩ := hrep
    refine ⟨self, q, rep, _, _, hself, hd, .inl ⟨rfl, hr, rfl, rfl⟩, ?_⟩
    simp [recordConnected, World.placed, World.record, World.setRep, World.setRecord, World.setImpl,
      hsl, ho, hslots q ho]
  | none =>
    simp only [ho, SlotRep.constructDummy, bind_eq_ret, alloc_eq_ret, modify_eq_ret,
      pure_eq_ret] at hrep
    obtain ⟨_, _, ⟨_, _, ⟨rfl, rfl⟩, _, _, rfl, rfl, rfl⟩, _, _, rfl, rfl, rfl⟩ := hrep
    simp only [World.setRep, World.setSlot, World.setTrackable, World.setRecord, World.setImpl,
      Function.update_self, Option.some.injEq] at hr
    subst hr
    refine ⟨self, _, _, _, _, hself, hd, .inr ⟨rfl, rfl, rfl, rfl, rfl⟩, ?_⟩
    simp [recordConnected, World.placed, World.record, World.setRep, World.setSlot,
      World.setTrackable, World.setRecord, World.setImpl]

/-- The element `n`, which is `sl`, has taken its place in the list `i` between `w` and `w'`. -/
def Placed (w : World V) (i : Addr) (first : Bool) (n : SlotAddr) (sl : SlotBase) (w' : World V) :
    Prop :=
  w.slots n = some sl ∧ ∃ self r rep nx tks, w.impls i = some self ∧
    w.frames.any (Frame.destroys i) = false ∧ PlacedRep w sl.rep r rep nx tks ∧
      w' = w.placed i self first n sl r rep nx tks

theorem insertBuilt_effect {i : Addr} {first : Bool} {init : SlotInit} {n : SlotAddr}
    (h : insertBuilt i first init w = (.ret n, w')) :
    ∃ w₁ rep?, SlotBase.construct (.list i) init w = (.ret n, w₁) ∧ w₁.frames = w.frames ∧
      Placed w₁ i first n { rep := rep?, blocked := init.blocked, owner := .list i } w' := by
  unfold insertBuilt at h
  simp only [bind_eq_ret, pure_eq_ret] at h
  obtain ⟨n, w₁, hcons, _, _, hplace, rfl, rfl⟩ := h
  obtain ⟨-, hn, hw₁⟩ | ⟨f, tks, ign, rps, -, -, hn, hw₁⟩ := SlotBase.construct_effect hcons
  · have hsl : w₁.slots n = some { blocked := init.blocked, owner := .list i } := by
      rw [hw₁]
      exact Function.update_self _ _ _
    exact ⟨w₁, _, hcons, by rw [hw₁]; rfl, hsl, place_effect hsl hplace⟩
  · have hsl : w₁.slots n =
        some { rep := some w.next, blocked := init.blocked, owner := .list i } := by
      rw [hw₁]
      exact Function.update_self _ _ _
    exact ⟨w₁, _, hcons, by rw [hw₁]; rfl, hsl, place_effect hsl hplace⟩

theorem insertTaken_effect {i : Addr} {first : Bool} {src n : SlotAddr} {blocked : Bool}
    (h : insertTaken i first src blocked w = (.ret n, w')) :
    ∃ w₁ sl, SlotBase.takeRep (.list i) src blocked w = (.ret n, w₁) ∧ w₁.frames = w.frames ∧
      w.slots src = some sl ∧
      Placed w₁ i first n { rep := sl.rep, blocked, owner := .list i } w' := by
  unfold insertTaken at h
  simp only [bind_eq_ret, pure_eq_ret] at h
  obtain ⟨n, w₁, htake, _, _, hplace, rfl, rfl⟩ := h
  obtain ⟨sl, ⟨hsrc, -⟩, hn, hw₁⟩ := SlotBase.takeRep_effect htake
  have hsl : w₁.slots n = some { rep := sl.rep, blocked, owner := .list i } := by
    rw [hw₁]
    exact Function.update_self _ _ _
  exact ⟨w₁, sl, htake, by rw [hw₁]; rfl, hsrc, hsl, place_effect hsl hplace⟩

end SignalImpl

/-- A handle lets go of `i`: the event is recorded if it was the last one. -/
def World.letGo (w : World V) (i : Addr) : World V :=
  (if w.owned i then w else w.record (.expired i (w.frames.any (Frame.execOn i)))).push
    (.releasing i)

namespace SignalBase

theorem impl_effect {h i : Addr} (hrun : impl h w = (.ret i, w')) :
    (w.implOf h = some i ∧ w' = w) ∨ (w.implOf h = none ∧ i = w.next ∧
      w' = (World.setImpl { w with next := w.next + 1 } i (some {})).setHandle h (some i)) := by
  unfold impl at hrun
  simp only [bind_eq_ret, read_eq_ret] at hrun
  obtain ⟨o, _, ⟨rfl, rfl⟩, hrun⟩ := hrun
  cases ho : w.implOf h with
  | some j =>
    simp only [ho, pure_eq_ret] at hrun
    obtain ⟨rfl, rfl⟩ := hrun
    exact .inl ⟨rfl, rfl⟩
  | none =>
    simp only [ho, bind_eq_ret, alloc_eq_ret, modify_eq_ret, pure_eq_ret] at hrun
    obtain ⟨_, _, ⟨rfl, rfl⟩, _, _, rfl, rfl, rfl⟩ := hrun
    exact .inr ⟨rfl, rfl, rfl⟩

theorem new_effect {i : Option Addr} {h : Addr} (hrun : new i w = (.ret h, w')) :
    h = w.next ∧ w' = { w with next := w.next + 1, handles := (h, i) :: w.handles } := by
  unfold new at hrun
  simp only [bind_eq_ret, alloc_eq_ret, modify_eq_ret, pure_eq_ret] at hrun
  obtain ⟨_, _, ⟨rfl, rfl⟩, _, _, rfl, rfl, rfl⟩ := hrun
  exact ⟨rfl, rfl⟩

theorem copyConstruct_effect {src h : Addr} (hrun : copyConstruct src w = (.ret h, w')) :
    ∃ i w₁, impl src w = (.ret i, w₁) ∧ h = w₁.next ∧
      w' = { w₁ with next := w₁.next + 1, handles := (h, some i) :: w₁.handles } := by
  unfold copyConstruct at hrun
  simp only [bind_eq_ret] at hrun
  obtain ⟨i, w₁, himpl, hnew⟩ := hrun
  exact ⟨i, w₁, himpl, new_effect hnew⟩

theorem moveConstruct_effect {src h : Addr} (hrun : moveConstruct src w = (.ret h, w')) :
    h = w.next ∧ w' = { w with
      next := w.next + 1
      handles := (h, w.implOf src) :: (w.setHandle src none).handles } := by
  unfold moveConstruct at hrun
  simp only [bind_eq_ret, read_eq_ret, modify_eq_ret] at hrun
  obtain ⟨_, _, ⟨rfl, rfl⟩, _, _, rfl, hnew⟩ := hrun
  exact new_effect hnew

theorem letGo_effect {i old : Option Addr} (hrun : letGo i w = (.ret old, w')) :
    old = i ∧ w' = i.elim w w.letGo := by
  cases i with
  | none =>
    simp only [letGo, pure_eq_ret] at hrun
    exact ⟨hrun.1.symm, hrun.2.symm⟩
  | some i =>
    simp only [letGo, bind_eq_ret, modify_eq_ret, pure_eq_ret] at hrun
    obtain ⟨_, _, rfl, rfl, rfl⟩ := hrun
    exact ⟨rfl, rfl⟩

theorem replaceImpl_effect {h : Addr} {i old : Option Addr}
    (hrun : replaceImpl h i w = (.ret old, w')) :
    old = w.implOf h ∧ letGo old (w.setHandle h i) = (.ret old, w') := by
  unfold replaceImpl at hrun
  simp only [bind_eq_ret, read_eq_ret, modify_eq_ret] at hrun
  obtain ⟨_, _, ⟨rfl, rfl⟩, _, _, rfl, hgo⟩ := hrun
  obtain ⟨rfl, -⟩ := letGo_effect hgo
  exact ⟨rfl, hgo⟩

theorem dropHandle_effect {h : Addr} {old : Option Addr}
    (hrun : dropHandle h w = (.ret old, w')) :
    old = w.implOf h ∧
      letGo old { w with handles := w.handles.filter (·.1 ≠ h) } = (.ret old, w') := by
  unfold dropHandle at hrun
  simp only [bind_eq_ret, read_eq_ret, modify_eq_ret] at hrun
  obtain ⟨_, _, ⟨rfl, rfl⟩, _, _, rfl, hgo⟩ := hrun
  obtain ⟨rfl, -⟩ := letGo_effect hgo
  exact ⟨rfl, hgo⟩

end SignalBase

theorem Emission.start_effect {i : Addr} {e : Emission V}
    (h : Emission.start i w = (.ret e, w')) :
    ∃ self, w.impls i = some self ∧ w.frames.any (Frame.destroys i) = false ∧
      e = { impl := i
            placeholder := .placeholder w.frames.length
            it := self.slots.headD (.placeholder w.frames.length)
            snapshot := self.slots } ∧
      w' = ((((w.setImpl i (some { self with
          slots := self.slots ++ [.placeholder w.frames.length]
          execCount := self.execCount + 1 })).setSlot (.placeholder w.frames.length)
            (some { owner := .list i })).push (.emission e)).record
        (.started i (w.frames.countP (Frame.emissionOf i) + 1) (w.execs i + 1))) := by
  unfold Emission.start at h
  simp only [bind_eq_ret, SignalImpl.referenceExec_eq_ret, SignalImpl.loadSlots_eq_ret,
    read_eq_ret, modify_eq_ret, SignalImpl.setSlots_eq_ret, pure_eq_ret] at h
  obtain ⟨_, _, ⟨self, hself, rfl⟩, _, _, ⟨_, h₁, rfl, hd, rfl⟩, _, _, ⟨rfl, rfl⟩, _, _, rfl, _, _,
    ⟨_, h₂, rfl⟩, _, _, rfl, _, _, rfl, rfl, rfl⟩ := h
  simp only [World.setImpl, World.setSlot, Function.update_self, Option.some.injEq] at h₁ h₂
  subst h₁ h₂
  refine ⟨self, hself, hd, rfl, ?_⟩
  simp [World.setImpl, World.setSlot, World.push, World.record, World.execs, Frame.emissionOf,
    Frame.execOn]

end Sigc
