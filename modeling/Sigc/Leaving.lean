import Sigc.SlotRuns
import Sigc.Sparing

/-!
# Objects that other code leaves alone

What is said here of a rep is said of all of it, its parent included, and of its base.  The
destructor of a functor is the only other code that deleting a rep runs: whoever is registered with
the base of a rep is a weak pointer.
-/

namespace Sigc

open Reasoning Prog

variable {V : Type} {C P : Addr → Prop} {S : SlotAddr → Prop} {w w' : World V}

/-- The slots in `S` are as they were, and so are the reps in `P` and their bases.  The weak
pointers in `C` point to what they did, or are null. -/
structure World.Leaves (C P : Addr → Prop) (S : SlotAddr → Prop) (w w' : World V) : Prop where
  next : w.next ≤ w'.next
  slots : ∀ s, S s → s.Below w.next → w'.slots s = w.slots s
  reps : ∀ q, P q → q < w.next → w'.reps q = w.reps q
  bases : ∀ q, P q → q < w.next → w'.trackables q = w.trackables q
  weaks : ∀ c x', C c → c < w.next → w'.weaks c = some x' →
    ∃ x, w.weaks c = some x ∧ (x'.ptr = x.ptr ∨ x'.ptr = none)

namespace World.Leaves

variable {C' P' : Addr → Prop} {S' : SlotAddr → Prop} {v : World V}

/-- Slots, reps and weak pointers have not changed, and none of the bases. -/
theorem of_heap (next : w.next ≤ w'.next) (slots : w'.slots = w.slots) (reps : w'.reps = w.reps)
    (bases : ∀ q, P q → q < w.next → w'.trackables q = w.trackables q)
    (weaks : w'.weaks = w.weaks) : w.Leaves C P S w' where
  next := next
  slots s _ _ := by rw [slots]
  reps q _ _ := by rw [reps]
  bases := bases
  weaks c x' _ _ hx := ⟨x', by rwa [← weaks], .inl rfl⟩

theorem refl (w : World V) : w.Leaves C P S w :=
  .of_heap (Nat.le_refl _) rfl rfl (fun _ _ _ => rfl) rfl

theorem trans (h : w.Leaves C P S v) (h' : v.Leaves C P S w') : w.Leaves C P S w' where
  next := Nat.le_trans h.next h'.next
  slots s hs hb := by
    have hbelow : s.Below v.next := fun a ha => Nat.lt_of_lt_of_le (hb a ha) h.next
    rw [h'.slots s hs hbelow, h.slots s hs hb]
  reps q hq hlt := by
    rw [h'.reps q hq (Nat.lt_of_lt_of_le hlt h.next), h.reps q hq hlt]
  bases q hq hlt := by
    rw [h'.bases q hq (Nat.lt_of_lt_of_le hlt h.next), h.bases q hq hlt]
  weaks c x' hc hlt hx := by
    obtain ⟨y, hy, hptr'⟩ := h'.weaks c x' hc (Nat.lt_of_lt_of_le hlt h.next) hx
    obtain ⟨x, hx, hptr⟩ := h.weaks c y hc hlt hy
    refine ⟨x, hx, ?_⟩
    cases hptr' with
    | inl heq => rwa [heq]
    | inr hnull => exact .inr hnull

theorem mono (h : w.Leaves C P S w') (hC : ∀ c, C' c → C c) (hP : ∀ q, P' q → P q)
    (hS : ∀ s, S' s → S s) : w.Leaves C' P' S' w' where
  next := h.next
  slots s hs hb := h.slots s (hS s hs) hb
  reps q hq hlt := h.reps q (hP q hq) hlt
  bases q hq hlt := h.bases q (hP q hq) hlt
  weaks c x' hc hlt hx := h.weaks c x' (hC c hc) hlt hx

theorem setTrackable {t : Addr} (ht : ¬P t) (x : Option Trackable) :
    w.Leaves C P S (w.setTrackable t x) := by
  refine .of_heap (Nat.le_refl _) rfl rfl (fun q hq _ => ?_) rfl
  apply Function.update_of_ne
  intro heq
  exact ht (heq ▸ hq)

theorem setSlot {s : SlotAddr} (hs : ¬S s) (x : Option SlotBase) :
    w.Leaves C P S (w.setSlot s x) where
  next := Nat.le_refl _
  slots t ht _ := by
    apply Function.update_of_ne
    intro heq
    exact hs (heq ▸ ht)
  reps _ _ _ := rfl
  bases _ _ _ := rfl
  weaks _ x' _ _ hx := ⟨x', hx, .inl rfl⟩

theorem setRep {q : Addr} (hq : ¬P q) (x : Option SlotRep) : w.Leaves C P S (w.setRep q x) where
  next := Nat.le_refl _
  slots _ _ _ := rfl
  reps y hy _ := by
    apply Function.update_of_ne
    intro heq
    exact hq (heq ▸ hy)
  bases _ _ _ := rfl
  weaks _ x' _ _ hx := ⟨x', hx, .inl rfl⟩

/-- A weak pointer is reset. -/
theorem resetWeak {c : Addr} {x : WeakRawPtr} (hx : w.weaks c = some x) :
    w.Leaves C P S (w.setWeak c (some { x with ptr := none })) where
  next := Nat.le_refl _
  slots _ _ _ := rfl
  reps _ _ _ := rfl
  bases _ _ _ := rfl
  weaks d y' _ _ hy := by
    change Function.update w.weaks c _ d = some y' at hy
    by_cases heq : d = c
    · subst heq
      rw [Function.update_self] at hy
      obtain rfl := Option.some.inj hy
      exact ⟨x, hx, .inr rfl⟩
    · rw [Function.update_of_ne heq] at hy
      exact ⟨y', hy, .inl rfl⟩

end World.Leaves

instance : Std.Refl (World.Leaves (V := V) C P S) := ⟨World.Leaves.refl⟩

instance : IsTrans (World V) (World.Leaves C P S) := ⟨fun _ _ _ h h' => h.trans h'⟩

theorem modify_leaves {f : World V → World V} (hf : ∀ w, (f w).next = w.next ∧
    (f w).slots = w.slots ∧ (f w).reps = w.reps ∧ (f w).trackables = w.trackables ∧
      (f w).weaks = w.weaks) : Within (World.Leaves C P S) (modify f : M V Unit) := by
  apply within_modify
  intro w
  obtain ⟨hnext, hslots, hreps, htrackables, hweaks⟩ := hf w
  exact .of_heap (Nat.le_of_eq hnext.symm) hslots hreps (fun q _ _ => by rw [htrackables]) hweaks

/-! ## Callbacks -/

/-- The destructors of functors are the only other code. -/
def Env.destructors (u : Env V) : Env V where
  call
    | .functorDtor r f => u.call (.functorDtor r f)
    | _ => halt .fuel
  fuel := u.fuel

namespace Trackable

variable {u : Env V}

theorem runCallback_leaves (hu : ∀ d, Within (World.Leaves C P S) (u.call (.notify d)))
    (cb : TrackableCallback) : Within (World.Leaves C P S) (runCallback u cb) := by
  unfold runCallback
  cases cb.func with
  | none => exact within_pure _
  | some func =>
    cases func with
    | notifySlotRepInvalidated => exact within_bind (hu _) fun _ => within_pure _
    | notifySelfAndIterOfInvalidatedSlot => exact within_halt _
    | notifyObjectInvalidated =>
      apply within_load
      intro w x hx
      exact World.Leaves.resetWeak hx

theorem notifyCallbacks_leaves (hu : ∀ d, Within (World.Leaves C P S) (u.call (.notify d)))
    {t : Addr} (ht : ¬P t) : Within (World.Leaves C P S) (notifyCallbacks u t) :=
  notifyCallbacks_within (fun w _ cb _ _ => runCallback_leaves hu cb w)
    (fun _ _ => .of_heap (Nat.le_refl _) rfl rfl (fun _ _ _ => rfl) rfl)
    (fun _ _ => .of_heap (Nat.le_refl _) rfl rfl (fun _ _ _ => rfl) rfl)
    (fun _ _ _ _ _ _ => (World.Leaves.setTrackable ht _).trans
      (.of_heap (Nat.le_refl _) rfl rfl (fun _ _ _ => rfl) rfl))
    fun _ _ _ _ => (World.Leaves.setTrackable ht _).trans
      (.of_heap (Nat.le_refl _) rfl rfl (fun _ _ _ => rfl) rfl)

/-- A callback of a weak pointer runs no other code. -/
theorem runCallback_destructors {cb : TrackableCallback}
    (hcb : cb.func = none ∨ cb.func = some .notifyObjectInvalidated) :
    runCallback u cb = runCallback u.destructors cb := by
  unfold runCallback
  cases hcb with
  | inl hnone => rw [hnone]
  | inr hweak => rw [hweak]

/-- The loop over such callbacks runs none: each leaves the base as it is. -/
theorem callbackLoop_destructors {t : Addr} {deps : List Dependent} (n : Nat) :
    ∀ (pos : Nat) (w : World V), (∀ tr, w.trackables t = some tr → tr.WeakOnly) →
      callbackLoop u t deps n pos w = callbackLoop u.destructors t deps n pos w := by
  -- on the rounds left, all callbacks being those of weak pointers at the head of each
  induction n with
  | zero => exact fun _ _ _ => rfl
  | succ n ih =>
    intro pos w hweak
    unfold callbackLoop
    apply bind_congr_right
    intro l w₁ hload
    obtain ⟨hl, rfl⟩ := deref_eq_ret.mp hload
    obtain ⟨tr, htr, hlist⟩ := Option.bind_eq_some_iff.mp hl
    cases hcb : l.callbacks[pos]? with
    | none => rfl
    | some cb =>
      have hfunc : cb.func = none ∨ cb.func = some .notifyObjectInvalidated := by
        apply hweak tr htr cb
        rw [callbacks, hlist]
        exact List.mem_of_getElem? hcb
      dsimp only
      rw [← runCallback_destructors (u := u) hfunc]
      apply bind_congr_right
      intro _ w₁ hrun
      have hsame : w₁.trackables = w.trackables := by
        unfold runCallback at hrun
        cases hfunc with
        | inl hnone =>
          rw [hnone] at hrun
          rw [← (pure_eq_ret.mp hrun).2]
        | inr hnull =>
          rw [hnull] at hrun
          obtain ⟨x, _, hx, hset⟩ := bind_eq_ret.mp hrun
          obtain ⟨_, rfl⟩ := deref_eq_ret.mp hx
          rw [← modify_eq_ret.mp hset]
          rfl
      apply bind_congr_right
      intro l' w₂ hload'
      obtain ⟨_, rfl⟩ := deref_eq_ret.mp hload'
      split
      · apply ih
        intro tr' htr'
        exact hweak tr' (hsame ▸ htr')
      · rfl

theorem notifyCallbacks_destructors {t : Addr}
    (hweak : ∀ tr, w.trackables t = some tr → tr.WeakOnly) :
    notifyCallbacks u t w = notifyCallbacks u.destructors t w := by
  unfold notifyCallbacks
  apply bind_congr_right
  intro tr w₁ hload
  obtain ⟨htr, rfl⟩ := deref_eq_ret.mp hload
  apply bind_congr_right
  intro deps w₁ hdeps
  obtain ⟨_, rfl⟩ := read_eq_ret.mp hdeps
  cases hl : tr.callbackList with
  | none => rfl
  | some l =>
    dsimp only
    split
    · rfl
    · simp only [modify_bind_run]
      apply bind_congr_run
      apply callbackLoop_destructors
      intro tr' htr'
      change Function.update w.trackables t _ t = some tr' at htr'
      rw [Function.update_self] at htr'
      obtain rfl := Option.some.inj htr'
      exact (hweak tr htr).of_callbackList (by simp [callbacks, hl])

end Trackable

/-! ## Reps -/

/-- Functors are destroyed by code that behaves as other code does.  In whatever comes after `w`, it
leaves these slots, reps and weak pointers alone. -/
structure Env.DestroysBeside (C P : Addr → Prop) (S : SlotAddr → Prop) (w : World V) (u : Env V) :
    Prop where
  goes : ∀ v r f, Sound v → v.Calm → r < v.next → v.Gutted r → v.FunctorOk f →
    Ends (fun _ => True) v (u.call (.functorDtor r f)) v fun _ => Goes v
  leaves : ∀ v r f a v', Steps w v → u.call (.functorDtor r f) v = (.ret a, v') → v.Leaves C P S v'

namespace Env.DestroysBeside

variable {u : Env V} {C' P' : Addr → Prop} {S' : SlotAddr → Prop}

theorem spec (hu : u.DestroysBeside C P S w) : u.destructors.Spec fun _ => True where
  client _ _ _ _ := trivial
  handler _ _ _ _ _ _ _ := trivial
  notify _ _ _ _ := trivial
  functorDtor := hu.goes
  dispose _ _ _ _ _ _ := trivial

/-- The calls that leave all of this alone, of destructors that behave as other code does. -/
theorem within (hu : u.destructors.Spec fun _ => True) :
    (u.within (World.Leaves C P S)).DestroysBeside C P S w where
  goes v r f hv calm hr hgutted hf :=
    wp_guarded (hu.functorDtor v r f hv calm hr hgutted hf) trivial
  leaves _ r f _ _ _ hrun :=
    Within.of_ret (guarded_within (u.call (.functorDtor r f))) hrun

theorem mono (hu : u.DestroysBeside C P S w) (hs : Steps w w') (hP : ∀ q, P' q → P q) :
    u.DestroysBeside C P' S w' where
  goes := hu.goes
  leaves v r f a v' hs' hrun := (hu.leaves v r f a v' (hs.trans hs') hrun).mono (fun _ => id) hP
    fun _ => id

end Env.DestroysBeside

namespace SlotRep

variable {u : Env V} {r : Addr}

/-- No other code is run in `destroy()`. -/
theorem destroy_destructors : destroy u r = destroy u.destructors r := rfl

/-- Nor is any in the rest of the destructor. -/
theorem delete_destructors (hu : u.destructors.Spec fun _ => True) {s : SlotAddr} {sl : SlotBase}
    (hw : Sound w) (calm : w.Calm) (slot : w.slots s = some sl) (rep : sl.rep = some r)
    (unlisted : ¬w.Listed s) : delete u r w = delete u.destructors r w := by
  unfold delete
  apply bind_congr_right
  intro rp w₁ hload
  obtain ⟨hrp, rfl⟩ := deref_eq_ret.mp hload
  apply bind_congr_right
  intro base w₁ hload'
  obtain ⟨hbase, rfl⟩ := deref_eq_ret.mp hload'
  split
  · rfl
  · rename_i hidle
    rw [modify_bind_run, modify_bind_run, destroy_destructors]
    apply bind_congr_right
    intro _ w₁ hdestroy
    obtain ⟨hs₁, _, _⟩ := (destroyDying_ends hu hw calm hrp hbase (by simpa using hidle) slot rep
      (.inr unlisted)).of_ret hdestroy
    have hadv := hs₁.proceeds hw
    apply bind_congr_run
    apply Trackable.notifyCallbacks_destructors
    intro tr htr
    cases hadv.extension.bases r (hw.reps r rp hrp) rp hrp with
    | inl halive =>
      obtain ⟨rp', hrp'⟩ := halive
      exact hadv.sound.weakOnly r rp' tr hrp' htr
    | inr hnone =>
      rw [hnone] at htr
      cases htr

/-- The functor of a rep lets go of the trackables and the slots in it. -/
theorem detachFunctor_leaves {fo : Option Functor} (hr : ¬P r)
    (htarget : ∀ rep f t, w.reps r = some rep → rep.functor = some f → .trackable t ∈ f → ¬P t)
    (hslot : ∀ rep f s sl q, w.reps r = some rep → rep.functor = some f → .slot s ∈ f →
      w.slots s = some sl → sl.rep = some q → ¬P q)
    (h : detachFunctor r w = (.ret fo, w')) : w.Leaves C P S w' := by
  obtain ⟨rep, tks, rps, hrep, hfunctor, rfl, hun, rps₁, rep', hreps, _, rfl⟩ :=
    detachFunctor_effect h
  have hmem {x : Target} (hx : x ∈ fo.getD []) : ∃ f, rep.functor = some f ∧ x ∈ f := by
    cases fo with
    | none => cases hx
    | some f => exact ⟨f, hfunctor, hx⟩
  refine ⟨Nat.le_refl _, fun _ _ _ => rfl, fun q hq _ => ?_, fun q hq _ => ?_,
    fun c x' _ _ hx => ⟨x', hx, .inl rfl⟩⟩
  · have hne : q ≠ r := fun heq => hr (heq ▸ hq)
    show Function.update rps₁ r _ q = w.reps q
    rw [Function.update_of_ne hne]
    cases hreps q with
    | inl heq => rw [heq, Function.update_of_ne hne]
    | inr hbound =>
      obtain ⟨s, sl, _, hs, hsl, hq', _⟩ := hbound
      obtain ⟨f, hf, hs⟩ := hmem hs
      exact absurd hq (hslot rep f s sl q hrep hf hs hsl hq')
  · have hcount : (fo.getD []).count (.trackable q) = 0 := by
      apply List.count_eq_zero.mpr
      intro hin
      obtain ⟨f, hf, hin⟩ := hmem hin
      exact htarget rep f q hrep hf hin hq
    refine (hun q).trans ?_
    show (w.trackables q).map (Nat.iterate _ ((fo.getD []).count (.trackable q))) = _
    rw [hcount]
    cases w.trackables q <;> rfl

theorem delete_leaves (hu : u.DestroysBeside C P S w) (calm : w.Calm) {s : SlotAddr} {sl : SlotBase}
    (slot : w.slots s = some sl) (rep : sl.rep = some r) (unlisted : ¬w.Listed s) (hr : ¬P r)
    (htarget : ∀ rep f t, w.reps r = some rep → rep.functor = some f → .trackable t ∈ f → ¬P t)
    (hslot : ∀ rep f s sl q, w.reps r = some rep → rep.functor = some f → .slot s ∈ f →
      w.slots s = some sl → sl.rep = some q → ¬P q)
    (h : delete u.destructors r w = (.ret (), w')) : w.Leaves C P S w' := by
  obtain ⟨rp, w₁, hload, h⟩ := bind_eq_ret.mp h
  obtain ⟨_, rfl⟩ := deref_eq_ret.mp hload
  obtain ⟨base, w₁, hload, h⟩ := bind_eq_ret.mp h
  obtain ⟨hbase, rfl⟩ := deref_eq_ret.mp hload
  split at h
  · cases h
  · rename_i hidle
    rw [modify_bind_run] at h
    obtain ⟨_, w₂, hdestroy, h⟩ := bind_eq_ret.mp h
    obtain ⟨_, w₃, hnotify, h⟩ := bind_eq_ret.mp h
    obtain rfl := modify_eq_ret.mp h
    have hbegin : w.Leaves C P S
        ((w.setTrackable r (some { base with dying := true })).push (.deleting r)) :=
      (World.Leaves.setTrackable hr _).trans (.of_heap (Nat.le_refl _) rfl rfl (fun _ _ _ => rfl) rfl)
    have hnone : ∀ d, Within (World.Leaves C P S) (u.destructors.call (.notify d)) :=
      fun _ => within_halt _
    have hend : w₃.Leaves C P S ((w₃.setRep r none).setTrackable r none).pop :=
      ((World.Leaves.setRep hr _).trans (World.Leaves.setTrackable hr _)).trans
        (.of_heap (Nat.le_refl _) rfl rfl (fun _ _ _ => rfl) rfl)
    refine (hbegin.trans ?_).trans
      (((Trackable.notifyCallbacks_leaves hnone hr).of_ret hnotify).trans hend)
    -- the functor is destroyed
    obtain ⟨fo, w₄, hdetach, hdestroy⟩ := bind_eq_ret.mp hdestroy
    have hdetached : World.Leaves C P S _ w₄ := detachFunctor_leaves
      (w := (w.setTrackable r (some { base with dying := true })).push (.deleting r)) hr htarget
      hslot hdetach
    refine hdetached.trans ?_
    cases fo with
    | none =>
      obtain ⟨_, rfl⟩ := pure_eq_ret.mp hdestroy
      exact .refl _
    | some f =>
      have hsteps : Steps w w₄ := .single (.slot (.beginDelete calm hbase (by simpa using hidle) slot
        rep (.inr unlisted) hdetach))
      obtain ⟨a, w₅, hcall, hend⟩ := bind_eq_ret.mp hdestroy
      obtain ⟨_, rfl⟩ := pure_eq_ret.mp hend
      exact hu.leaves w₄ r f a w₅ hsteps hcall

end SlotRep

end Sigc
