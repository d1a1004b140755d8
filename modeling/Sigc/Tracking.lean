import Sigc.RegistrationSteps

/-!
# What a connection is registered with

A connection is registered with the rep of its slot, once, and with nothing else.  Only the rep that
has just reset it may still have its callback, until it has run through them all.  Every step keeps
this that leaves the connection alone, or resets it, as long as its slot keeps its rep.
-/

namespace Sigc

open Reasoning Prog

variable {V : Type} {w w' w₁ : World V} {c t : Addr} {p : Option WeakTarget}

/-- An ordinary connection with this pointer. -/
abbrev pointing (p : Option WeakTarget) : Option WeakRawPtr := some { ptr := p, notifier := false }

/-- The callback that resets the weak pointer `c`. -/
abbrev WeakRawPtr.callback (c : Addr) : TrackableCallback := ⟨c, some .notifyObjectInvalidated⟩

namespace World

/-- How often the weak pointer `c` is registered with `t`. -/
def registrations (w : World V) (c t : Addr) : Nat :=
  (callbacksOf w.trackables t).callbacks.count (WeakRawPtr.callback c)

/-- Is `t` running through its callbacks? -/
def clearing (w : World V) (t : Addr) : Bool := (callbacksOf w.trackables t).clearing

/-- The connection `c` is registered with the rep of its slot only, or it has been reset by a rep that
is still running through its callbacks. -/
structure Tracks (w : World V) (c : Addr) : Prop where
  once : ∀ t, w.registrations c t ≤ 1
  single : ∀ t t', 0 < w.registrations c t → 0 < w.registrations c t' → t = t'
  alive : ∀ t, 0 < w.registrations c t → w.reps t ≠ none
  slot : ∀ t, 0 < w.registrations c t → w.clearing t = true ∨
    ∃ a < w.next, w.weaks c = pointing (some (.slot (.object a))) ∧
      ∀ sl, w.slots (.object a) = some sl → sl.rep = some t

end World

/-- Nothing is registered to reset `c`, and `c` itself is as it was. -/
structure Aside (c : Addr) (w w' : World V) : Prop where
  count : ∀ t, w'.registrations c t ≤ w.registrations c t
  clearing : ∀ t, 0 < w'.registrations c t → w.clearing t = true → w'.clearing t = true
  alive : ∀ t, 0 < w'.registrations c t → w.reps t ≠ none → w'.reps t ≠ none
  weak : w'.weaks c = w.weaks c

instance : Std.Refl (Aside (V := V) c) :=
  ⟨fun _ => ⟨fun _ => Nat.le_refl _, fun _ _ => id, fun _ _ => id, rfl⟩⟩

instance : IsTrans (World V) (Aside c) where
  trans _ _ _ h h' :=
    { count := fun t => Nat.le_trans (h'.count t) (h.count t)
      clearing := fun t ht hc =>
        h'.clearing t ht (h.clearing t (Nat.lt_of_lt_of_le ht (h'.count t)) hc)
      alive := fun t ht hr => h'.alive t ht (h.alive t (Nat.lt_of_lt_of_le ht (h'.count t)) hr)
      weak := h'.weak.trans h.weak }

/-- The connection is left alone, and its slot keeps its rep. -/
theorem World.Tracks.aside (h : w.Tracks c) (ha : Aside c w w') (next : w.next ≤ w'.next)
    (slot : ∀ a < w.next, w.weaks c = pointing (some (.slot (.object a))) → ∀ sl',
      w'.slots (.object a) = some sl' → ∃ sl, w.slots (.object a) = some sl ∧ sl'.rep = sl.rep) :
    w'.Tracks c where
  once t := Nat.le_trans (ha.count t) (h.once t)
  single t t' ht ht' :=
    h.single t t' (Nat.lt_of_lt_of_le ht (ha.count t)) (Nat.lt_of_lt_of_le ht' (ha.count t'))
  alive t ht := ha.alive t ht (h.alive t (Nat.lt_of_lt_of_le ht (ha.count t)))
  slot t ht := by
    obtain hc | ⟨a, ha', hweak, hsl⟩ := h.slot t (Nat.lt_of_lt_of_le ht (ha.count t))
    · exact .inl (ha.clearing t ht hc)
    · refine .inr ⟨a, Nat.lt_of_lt_of_le ha' next, ha.weak.trans hweak, fun sl' hsl' => ?_⟩
      obtain ⟨sl, hs, hrep⟩ := slot a ha' hweak sl' hsl'
      exact hrep.trans (hsl sl hs)

/-! ## Lists of callbacks -/

theorem TrackableCallbackList.count_removeFirst_le {clearing : Bool} {d : Addr}
    {cb : TrackableCallback} (hf : cb.func ≠ none) (l : List TrackableCallback) :
    (removeFirst clearing d l).count cb ≤ l.count cb := by
  induction l with
  | nil => exact Nat.le_refl _
  | cons x xs ih =>
    unfold removeFirst
    split
    · split
      · have hne : ({ x with func := none } : TrackableCallback) ≠ cb := fun h => hf (h ▸ rfl)
        rw [List.count_cons_of_ne hne]
        exact List.count_le_count_cons
      · exact List.count_le_count_cons
    · rw [List.count_cons, List.count_cons]
      exact Nat.add_le_add_right ih _

namespace Trackable

variable {x y : Trackable} {d : Addr}

/-- What becomes of a trackable with which `c` is not registered anew. -/
def Aside (c : Addr) (x y : Trackable) : Prop :=
  y.callbacks.callbacks.count (WeakRawPtr.callback c) ≤
    x.callbacks.callbacks.count (WeakRawPtr.callback c) ∧
  y.callbacks.clearing = x.callbacks.clearing

theorem aside_removeCallback (d : Addr) (x : Trackable) : Aside c x (x.removeCallback d) :=
  ⟨TrackableCallbackList.count_removeFirst_le (by simp) _, rfl⟩

theorem aside_addCallback {f : DestroyNotify} (hd : d ≠ c ∨ f ≠ .notifyObjectInvalidated)
    (x : Trackable) : Aside c x (x.addCallback d f) := by
  refine ⟨?_, addCallback_clearing⟩
  change (x.callbacks.addCallback d f).callbacks.count _ ≤ _
  unfold TrackableCallbackList.addCallback
  split
  · exact Nat.le_refl _
  · have hne : (⟨d, some f⟩ : TrackableCallback) ≠ WeakRawPtr.callback c := by
      rintro ⟨⟩
      exact hd.elim (fun h => h rfl) fun h => h rfl
    rw [List.count_append, List.count_singleton, if_neg (by simpa using hne)]
    exact Nat.le_refl _

end Trackable

theorem Changed.aside {g : Trackable → Trackable} {k : Addr → Nat}
    {old new : Addr → Option Trackable} (h : Changed g k old new)
    (hg : ∀ x, Trackable.Aside c x (g x)) (t : Addr) :
    (callbacksOf new t).callbacks.count (WeakRawPtr.callback c) ≤
        (callbacksOf old t).callbacks.count (WeakRawPtr.callback c) ∧
      (callbacksOf new t).clearing = (callbacksOf old t).clearing := by
  cases ht : new t with
  | none => simp [callbacksOf, ht, (h.none_iff t).mp ht]
  | some y =>
    obtain ⟨x, hx, hxy⟩ := h.preserves (P := Trackable.Aside c) (fun _ => ⟨Nat.le_refl _, rfl⟩)
      (fun _ _ _ h h' => ⟨Nat.le_trans h'.1 h.1, h'.2.trans h.2⟩) hg ht
    simpa [callbacksOf, ht, hx, Trackable.Aside] using hxy

namespace Aside

/-- Lists of callbacks change. -/
theorem trackables {tks : Addr → Option Trackable}
    (h : ∀ t, (callbacksOf tks t).callbacks.count (WeakRawPtr.callback c) ≤ w.registrations c t ∧
      ((callbacksOf tks t).callbacks.count (WeakRawPtr.callback c) ≠ 0 → w.clearing t = true →
        (callbacksOf tks t).clearing = true)) : Aside c w { w with trackables := tks } where
  count t := (h t).1
  clearing t ht := (h t).2 (Nat.ne_of_gt ht)
  alive _ _ := id
  weak := rfl

theorem changed {g : Trackable → Trackable} {k : Addr → Nat} {tks : Addr → Option Trackable}
    (h : Changed g k w.trackables tks) (hg : ∀ x, Trackable.Aside c x (g x)) :
    Aside c w { w with trackables := tks } :=
  trackables fun t => ⟨(h.aside hg t).1, fun _ hc => (h.aside hg t).2.trans hc⟩

/-- A trackable has no callbacks, or no new one. -/
theorem setTrackable {x : Option Trackable}
    (hx : ∀ tr, x = some tr → tr.callbackList ≠ none →
      tr.callbacks.callbacks.count (WeakRawPtr.callback c) ≤ w.registrations c t ∧
        (w.clearing t = true → tr.callbacks.clearing = true)) : Aside c w (w.setTrackable t x) := by
  refine trackables fun t' => ?_
  by_cases ht : t' = t
  · subst ht
    cases x with
    | none => simp [callbacksOf]
    | some tr =>
      cases hl : tr.callbackList with
      | none => simp [callbacksOf, Trackable.callbacks, hl]
      | some l =>
        have h := hx tr rfl (by simp [hl])
        simp only [callbacksOf, Function.update_self, Option.map_some, Option.getD_some]
        exact ⟨h.1, fun _ => h.2⟩
  · rw [callbacksOf, Function.update_of_ne ht]
    exact ⟨Nat.le_refl _, fun _ => id⟩

theorem replace {tr x : Trackable} (ht : w.trackables t = some tr) (hx : Trackable.Aside c tr x) :
    Aside c w (w.setTrackable t (some x)) := by
  have hold : callbacksOf w.trackables t = tr.callbacks := by simp [callbacksOf, ht]
  refine setTrackable fun y hy _ => ?_
  obtain rfl := Option.some.inj hy
  rw [World.registrations, World.clearing, hold, hx.2]
  exact ⟨hx.1, id⟩

/-- A trackable changes, but not its list of callbacks. -/
theorem sameList {tr x : Trackable} (ht : w.trackables t = some tr)
    (hx : x.callbackList = tr.callbackList) : Aside c w (w.setTrackable t (some x)) := by
  have hsame : x.callbacks = tr.callbacks := by rw [Trackable.callbacks, hx, Trackable.callbacks]
  exact replace ht ⟨Nat.le_of_eq (by rw [hsame]), by rw [hsame]⟩

/-- The list of callbacks is marked as being cleared. -/
theorem beginClearing {tr : Trackable} {l : TrackableCallbackList} (ht : w.trackables t = some tr)
    (hl : tr.callbackList = some l) : Aside c w (w.setTrackable t
      (some { tr with callbackList := some { l with clearing := true } })) := by
  refine setTrackable fun x hx _ => ?_
  obtain rfl := Option.some.inj hx
  rw [World.registrations, callbacksOf_of_list ht hl]
  exact ⟨Nat.le_refl _, fun _ => rfl⟩

/-- The list of callbacks is dropped. -/
theorem dropList (tr : Trackable) :
    Aside c w (w.setTrackable t (some { tr with callbackList := none })) :=
  setTrackable fun x hx hl => by
    obtain rfl := Option.some.inj hx
    exact absurd rfl hl

theorem setRep {r : Addr} (x : SlotRep) : Aside c w (w.setRep r (some x)) where
  count _ := Nat.le_refl _
  clearing _ _ := id
  alive q _ hq := by
    by_cases hqr : q = r
    · simp [World.setRep, hqr]
    · simpa [World.setRep, hqr] using hq
  weak := rfl

/-- A rep is destroyed with its base. -/
theorem eraseRep (r : Addr) : Aside c w ((w.setRep r none).setTrackable r none) where
  count q := by
    by_cases hq : q = r
    · simp [World.registrations, World.setTrackable, callbacksOf, hq]
    · simp [World.registrations, World.setTrackable, World.setRep, callbacksOf, hq]
  clearing q hq hc := by
    by_cases hqr : q = r
    · simp [World.registrations, World.setTrackable, callbacksOf, hqr] at hq
    · simpa [World.clearing, World.setTrackable, World.setRep, callbacksOf, hqr] using hc
  alive q hq hr := by
    by_cases hqr : q = r
    · simp [World.registrations, World.setTrackable, callbacksOf, hqr] at hq
    · simpa [World.setTrackable, World.setRep, hqr] using hr
  weak := rfl

/-- Slots, signals, frames and the rest change. -/
theorem others (hreps : w'.reps = w.reps) (htks : w'.trackables = w.trackables)
    (hweaks : w'.weaks = w.weaks) : Aside c w w' where
  count t := by rw [World.registrations, htks]; exact Nat.le_refl _
  clearing t _ hc := by rwa [World.clearing, htks]
  alive t _ := by rw [hreps]; exact id
  weak := by rw [hweaks]

theorem setWeak {x : Addr} {y : Option WeakRawPtr} (hx : c ≠ x) : Aside c w (w.setWeak x y) where
  count _ := Nat.le_refl _
  clearing _ _ := id
  alive _ _ := id
  weak := Function.update_of_ne hx _ _

theorem trans (h : Aside c w w₁) (h' : Aside c w₁ w') : Aside c w w' := IsTrans.trans _ _ _ h h'

theorem after (h' : Aside c w₁ w') (h : Aside c w w₁) : Aside c w w' := h.trans h'

/-- Reps change, but none is destroyed. -/
theorem setReps {reps : Addr → Option SlotRep} (hr : ∀ r, w.reps r ≠ none → reps r ≠ none) :
    Aside c w { w with reps := reps } where
  count _ := Nat.le_refl _
  clearing _ _ := id
  alive t _ := hr t
  weak := rfl

end Aside

/-! ## Stretches of code -/

theorem SlotRep.afterRep_aside {f : Functor} {tks : Addr → Option Trackable}
    {ign : List (Addr × Addr)} {rps : Addr → Option SlotRep}
    (hcons : RepConstructed w f tks ign rps) : Aside c w (w.afterRep tks ign rps) := by
  have h₁ : Aside c w (w.setTrackable w.next (some {})) := .dropList {}
  have h₂ := h₁.trans (.changed hcons.registered.changed
    (Trackable.aside_addCallback (.inr (by simp))))
  have hrps (r : Addr) (hr : w.reps r ≠ none) : rps r ≠ none := by
    rw [Ne, hcons.bound.none_iff]
    by_cases hrn : r = w.next
    · simp [hrn]
    · rw [Function.update_of_ne hrn]
      exact hr
  have h₃ := h₂.trans (.setReps hrps)
  exact h₃.trans (.others rfl rfl rfl)

theorem SlotBase.construct_aside {owner : Owner} {init : SlotInit} {s : SlotAddr}
    (run : SlotBase.construct owner init w = (.ret s, w')) : Aside c w w' := by
  obtain ⟨-, -, rfl⟩ | ⟨f, tks, ign, rps, -, hcons, -, rfl⟩ := SlotBase.construct_effect run
  · exact .others rfl rfl rfl
  · exact (SlotRep.afterRep_aside hcons).trans (.others rfl rfl rfl)

theorem SlotBase.takeRep_aside {owner : Owner} {src s : SlotAddr} {blocked : Bool}
    (run : SlotBase.takeRep owner src blocked w = (.ret s, w')) : Aside c w w' := by
  obtain ⟨sl, -, -, rfl⟩ := SlotBase.takeRep_effect run
  exact .others rfl rfl rfl

theorem SlotBase.passParent_aside {new : Addr} {old : Option Addr}
    (run : SlotBase.passParent new old w = (.ret (), w')) : Aside c w w' := by
  obtain ⟨-, rfl⟩ | ⟨r, oldRep, newRep, -, -, hnew, rfl⟩ := SlotBase.passParent_effect run
  · exact Std.Refl.refl _
  · exact .setRep _

theorem SignalImpl.placed_aside {i : Addr} {first : Bool} {n : SlotAddr} {sl : SlotBase}
    (h : Placed w i first n sl w') : Aside c w w' := by
  obtain ⟨-, self, r, rep, nx, tks, -, -, hplaced, rfl⟩ := h
  have h₁ : Aside c w { w with trackables := tks } := by
    obtain ⟨-, -, -, rfl⟩ | ⟨-, -, -, -, rfl⟩ := hplaced
    · exact Std.Refl.refl _
    · exact .dropList {}
  exact (h₁.trans (.setRep (r := r) _)).trans (.others rfl rfl rfl)

theorem SlotRep.detachFunctor_aside {r : Addr} {fo : Option Functor}
    (run : SlotRep.detachFunctor r w = (.ret fo, w')) : Aside c w w' := by
  obtain ⟨rep, tks, rps, hrep, -, rfl, hun, rps₁, rep', hrps, hrep', rfl⟩ :=
    detachFunctor_effect run
  have h₁ : Aside c w { w with trackables := tks } := .changed hun (Trackable.aside_removeCallback r)
  refine h₁.trans (.setReps fun q hq => ?_)
  by_cases hqr : q = r
  · simp [hqr]
  · rw [Function.update_of_ne hqr, Ne, hrps.none_iff, Function.update_of_ne hqr]
    exact hq

theorem WeakRawPtr.construct_aside {x : Addr} {b : Bool} (hx : c ≠ x)
    (run : WeakRawPtr.construct p b w = (.ret x, w')) : Aside c w w' := by
  obtain ⟨rfl, tks, ign, rfl, hreg⟩ := construct_effect run
  have h₁ : Aside c w { w with trackables := tks } :=
    .changed hreg.changed (Trackable.aside_addCallback (.inl (Ne.symm hx)))
  exact (h₁.trans (.setWeak (y := some ⟨p, b⟩) hx)).trans (.others rfl rfl rfl)

theorem WeakRawPtr.destroy_aside {x : Addr} (hx : c ≠ x)
    (run : WeakRawPtr.destroy x w = (.ret (), w')) : Aside c w w' := by
  obtain ⟨tks, self, -, rfl, hun⟩ := destroy_effect run
  have h₁ : Aside c w { w with trackables := tks } := .changed hun (Trackable.aside_removeCallback x)
  exact h₁.trans (.setWeak hx)

theorem WeakRawPtr.assign_aside {x src : Addr} (hx : c ≠ x)
    (run : WeakRawPtr.assign x src w = (.ret (), w')) : Aside c w w' := by
  obtain ⟨mid, tks, ign, self, from_, -, -, rfl, hun, hreg⟩ := assign_effect run
  have h₁ : Aside c w { w with trackables := mid } := .changed hun (Trackable.aside_removeCallback x)
  have h₂ := h₁.trans (.changed hreg.changed (Trackable.aside_addCallback (.inl (Ne.symm hx))))
  exact (h₂.trans (.setWeak hx)).trans (.others rfl rfl rfl)

theorem Sever.aside {r : Addr} (h : Sever r w w') : Aside c w w' := by
  have hsever (rep : SlotRep) : Aside c w (w.sever r rep) :=
    Aside.trans (.setRep _) (.others rfl rfl rfl)
  cases h with
  | none alive parent => exact hsever _
  | rep alive parent cleanup calm => exact hsever _
  | expired alive parent cleanup record expired => exact (hsever _).trans (.others rfl rfl rfl)
  | defer alive parent cleanup record owned impl executing =>
    exact (hsever _).trans (.others rfl rfl rfl)
  | erase alive parent cleanup record owned impl idle element slot calm =>
    exact (hsever _).trans (.others rfl rfl rfl)

/-! ## Steps -/

/-- What a step does to the connection `c`: it leaves it alone, resets it in the course of a
notification, or assigns to it. -/
inductive Treats (c : Addr) (w w' : World V) : Prop where
  | aside (h : Aside c w w')
  | reset {t x} (weak : w.weaks c = some x) (registered : 0 < w.registrations c t)
      (clearing : w.clearing t = true) (same : w'.trackables = w.trackables)
      (reps : w'.reps = w.reps) (null : w'.weaks c = some { x with ptr := none })
  | assign {src} (user : w.UserPoint) (run : WeakRawPtr.assign c src w = (.ret (), w'))

theorem TrackableStep.treats (h : TrackableStep w w') (hr : w.Registered) : Treats c w w' := by
  cases h with
  | construct =>
    exact .aside ((Aside.dropList (t := w.next) {}).trans (.others rfl rfl rfl))
  | beginDestroy alive client => exact .aside (.sameList alive rfl)
  | endDestroy alive client notified => exact .aside (.setTrackable fun _ h => by cases h)
  | notifyNone alive list => exact .aside (.others rfl rfl rfl)
  | beginNotify alive list idle reason calm =>
    exact .aside ((Aside.beginClearing alive list).trans (.others rfl rfl rfl))
  | skip top alive list element inactive => exact .aside (.others rfl rfl rfl)
  | @notifyWeak t tr l pos deps below cb x top alive list element func weak =>
    by_cases hc : c = cb.data
    · have hmem : WeakRawPtr.callback c ∈ (callbacksOf w.trackables t).callbacks := by
        rw [callbacksOf_of_list alive list, hc, WeakRawPtr.callback, ← func]
        exact List.mem_of_getElem? element
      obtain ⟨tr', l', htr', hl', hcl, -⟩ := Registry.clearing hr t pos deps
        (mem_loopsOf.mpr ⟨top ▸ List.mem_cons_self, rfl⟩)
      refine .reset (hc ▸ weak) (List.count_pos_iff.mpr hmem) ?_ rfl rfl
        (hc ▸ Function.update_self _ _ _)
      rw [World.clearing, callbacksOf_of_list htr' hl', hcl]
    · exact .aside (Aside.trans (.setWeak hc) (.others rfl rfl rfl))
  | endNotify top alive list done =>
    exact .aside ((Aside.dropList _).trans (.others rfl rfl rfl))

theorem WeakStep.treats (h : WeakStep w w') (hw : WellAddressed w) (alive : w.weaks c ≠ none)
    (alive' : w'.weaks c ≠ none) : Treats c w w' := by
  cases h with
  | refer s => exact .aside (.others rfl rfl rfl)
  | construct user source run =>
    refine .aside (WeakRawPtr.construct_aside ?_ run)
    rintro rfl
    obtain ⟨rfl, -⟩ := WeakRawPtr.construct_effect run
    exact alive (hw.weaks.eq_none (Nat.le_refl _))
  | @assign _ x src self user connection run =>
    by_cases hc : c = x
    · exact .assign user (hc ▸ run)
    · exact .aside (WeakRawPtr.assign_aside hc run)
  | destroy user connection run =>
    refine .aside (WeakRawPtr.destroy_aside ?_ run)
    rintro rfl
    obtain ⟨tks, self, -, rfl, -⟩ := WeakRawPtr.destroy_effect run
    exact alive' (Function.update_self _ _ _)

theorem SlotStep.treats (h : SlotStep w w') (hw : WellAddressed w) (alive : w.weaks c ≠ none)
    (alive' : w'.weaks c ≠ none) : Aside c w w' := by
  have hconstruct {v v' : World V} {q : Option WeakTarget} {b : Bool} {x : Addr}
      (run : WeakRawPtr.construct q b v = (.ret x, v')) (hv : v.next = w.next) : Aside c v v' := by
    refine WeakRawPtr.construct_aside ?_ run
    rintro rfl
    obtain ⟨rfl, -⟩ := WeakRawPtr.construct_effect run
    exact alive (hw.weaks.eq_none (Nat.le_of_eq hv.symm))
  have hdestroy {v v' : World V} {x : Addr} (hv : v'.weaks c ≠ none)
      (run : WeakRawPtr.destroy x v = (.ret (), v')) : Aside c v v' := by
    refine WeakRawPtr.destroy_aside ?_ run
    rintro rfl
    obtain ⟨tks, self, -, rfl, -⟩ := WeakRawPtr.destroy_effect run
    exact hv (Function.update_self _ _ _)
  cases h with
  | construct unlisted functor run => exact SlotBase.construct_aside run
  | move r => exact .others rfl rfl rfl
  | take unlisted source told run => exact SlotBase.takeRep_aside run
  | setBlocked b alive => exact .others rfl rfl rfl
  | beginDestroy alive unlisted => exact .others rfl rfl rfl
  | endDestroy empty => exact .others rfl rfl rfl
  | sever h => exact h.aside
  | @startInvalidation w₁ w' r rep x calm alive run sever =>
    have h₀ : Aside c w (w.setRep r (some { rep with call := false })) := .setRep _
    have h₁ := (hconstruct run rfl).after (h₀.trans (.others rfl rfl rfl))
    have h₂ : Aside c w (w₁.push (.invalidating r x)) := h₁.trans (.others rfl rfl rfl)
    exact h₂.trans sever.aside
  | detach top run => exact SlotRep.detachFunctor_aside run
  | endInvalidation top weak gutted run =>
    exact (hdestroy alive' run).after (.others rfl rfl rfl)
  | @endCallback w₁ r x c₁ t pos deps below tr l top weak gutted run alive list element =>
    have halive₁ : w₁.weaks c ≠ none := alive'
    have h₁ : Aside c w w₁ := (hdestroy halive₁ run).after (.others rfl rfl rfl)
    exact h₁.trans (.others rfl rfl rfl)
  | @beginDelete w' r base fo s sl calm alive idle slot rep unlisted run =>
    exact (SlotRep.detachFunctor_aside run).after
      (Aside.trans (.sameList (x := { base with dying := true }) alive rfl) (.others rfl rfl rfl))
  | endDelete top alive notified => exact Aside.trans (.eraseRep _) (.others rfl rfl rfl)
  | startCheck calm alive rep unlisted run => exact (hconstruct run rfl).trans (.others rfl rfl rfl)
  | clearRep top alive intact unlisted => exact .others rfl rfl rfl
  | endCheck top run => exact (hdestroy alive' run).after (.others rfl rfl rfl)
  | cloneFor calm unlisted functor run =>
    obtain ⟨rfl, tks, ign, rps, sl, w₂, hcons, -, hpass, rfl⟩ := SlotBase.cloneFor_effect run
    exact ((SlotRep.afterRep_aside hcons).trans (SlotBase.passParent_aside hpass)).trans
      (.others rfl rfl rfl)
  | moveFor calm unlisted source told run =>
    obtain ⟨from_, sl, w₂, -, -, -, hpass, rfl⟩ := SlotBase.moveFor_effect run
    have h₁ : Aside c w w₂ := (SlotBase.passParent_aside hpass).after (.others rfl rfl rfl)
    exact h₁.trans (.others rfl rfl rfl)
  | finishAssign top alive intact unlisted => exact .others rfl rfl rfl
  | pushHandler calm alive call => exact .others rfl rfl rfl
  | popHandler top => exact .others rfl rfl rfl
  | pushFunctorDtor calm used functor gutted => exact .others rfl rfl rfl
  | nextTarget top => exact .others rfl rfl rfl
  | popFunctorDtor top => exact .others rfl rfl rfl

theorem SignalStep.aside (h : SignalStep w w') : Aside c w w' := by
  have hletGo {v : World V} {i old : Option Addr}
      (run : SignalBase.letGo i v = (.ret old, w')) : Aside c v w' := by
    have h := World.letGo_unregistering run
    obtain ⟨-, rfl⟩ := SignalBase.letGo_effect run
    cases i with
    | none => exact Std.Refl.refl _
    | some i =>
      refine .others ?_ h.trackables h.weaks
      change (v.letGo i).reps = _
      unfold World.letGo
      split <;> rfl
  have hsweep {v : World V} {i : Addr} {it : Option SlotAddr}
      (run : SignalImpl.enterSweep i v = (.ret it, w')) : Aside c v w' := by
    obtain ⟨self, -, -, rfl⟩ := SignalImpl.enterSweep_effect run
    exact .others rfl rfl rfl
  have himpl {v : World V} {h i : Addr} (run : SignalBase.impl h w = (.ret i, v)) :
      Aside c w v := by
    obtain ⟨-, rfl⟩ | ⟨-, -, rfl⟩ := SignalBase.impl_effect run <;> exact .others rfl rfl rfl
  cases h with
  | insertBuilt user owned functor run =>
    obtain ⟨w₁, sl, hcons, -, hp⟩ := SignalImpl.insertBuilt_effect run
    exact (SlotBase.construct_aside hcons).trans (SignalImpl.placed_aside hp)
  | insertTaken user owned source told run =>
    obtain ⟨w₁, sl, htake, -, -, hp⟩ := SignalImpl.insertTaken_effect run
    exact (SlotBase.takeRep_aside htake).trans (SignalImpl.placed_aside hp)
  | impl run => exact himpl run
  | copyConstruct handle run =>
    obtain ⟨i, w₁, hrun, -, rfl⟩ := SignalBase.copyConstruct_effect run
    exact (himpl hrun).trans (.others rfl rfl rfl)
  | moveConstruct run =>
    obtain ⟨-, rfl⟩ := SignalBase.moveConstruct_effect run
    exact .others rfl rfl rfl
  | replaceImpl calm owned run =>
    exact (hletGo (SignalBase.replaceImpl_effect run).2).after (.others rfl rfl rfl)
  | dropHandle calm run =>
    exact (hletGo (SignalBase.dropHandle_effect run).2).after (.others rfl rfl rfl)
  | enterClear calm run =>
    obtain ⟨self, -, rfl, rfl, rfl, -, rfl⟩ := SignalImpl.enterClear_effect run
    exact .others rfl rfl rfl
  | leaveClearSweep top impl cleared sweeps owned run =>
    exact (hsweep run).after (.others rfl rfl rfl)
  | leaveHolderSweep top holder impl sweeps run =>
    exact (hsweep run).after (.others rfl rfl rfl)
  | _ => exact .others rfl rfl rfl

theorem EmissionStep.aside (h : EmissionStep w w') : Aside c w w' := by
  cases h with
  | start calm owned run =>
    obtain ⟨self, -, -, rfl, rfl⟩ := Emission.start_effect run
    exact .others rfl rfl rfl
  | finishSweep top ends impl element sweeps run =>
    obtain ⟨self, -, -, rfl⟩ := SignalImpl.enterSweep_effect run
    exact .others rfl rfl rfl
  | _ => exact .others rfl rfl rfl

theorem Step.treats (h : Step w w') (hw : WellAddressed w) (hr : w.Registered)
    (alive : w.weaks c ≠ none) (alive' : w'.weaks c ≠ none) : Treats c w w' := by
  cases h with
  | command script wellFormed => exact .aside (.others rfl rfl rfl)
  | trackable h => exact h.treats hr
  | weak h => exact h.treats hw alive alive'
  | slot h => exact .aside (h.treats hw alive alive')
  | signal h => exact .aside h.aside
  | emission h => exact .aside h.aside

/-! ## Operations of connections -/

/-- What is known of weak pointers and registrations in every state of every run. -/
structure World.Sane (w : World V) : Prop where
  sound : Sound w
  watched : w.Watched
  registered : w.Registered

theorem World.Sane.initial (script : List (Cmd V)) : ({ script } : World V).Sane :=
  ⟨.initial script, .initial script, .initial script⟩

theorem Step.sane (h : Step w w') (hw : w.Sane) : w'.Sane :=
  ⟨h.sound hw.sound, h.watched hw.sound hw.watched,
    h.registered hw.sound.toWellAddressed hw.watched hw.registered⟩

theorem Steps.sane (h : Steps w w') (hw : w.Sane) : w'.Sane :=
  h.preserves hw fun _ _ hstep => hstep.sane

/-- No rep is running through its callbacks when client code is in control. -/
theorem World.Sane.idle (hw : w.Sane) (user : w.UserPoint) (ht : w.reps t ≠ none) :
    w.clearing t = false := by
  obtain ⟨rep, hrep⟩ := Option.ne_none_iff_exists'.mp ht
  by_contra hc
  rw [Bool.not_eq_false] at hc
  obtain ⟨pos, deps, below, top⟩ := Watching.clearing hw.watched t rep hrep hc
  exact ht (user.calm.settled t pos deps below top)

namespace WeakRawPtr

theorem unregisterPtr_alive {s : SlotAddr}
    (run : unregisterPtr c (some (.slot s)) w = (.ret (), w')) : ∃ sl, w.slots s = some sl := by
  obtain ⟨sl, _, hload, -⟩ := bind_eq_ret.mp run
  exact ⟨sl, (deref_eq_ret.mp hload).1⟩

theorem assign_alive {src : Addr} {s : SlotAddr} (weak : w.weaks c = pointing (some (.slot s)))
    (run : assign c src w = (.ret (), w')) : ∃ sl, w.slots s = some sl := by
  obtain ⟨self, _, hload, hrest⟩ := bind_eq_ret.mp run
  obtain ⟨hself, rfl⟩ := deref_eq_ret.mp hload
  obtain rfl := Option.some.inj (weak.symm.trans hself)
  obtain ⟨_, _, hun, -⟩ := bind_eq_ret.mp hrest
  exact unregisterPtr_alive hun

theorem destroy_alive {s : SlotAddr} (weak : w.weaks c = pointing (some (.slot s)))
    (run : destroy c w = (.ret (), w')) : ∃ sl, w.slots s = some sl := by
  obtain ⟨self, _, hload, hrest⟩ := bind_eq_ret.mp run
  obtain ⟨hself, rfl⟩ := deref_eq_ret.mp hload
  obtain rfl := Option.some.inj (weak.symm.trans hself)
  obtain ⟨_, _, hun, -⟩ := bind_eq_ret.mp hrest
  exact unregisterPtr_alive hun

end WeakRawPtr

variable {tks mid : Addr → Option Trackable} {ign ign' : List (Addr × Addr)} {q : Option WeakTarget}

/-- A connection that is taken off the list of its rep is registered nowhere. -/
theorem World.Tracks.unregister (h : w.Tracks c) (hw : w.Sane) (user : w.UserPoint)
    (weak : w.weaks c = pointing p) (alive : ∀ s, p = some (.slot s) → ∃ sl, w.slots s = some sl)
    (hun : Changed (Trackable.removeCallback c) (WeakRawPtr.uses w.slots p) w.trackables mid)
    (t : Addr) :
    (callbacksOf mid t).callbacks.count (WeakRawPtr.callback c) = 0 := by
  have hle := (hun.aside (c := c) (Trackable.aside_removeCallback c) t).1
  by_contra hne
  have hpos : 0 < w.registrations c t := Nat.lt_of_lt_of_le (Nat.pos_of_ne_zero hne) hle
  obtain hc | ⟨a, -, hweak, hslot⟩ := h.slot t hpos
  · rw [hw.idle user (h.alive t hpos)] at hc
    cases hc
  · -- the callback that has been removed is the only one
    obtain rfl : p = some (.slot (.object a)) := by
      rw [weak] at hweak
      exact congrArg WeakRawPtr.ptr (Option.some.inj hweak)
    obtain ⟨sl, hsl⟩ := alive _ rfl
    have huse : WeakRawPtr.uses w.slots (some (.slot (.object a))) t = 1 := by
      simp [WeakRawPtr.uses, WeakTarget.pointee, hsl, hslot sl hsl]
    have hmid := hun t
    rw [huse] at hmid
    cases htr : w.trackables t with
    | none => simp [World.registrations, callbacksOf, htr] at hpos
    | some tr =>
      have hone := h.once t
      simp only [World.registrations, callbacksOf, htr, Option.map_some, Option.getD_some]
        at hpos hone
      refine hne ?_
      simp only [callbacksOf, hmid, htr, Option.map_some, Option.getD_some, Function.iterate_one]
      -- Callbacks for c are those of the connection: no rep and no record has its address.
      have hall : ∀ cb ∈ tr.callbacks.callbacks, cb.data = c →
          cb.func = none ∨ cb = WeakRawPtr.callback c := by
        intro cb hcb hd
        cases hf : cb.func with
        | none => exact .inl rfl
        | some f =>
          right
          obtain ⟨hslotRep, -, hself⟩ := Registry.fits hw.registered t tr htr cb hcb
          cases f with
          | notifySlotRepInvalidated =>
            rw [hd, weak] at hslotRep
            cases (hslotRep hf).2
          | notifySelfAndIterOfInvalidatedSlot => exact absurd hf hself
          | notifyObjectInvalidated => rw [WeakRawPtr.callback, ← hd, ← hf]
      have hremove : (tr.removeCallback c).callbacks.callbacks.count (WeakRawPtr.callback c) =
          tr.callbacks.callbacks.count (WeakRawPtr.callback c) - 1 :=
        TrackableCallbackList.count_removeFirst rfl (by simp) hall
      rw [hremove]
      omega

theorem Trackable.count_addCallback_le (f : DestroyNotify) (x : Trackable) :
    (x.addCallback c f).callbacks.callbacks.count (WeakRawPtr.callback c) ≤
      x.callbacks.callbacks.count (WeakRawPtr.callback c) + 1 := by
  change (x.callbacks.addCallback c f).callbacks.count _ ≤ _
  unfold TrackableCallbackList.addCallback
  split
  · exact Nat.le_succ _
  · rw [List.count_append]
    exact Nat.add_le_add_left List.count_le_length _

/-- A connection that was registered nowhere is registered with the rep of its slot. -/
theorem Registered.tracks
    (hreg : Registered c .notifyObjectInvalidated (WeakRawPtr.uses w.slots p) mid ign tks ign')
    (free : ∀ t, (callbacksOf mid t).callbacks.count (WeakRawPtr.callback c) = 0)
    (hw : w.Sane) (based : ∀ t, mid t = none ↔ w.trackables t = none)
    (hp : ∀ r, p ≠ some (.rep r)) (htks : w'.trackables = tks) (weak : w'.weaks c = pointing p)
    (slots : w'.slots = w.slots) (reps : w'.reps = w.reps) (next : w.next ≤ w'.next) :
    w'.Tracks c := by
  -- The pointee gets at most one callback, any other trackable none.
  have hcount (t : Addr) : w'.registrations c t ≤ WeakRawPtr.uses w.slots p t := by
    rw [World.registrations, htks]
    have hnew := hreg.changed t
    unfold WeakRawPtr.uses at hnew ⊢
    have hfree := free t
    cases htr : mid t with
    | none => simp [callbacksOf, hnew, htr]
    | some tr =>
      simp only [callbacksOf, htr, Option.map_some, Option.getD_some] at hfree
      split
      · rename_i huse
        simp only [callbacksOf, hnew, huse, htr, if_true, Option.map_some, Option.getD_some,
          Function.iterate_one]
        exact Nat.le_trans (Trackable.count_addCallback_le _ tr) (by omega)
      · rename_i huse
        simp [callbacksOf, hnew, huse, htr, hfree]
  -- Where there is a callback, it is with the rep of the slot that c points to.
  have htarget (t : Addr) (ht : 0 < w'.registrations c t) :
      ∃ s sl, p = some (.slot s) ∧ w.slots s = some sl ∧ sl.rep = some t := by
    have huse : p.bind (WeakTarget.pointee w.slots) = some t := by
      by_contra hne
      have hle := hcount t
      rw [WeakRawPtr.uses, if_neg hne] at hle
      omega
    obtain ⟨target, rfl, htarget⟩ := Option.bind_eq_some_iff.mp huse
    cases target with
    | rep r => exact absurd rfl (hp r)
    | slot s =>
      obtain ⟨sl, hsl, hrep⟩ := Option.bind_eq_some_iff.mp htarget
      exact ⟨s, sl, rfl, hsl, hrep⟩
  refine ⟨fun t => Nat.le_trans (hcount t) ?_, fun t t' ht ht' => ?_, fun t ht hnone => ?_,
    fun t ht => ?_⟩
  · unfold WeakRawPtr.uses
    split <;> omega
  · obtain ⟨s, sl, rfl, hsl, hrep⟩ := htarget t ht
    obtain ⟨s', sl', hs, hsl', hrep'⟩ := htarget t' ht'
    cases hs
    obtain rfl := Option.some.inj (hsl.symm.trans hsl')
    exact Option.some.inj (hrep.symm.trans hrep')
  · obtain ⟨s, sl, -, hsl, hrep⟩ := htarget t ht
    obtain ⟨tr, htr⟩ := hreg.alive t (Nat.lt_of_lt_of_le ht (hcount t))
    rw [reps] at hnone
    rw [(based t).mpr (Watching.based hw.watched t (.inl ⟨s, sl, hsl, hrep⟩) hnone)] at htr
    cases htr
  · obtain ⟨s, sl, rfl, hsl, hrep⟩ := htarget t ht
    cases s with
    | placeholder d =>
      rw [(hw.sound.placeholder d sl hsl).1] at hrep
      cases hrep
    | object a =>
      refine .inr ⟨a, Nat.lt_of_lt_of_le (hw.sound.slots a sl hsl) next, weak, fun sl' hsl' => ?_⟩
      rw [slots, hsl] at hsl'
      rwa [← Option.some.inj hsl']

/-- A connection that is not registered anywhere. -/
theorem World.Tracks.of_free (free : ∀ t, w.registrations c t = 0) : w.Tracks c where
  once t := by rw [free t]; exact Nat.zero_le _
  single t _ ht := by rw [free t] at ht; cases ht
  alive t ht := by rw [free t] at ht; cases ht
  slot t ht := by rw [free t] at ht; cases ht

/-- Nothing is registered for an object that has not been constructed yet. -/
theorem World.Sane.unregistered (hw : w.Sane) (hc : w.next ≤ c) (t : Addr) :
    w.registrations c t = 0 := by
  refine List.count_eq_zero.mpr fun hm => ?_
  cases htr : w.trackables t with
  | none => simp [callbacksOf, htr] at hm
  | some tr =>
    simp only [callbacksOf, htr, Option.map_some, Option.getD_some] at hm
    exact absurd ((Registry.fits hw.registered t tr htr _ hm).2.1 rfl).1 (Nat.not_lt.mpr hc)

theorem World.Tracks.same (h : w.Tracks c) (ha : Aside c w w') (slots : w'.slots = w.slots)
    (next : w.next ≤ w'.next) : w'.Tracks c :=
  h.aside ha next fun a _ _ sl' hsl' => ⟨sl', by rwa [← slots], rfl⟩

theorem World.Tracks.of_new (hw : w.Sane) (hc : w.next ≤ c) : w.Tracks c :=
  .of_free (hw.unregistered hc)

/-- When client code is in control, a connection is registered with the rep of its slot. -/
theorem World.Tracks.rep_eq (h : w.Tracks c) (hw : w.Sane) (user : w.UserPoint) {s : SlotAddr}
    {sl : SlotBase} {r : Addr} (weak : w.weaks c = pointing (some (.slot s)))
    (hsl : w.slots s = some sl) (hr : sl.rep = some r) (ht : 0 < w.registrations c t) : t = r := by
  obtain hc | ⟨a, -, hweak, hslot⟩ := h.slot t ht
  · rw [hw.idle user (h.alive t ht)] at hc
    cases hc
  · cases weak.symm.trans hweak
    exact Option.some.inj ((hslot sl hsl).symm.trans hr)

namespace WeakRawPtr

theorem construct_tracks {x : Addr} (hw : w.Sane) (hp : ∀ r, p ≠ some (.rep r))
    (run : construct p false w = (.ret x, w')) (h : w.Tracks c) : w'.Tracks c := by
  by_cases hc : c = x
  · subst hc
    obtain ⟨rfl, tks, ign, rfl, hreg⟩ := construct_effect run
    exact hreg.tracks (hw.unregistered (Nat.le_refl _)) hw (fun _ => Iff.rfl) hp rfl
      (Function.update_self _ _ _) rfl rfl (Nat.le_succ _)
  · have ha := construct_aside hc run
    obtain ⟨rfl, tks, ign, rfl, -⟩ := construct_effect run
    exact h.same ha rfl (Nat.le_succ _)

theorem assign_tracks {x src : Addr} (hw : w.Sane) (user : w.UserPoint)
    {from_ : WeakRawPtr} (weak : w.weaks x = pointing q) (source : w.weaks src = some from_)
    (hp : ∀ r, from_.ptr ≠ some (.rep r)) (run : assign x src w = (.ret (), w')) (h : w.Tracks c) :
    w'.Tracks c := by
  by_cases hc : c = x
  · subst hc
    have halive (s : SlotAddr) (hs : q = some (.slot s)) := assign_alive (hs ▸ weak) run
    obtain ⟨mid, tks, ign, self, from', hself, hfrom, rfl, hun, hreg⟩ := assign_effect run
    obtain rfl := Option.some.inj (weak.symm.trans hself)
    obtain rfl := Option.some.inj (source.symm.trans hfrom)
    exact hreg.tracks (h.unregister hw user weak halive hun) hw hun.none_iff hp rfl
      (Function.update_self _ _ _) rfl rfl (Nat.le_refl _)
  · have ha := assign_aside hc run
    obtain ⟨mid, tks, ign, self, from_, -, -, rfl, -, -⟩ := assign_effect run
    exact h.same ha rfl (Nat.le_refl _)

theorem destroy_tracks {x : Addr} (hw : w.Sane) (user : w.UserPoint)
    (weak : w.weaks x = pointing q) (run : destroy x w = (.ret (), w')) (h : w.Tracks c) :
    w'.Tracks c := by
  by_cases hc : c = x
  · subst hc
    have halive (s : SlotAddr) (hs : q = some (.slot s)) := destroy_alive (hs ▸ weak) run
    obtain ⟨tks, self, hself, rfl, hun⟩ := destroy_effect run
    obtain rfl := Option.some.inj (weak.symm.trans hself)
    exact .of_free (h.unregister hw user weak halive hun)
  · have ha := destroy_aside hc run
    obtain ⟨tks, self, -, rfl, -⟩ := destroy_effect run
    exact h.same ha rfl (Nat.le_refl _)

end WeakRawPtr

/-- A step that leaves the connection to its slot, or resets it, while the slot keeps its rep. -/
theorem World.Tracks.step (h : w.Tracks c) (hstep : Step w w') (hw : w.Sane)
    (weak : w.weaks c = pointing p) (hp : ∀ r, p ≠ some (.rep r))
    (left : w'.weaks c = pointing p ∨ w'.weaks c = pointing none)
    (kept : ∀ s sl sl', w'.weaks c = pointing (some (.slot s)) → w.slots s = some sl →
      w'.slots s = some sl' → sl'.rep = sl.rep) : w'.Tracks c := by
  have hext := (Steps.single hstep).proceeds hw.sound |>.extension
  have halive' : w'.weaks c ≠ none := by
    obtain h | h := left <;> simp [h]
  cases hstep.treats hw.sound.toWellAddressed hw.registered (by simp [weak]) halive' with
  | aside ha =>
    refine h.aside ha hext.next fun a hlt hweak sl' hsl' => ?_
    obtain ⟨sl, hsl, -⟩ := hext.slots.old hlt hsl'
    exact ⟨sl, hsl, kept _ sl sl' (ha.weak.trans hweak) hsl hsl'⟩
  | reset hx registered clearing same reps null =>
    have hcount (t : Addr) : w'.registrations c t = w.registrations c t := by
      rw [World.registrations, same, World.registrations]
    refine ⟨fun t => hcount t ▸ h.once t, fun t t' => ?_, fun t ht => ?_, fun t ht => .inl ?_⟩
    · rw [hcount, hcount]
      exact h.single t t'
    · rw [reps]
      exact h.alive t (hcount t ▸ ht)
    · obtain rfl := h.single _ _ (hcount t ▸ ht) registered
      rwa [World.clearing, same]
  | @assign src user run =>
    obtain ⟨mid, tks, ign, self, from_, hself, hfrom, hw', -, -⟩ := WeakRawPtr.assign_effect run
    refine WeakRawPtr.assign_tracks hw user weak hfrom (fun r hr => ?_) run h
    have hweak' : w'.weaks c = some { self with ptr := from_.ptr } := by
      rw [hw']
      exact Function.update_self _ _ _
    rw [hweak', hr] at left
    rcases left with h | h
    · exact hp r (congrArg WeakRawPtr.ptr (Option.some.inj h)).symm
    · cases congrArg WeakRawPtr.ptr (Option.some.inj h)

end Sigc
