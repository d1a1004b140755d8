import Sigc.SlotBase

/-!
# Relations that a function respects

Rules for the loops of the library: over callbacks, over the targets of a functor, and over the slots
that a copy clones.  They hold for any relation between worlds, from what one round does.
-/

namespace Sigc

open Reasoning Prog

variable {V : Type} {R : World V → World V → Prop} [Std.Refl R]

/-- The object that is read is the one that is there. -/
theorem load_within {α β : Type} {k : Halt} {g : World V → Option α} {f : α → M V β} {w : World V}
    (h : ∀ a, g w = some a → R w (f a w).2) : R w ((deref k g >>= f) w).2 := by
  cases hg : g w with
  | none =>
    rw [bind_of_halt (deref_of_none hg)]
    exact Std.Refl.refl w
  | some a =>
    rw [bind_of_ret (deref_of_some hg)]
    exact h a hg

theorem within_load {α β : Type} {k : Halt} {g : World V → Option α} {f : α → M V β}
    (h : ∀ w a, g w = some a → R w (f a w).2) : Within R (deref k g >>= f) :=
  fun w => load_within (h w)

open Classical in
/-- A run of `x` that does not go by `R` is cut off. -/
noncomputable def guarded {α : Type} (R : World V → World V → Prop) (x : M V α) : M V α :=
  fun w => if R w (x w).2 then x w else (.halt .fuel, w)

/-- The calls of other code that go by `R`. -/
noncomputable def Env.within (R : World V → World V → Prop) (u : Env V) : Env V where
  call c := guarded R (u.call c)
  fuel := u.fuel

omit [Std.Refl R] in
theorem guarded_cases {α : Type} (x : M V α) (w : World V) :
    (guarded R x w).2 = w ∨ R w (guarded R x w).2 := by
  unfold guarded
  split
  -- The run is kept; otherwise it is cut off where it began.
  · rename_i hR
    exact .inr hR
  · exact .inl rfl

theorem guarded_within {α : Type} (x : M V α) : Within R (guarded R x) := by
  intro w
  obtain hsame | hR := guarded_cases (R := R) x w
  · rw [hsame]
    exact Std.Refl.refl w
  · exact hR

omit [Std.Refl R] in
/-- A run that goes by `R` anyway. -/
theorem guarded_of_within {α : Type} {x : M V α} (h : Within R x) : guarded R x = x := by
  funext w
  unfold guarded
  rw [if_pos (h w)]

omit [Std.Refl R] in
/-- Cutting a run off is running out of fuel. -/
theorem wp_guarded {α : Type} {x : M V α} {Q : α → World V → Prop} {E : Nat → World V → Prop}
    {H : Halt → World V → Prop} {w : World V} (h : wp x Q E H w) (fuel : H .fuel w) :
    wp (guarded R x) Q E H w := by
  by_cases hR : R w (x w).2
  · have hsame : guarded R x w = x w := if_pos hR
    unfold wp at h ⊢
    rwa [hsame]
  · have hcut : guarded R x w = (.halt .fuel, w) := if_neg hR
    unfold wp
    rwa [hcut]

variable [IsTrans (World V) R]

namespace Trackable

variable {u : Env V} {t : Addr}

theorem callbackLoop_within {deps : List Dependent}
    (hcb : ∀ w tr cb, w.trackables t = some tr → cb ∈ tr.callbacks.callbacks →
      R w (runCallback u cb w).2)
    (htop : ∀ w pos, R w (w.setTop (.notifying t pos deps))) (n : Nat) :
    ∀ pos, Within R (callbackLoop u t deps n pos) := by
  induction n with
  | zero =>
    intro pos
    exact within_halt _
  | succ n ih =>
    intro pos w
    refine load_within fun l hl => ?_
    obtain ⟨tr, htr, hlist⟩ := Option.bind_eq_some_iff.mp hl
    cases hpos : l.callbacks[pos]? with
    | none => exact Std.Refl.refl w
    | some cb =>
      have hmem : cb ∈ tr.callbacks.callbacks := by
        rw [callbacks, hlist]
        exact List.mem_of_getElem? hpos
      -- The callback runs first; the list is read again before the loop goes on.
      refine within_bind_at (hcb w tr cb htr hmem) fun _ v _ => ?_
      refine within_bind (within_deref _ _) (fun l' => within_ite ?_ (within_halt _)) v
      exact within_bind (within_modify fun v => htop v _) fun _ => ih _

/-- What deleting the list of callbacks respects, where setting `clearing_` and dropping the list
do. -/
theorem notifyCallbacks_within
    (hcb : ∀ w tr cb, w.trackables t = some tr → cb ∈ tr.callbacks.callbacks →
      R w (runCallback u cb w).2) (htop : ∀ w f, R w (w.setTop f)) (hrecord : ∀ w e, R w (w.record e))
    (hbegin : ∀ w tr l f, w.trackables t = some tr → tr.callbackList = some l →
      R w ((w.setTrackable t (some { tr with
        callbackList := some { l with clearing := true } })).push f))
    (hend : ∀ w tr e, w.trackables t = some tr →
      R w ((w.setTrackable t (some { tr with callbackList := none })).record e).pop) :
    Within R (notifyCallbacks u t) := by
  intro w
  refine load_within fun tr htr => ?_
  rw [read_bind_run]
  cases hl : tr.callbackList with
  | none => exact hrecord w _
  | some l =>
    dsimp only
    -- A notification within the notification of the same trackable does nothing.
    split
    · exact Std.Refl.refl w
    · refine within_bind_at (hbegin w tr l (.notifying t 0 (w.dependents t)) htr hl) fun _ v _ => ?_
      refine within_bind (callbackLoop_within hcb (fun v _ => htop v _) _ _) (fun _ v => ?_) _
      exact load_within fun tr' htr' => hend v tr' _ htr'

end Trackable

theorem visitEach_within {action : Target → M V Unit} (ha : ∀ t, Within R (action t))
    (f : Functor) : Within R (visitEach action f) := by
  induction f with
  | nil => exact within_pure _
  | cons t ts ih => exact within_bind (ha t) fun _ => ih

namespace SlotBase

theorem copyFunctor_within {copySlot : SlotAddr → M V SlotAddr} (hc : ∀ s, Within R (copySlot s))
    (f : Functor) : Within R (copyFunctor copySlot f) := by
  induction f with
  | nil => exact within_pure _
  | cons t ts ih =>
    cases t with
    | trackable t => exact within_bind ih fun _ => within_pure _
    | slot s => exact within_bind (hc s) fun _ => within_bind ih fun _ => within_pure _

theorem copyInit_within (hc : ∀ init, Within R (construct .functor init : M V SlotAddr)) (n : Nat) :
    ∀ src, Within R (copyInit n src : M V SlotInit) := by
  induction n with
  | zero =>
    intro src
    exact within_halt _
  | succ n ih =>
    intro src
    refine within_bind (within_deref _ _) fun sl => ?_
    cases sl.rep with
    | none => exact within_pure _
    | some r =>
      refine within_bind (within_deref _ _) fun rep => within_ite ?_ (within_pure _)
      -- Only a slot that can be called is cloned, with the slots stored in it.
      refine within_bind (within_deref _ _) fun f => within_bind ?_ fun _ => within_pure _
      exact copyFunctor_within (fun s => within_bind (ih s) fun _ => hc _) f

end SlotBase

end Sigc
