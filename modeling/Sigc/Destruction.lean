import Sigc.Client
import Sigc.RegistrationSteps
import Sigc.Sparing

/-!
# The destruction of functors

The slots stored in a functor are destroyed with it, and so are those stored in their functors, to
any depth.  Nothing else is, as long as the client code that runs meanwhile touches none of them.
-/

namespace Sigc

open Reasoning Prog

variable {V : Type} {w w' v : World V}

/-! ## What a functor stores -/

/-- The functor of the slot `t`. -/
def World.inner (w : World V) (t : SlotAddr) : Option Functor :=
  ((w.slots t).bind (·.rep)).bind fun r => (functorsOf w.reps r).join

/-- The slot `s` is stored in the functor, or in the functor of a slot that is, and so on.  `inner`
gives the functors of the slots. -/
inductive Stores (inner : SlotAddr → Option Functor) : Functor → SlotAddr → Prop where
  | here {f s} (h : .slot s ∈ f) : Stores inner f s
  | deeper {f t g s} (h : .slot t ∈ f) (functor : inner t = some g) (stored : Stores inner g s) :
    Stores inner f s

/-- The slot `s` is destroyed with the functor of the slot `dst`. -/
def World.StoredIn (w : World V) (dst s : SlotAddr) : Prop :=
  ∃ f, w.inner dst = some f ∧ Stores w.inner f s

section Stores

variable {inner inner' : SlotAddr → Option Functor} {D Q : SlotAddr → Prop} {f : Functor}
  {s : SlotAddr}

theorem Stores.mem (hclosed : ∀ t g x, D t → inner t = some g → .slot x ∈ g → D x)
    (hf : ∀ x, .slot x ∈ f → D x) (h : Stores inner f s) : D s := by
  induction h with
  | here hmem => exact hf _ hmem
  | deeper hmem functor _ ih =>
    apply ih
    intro x hx
    exact hclosed _ _ x (hf _ hmem) functor hx

theorem Stores.snoc {t : SlotAddr} {g : Functor} (h : Stores inner f t) (functor : inner t = some g)
    (hs : .slot s ∈ g) : Stores inner f s := by
  induction h with
  | here hmem => exact .deeper hmem functor (.here hs)
  | deeper hmem inside _ ih => exact .deeper hmem inside (ih functor)

theorem not_stores_nil : ¬Stores inner [] s := by
  intro h
  cases h with
  | here hmem => cases hmem
  | deeper hmem _ _ => cases hmem

/-- A functor stores what its first target is or stores, and what the others do. -/
theorem stores_cons {t : Target} (h : Stores inner (t :: f) s) :
    t = .slot s ∨ (∃ x g, t = .slot x ∧ inner x = some g ∧ Stores inner g s) ∨
      Stores inner f s := by
  cases h with
  | here hmem =>
    cases List.mem_cons.mp hmem with
    | inl heq => exact .inl heq.symm
    | inr hmem => exact .inr (.inr (.here hmem))
  | deeper hmem functor stored =>
    cases List.mem_cons.mp hmem with
    | inl heq => exact .inr (.inl ⟨_, _, heq.symm, functor, stored⟩)
    | inr hmem => exact .inr (.inr (.deeper hmem functor stored))

/-- The slots of `D` may lose their functors; but then `Q` holds of all that these have stored. -/
theorem Stores.transfer (hclosed : ∀ t g x, D t → inner t = some g → .slot x ∈ g → D x)
    (h : ∀ t g, D t → inner t = some g →
      inner' t = some g ∨ ∀ x, Stores inner g x → Stores inner' g x ∨ Q x → Q x)
    (hf : ∀ x, .slot x ∈ f → D x) (hs : Stores inner f s) : Stores inner' f s ∨ Q s := by
  -- on the path from the functor to the slot: it is either kept, or lost from some slot on
  induction hs with
  | here hmem => exact .inl (.here hmem)
  | deeper hmem functor stored ih =>
    have hrest := ih fun x hx => hclosed _ _ x (hf _ hmem) functor hx
    cases h _ _ (hf _ hmem) functor with
    | inl hsame => exact hrest.imp_left fun hs => .deeper hmem hsame hs
    | inr hlost => exact .inr (hlost _ stored hrest)

end Stores

theorem functorsOf_core (r : Addr) : functorsOf w.reps r = (w.core r).map (·.2) := by
  unfold functorsOf World.core
  cases w.reps r <;> rfl

theorem functorsOf_eq_some {reps : Addr → Option SlotRep} {r : Addr} {g : Functor} :
    (functorsOf reps r).join = some g ↔ functorsOf reps r = some (some g) := by
  rcases functorsOf reps r with _ | _ | _ <;> simp

theorem World.inner_eq_some {t : SlotAddr} {g : Functor} :
    w.inner t = some g ↔ ∃ sl r, w.slots t = some sl ∧ sl.rep = some r ∧
      functorsOf w.reps r = some (some g) := by
  unfold inner
  cases w.slots t with
  | none => simp
  | some sl =>
    cases hr : sl.rep with
    | none => simp [hr]
    | some r => simp [hr, functorsOf_eq_some]

/-! ## Wrecks -/

section Wrecks

variable (D : SlotAddr → Prop) (R : Addr → Prop) (P : Addr → Prop) (S : SlotAddr → Prop)

/-- The slots in `D` have their reps in `R`, and these store nothing but slots in `D`. -/
structure World.Closed (w : World V) : Prop where
  below : ∀ t, D t → t.Below w.next
  lt : ∀ r, R r → r < w.next
  rep : ∀ t sl r, D t → w.slots t = some sl → sl.rep = some r → R r
  functor : ∀ r g x, R r → functorsOf w.reps r = some (some g) → .slot x ∈ g → D x

/-- Slots in `D` have been destroyed, each with everything that it stores, and reps in `R`; the
other slots in `S` and the other reps in `P` are as they were. -/
structure World.Wrecks (w w' : World V) : Prop where
  spares : w.Spares (fun r => P r ∧ ¬R r) (fun s => S s ∧ ¬D s) w'
  rep : ∀ t sl r, D t → w'.slots t = some sl → sl.rep = some r →
    ∃ sl', w.slots t = some sl' ∧ sl'.rep = some r
  functor : ∀ r g, R r → functorsOf w'.reps r = some (some g) → functorsOf w.reps r = some (some g)
  gone : ∀ t, D t → w.slots t = none → w'.slots t = none
  complete : ∀ t g, D t → w.inner t = some g →
    w'.inner t = some g ∨ ∀ s, Stores w.inner g s → w'.slots s = none

end Wrecks

variable {D : SlotAddr → Prop} {R P : Addr → Prop} {S : SlotAddr → Prop}

theorem World.Closed.inner (hw : w.Closed D R) {t x : SlotAddr} {g : Functor} (ht : D t)
    (hg : w.inner t = some g) (hx : .slot x ∈ g) : D x := by
  obtain ⟨sl, r, hsl, hr, hfunctor⟩ := World.inner_eq_some.mp hg
  exact hw.functor r g x (hw.rep t sl r ht hsl hr) hfunctor hx

namespace World.Wrecks

theorem refl (w : World V) : w.Wrecks D R P S w where
  spares := .refl w
  rep _ sl _ _ hsl hr := ⟨sl, hsl, hr⟩
  functor _ _ _ h := h
  gone _ _ h := h
  complete _ _ _ h := .inl h

theorem closed (h : w.Wrecks D R P S w') (hw : w.Closed D R) : w'.Closed D R where
  below t ht a ha := Nat.lt_of_lt_of_le (hw.below t ht a ha) h.spares.next
  lt r hr := Nat.lt_of_lt_of_le (hw.lt r hr) h.spares.next
  rep t sl r ht hsl hr := by
    obtain ⟨sl', hsl', hr'⟩ := h.rep t sl r ht hsl hr
    exact hw.rep t sl' r ht hsl' hr'
  functor r g x hr hg hx := hw.functor r g x hr (h.functor r g hr hg) hx

/-- What was stored is stored still, or has been destroyed. -/
theorem transfer (h : w.Wrecks D R P S w') (hw : w.Closed D R) {f : Functor} {s : SlotAddr}
    (hf : ∀ x, .slot x ∈ f → D x) (hs : Stores w.inner f s) :
    Stores w'.inner f s ∨ w'.slots s = none := by
  apply hs.transfer (D := D) (Q := fun x => w'.slots x = none) _ _ hf
  · intro t g x ht hg hx
    exact hw.inner ht hg hx
  · intro t g ht hg
    exact (h.complete t g ht hg).imp_right fun hlost x hx _ => hlost x hx

theorem trans (h : w.Wrecks D R P S v) (h' : v.Wrecks D R P S w') (hw : w.Closed D R) :
    w.Wrecks D R P S w' where
  spares := h.spares.trans h'.spares
  rep t sl r ht hsl hr := by
    obtain ⟨sl', hsl', hr'⟩ := h'.rep t sl r ht hsl hr
    exact h.rep t sl' r ht hsl' hr'
  functor r g hr hg := h.functor r g hr (h'.functor r g hr hg)
  gone t ht hnone := h'.gone t ht (h.gone t ht hnone)
  complete t g ht hg := by
    have hmem : ∀ x, .slot x ∈ g → D x := fun x hx => hw.inner ht hg hx
    have hstored {s : SlotAddr} (hs : Stores w.inner g s) : D s :=
      hs.mem (fun _ _ _ => hw.inner) hmem
    cases h.complete t g ht hg with
    | inr hlost => exact .inr fun s hs => h'.gone s (hstored hs) (hlost s hs)
    | inl hsame =>
      refine (h'.complete t g ht hsame).imp_right fun hlost s hs => ?_
      cases h.transfer hw hmem hs with
      | inl hs' => exact hlost s hs'
      | inr hnone => exact h'.gone s (hstored hs) hnone

/-- What spares all of them is no wreck. -/
theorem of_spares (h : w.Spares P S w') (hw : w.Closed D R) (hD : ∀ t, D t → S t)
    (hR : ∀ r, R r → P r) : w.Wrecks D R P S w' := by
  have hslot : ∀ t, D t → w'.slots t = w.slots t := fun t ht =>
    h.slots t (hD t ht) (hw.below t ht)
  have hfunctor : ∀ r, R r → functorsOf w'.reps r = functorsOf w.reps r := by
    intro r hr
    rw [functorsOf_core, functorsOf_core, h.cores r (hR r hr) (hw.lt r hr)]
  refine ⟨h.mono (fun _ h => h.1) fun _ h => h.1, ?_, ?_, ?_, ?_⟩
  · intro t sl r ht hsl hr
    exact ⟨sl, (hslot t ht).symm.trans hsl, hr⟩
  · intro r g hr hg
    rwa [hfunctor r hr] at hg
  · intro t ht hnone
    rwa [hslot t ht]
  · intro t g ht hg
    left
    obtain ⟨sl, r, hsl, hr, hg⟩ := World.inner_eq_some.mp hg
    have hr' := hw.rep t sl r ht hsl hr
    exact World.inner_eq_some.mpr ⟨sl, r, (hslot t ht).trans hsl, hr, (hfunctor r hr').trans hg⟩

theorem of_heap (slots : w'.slots = w.slots) (reps : w'.reps = w.reps) (next : w.next ≤ w'.next) :
    w.Wrecks D R P S w' where
  spares := .of_heap slots reps next
  rep t sl r _ hsl hr := ⟨sl, by rwa [← slots], hr⟩
  functor r g _ hg := by rwa [← reps]
  gone t _ hnone := by rwa [slots]
  complete t g _ hg := by
    left
    unfold World.inner at hg ⊢
    rwa [slots, reps]

/-- A rep in `R` is disconnected. -/
theorem setRep {r : Addr} {rep rep' : SlotRep} (hr : R r) (hrep : w.reps r = some rep)
    (hfunctor : rep'.functor = rep.functor) (hcall : rep'.call = false) :
    w.Wrecks D R P S (w.setRep r (some rep')) := by
  have hsame : functorsOf (w.setRep r (some rep')).reps = functorsOf w.reps :=
    functorsOf_setRep hrep hfunctor
  constructor
  · exact SlotRep.setOff_spares (fun h => h.2 hr) hcall
  · intro t sl q _ hsl hq
    exact ⟨sl, hsl, hq⟩
  · intro q g _ hg
    rwa [hsame] at hg
  · intro t _ hnone
    exact hnone
  · intro t g _ hg
    left
    unfold World.inner at hg ⊢
    rwa [hsame]

end World.Wrecks

theorem SlotRep.disconnect_wrecks {u : Env V} {cleanup : Addr → M V Unit} {r : Addr}
    (hu : ∀ d, Within (World.Spares P S) (u.call (.notify d)))
    (hc : ∀ d, Within (World.Spares P S) (cleanup d)) (hD : ∀ t, D t → S t)
    (hR : ∀ q, R q → P q) (hr : R r) (hw : w.Closed D R)
    (h : disconnect u cleanup r w = (.ret (), w')) : w.Wrecks D R P S w' := by
  obtain ⟨rep, w₁, hload, h⟩ := bind_eq_ret.mp h
  obtain ⟨hrep, rfl⟩ := deref_eq_ret.mp hload
  obtain ⟨call, cleanup', parent, functor⟩ := rep
  have hset : w.Wrecks D R P S (w.setRep r (some ⟨false, cleanup', none, functor⟩)) :=
    World.Wrecks.setRep hr hrep rfl rfl
  have hsever : w.Wrecks D R P S ((w.setRep r (some ⟨false, cleanup', none, functor⟩)).record
      (.disconnected r)) :=
    hset.trans (.of_heap rfl rfl (Nat.le_refl _)) hw
  cases parent with
  | none =>
    obtain rfl := modify_eq_ret.mp h
    exact hsever
  | some d =>
    have htold {m : M V Unit} (hm : Within (World.Spares P S) m)
        (h : m ((w.setRep r (some ⟨false, cleanup', none, functor⟩)).record (.disconnected r)) =
          (.ret (), w')) : w.Wrecks D R P S w' :=
      hsever.trans (.of_spares (hm.of_ret h) (hsever.closed hw) hD hR) hw
    cases cleanup' with
    | none => cases h
    | some func =>
      cases func with
      | notifySlotRepInvalidated => exact htold (within_bind (hu d) fun _ => within_pure _) h
      | notifySelfAndIterOfInvalidatedSlot => exact htold (hc d) h
      | notifyObjectInvalidated => cases h

/-! ## Deletion -/

/-- The destructor of a functor destroys all that the functor stores.  Other code leaves the slots
in `S` and the reps in `P` alone. -/
structure Env.Destroys (D : SlotAddr → Prop) (R P : Addr → Prop) (S : SlotAddr → Prop)
    (u : Env V) : Prop where
  client : Within (World.Spares P S) (u.call (.client true))
  notify : ∀ d, Within (World.Spares P S) (u.call (.notify d))
  functorDtor : ∀ (r : Addr) (f : Functor) (w w' : World V) (v : V), w.Closed D R →
    (∀ x, .slot x ∈ f → D x) → u.call (.functorDtor r f) w = (.ret v, w') →
      w.Wrecks D R P S w' ∧ ∀ s, Stores w.inner f s → w'.slots s = none

section Delete

variable {u : Env V} {q : Addr} {s : SlotAddr}

namespace SlotRep

/-- The functor is destroyed with all that it stores, and the rep is left without one. -/
theorem destroy_wrecks (hu : u.Destroys D R P S) (hq : R q) (hw : w.Closed D R)
    (h : destroy u q w = (.ret (), w')) :
    w.Wrecks D R P S w' ∧ (∀ g, functorsOf w'.reps q ≠ some (some g)) ∧
      ∀ g, functorsOf w.reps q = some (some g) → ∀ s, Stores w.inner g s → w'.slots s = none := by
  obtain ⟨fo, w₁, hdetach, h⟩ := bind_eq_ret.mp h
  have hspares := (detachFunctor_spares (P := fun r => P r ∧ ¬R r) (S := fun s => S s ∧ ¬D s)
    fun h => h.2 hq).of_ret hdetach
  obtain ⟨tks, rps, rfl, hfo, _, hfns⟩ := detachFunctor_functors hdetach
  generalize hw₁ : ({ w with trackables := tks, reps := rps } : World V) = w₁ at h hspares
  have hslots : w₁.slots = w.slots := by rw [← hw₁]
  have hnext : w₁.next = w.next := by rw [← hw₁]
  have hreps : functorsOf w₁.reps = Function.update (functorsOf w.reps) q (some none) := by
    rw [← hw₁]
    exact hfns
  have hothers {r : Addr} (hr : r ≠ q) : functorsOf w₁.reps r = functorsOf w.reps r := by
    rw [hreps, Function.update_of_ne hr]
  have hbare : functorsOf w₁.reps q = some none := by rw [hreps, Function.update_self]
  have hless (r : Addr) (g : Functor) (hg : functorsOf w₁.reps r = some (some g)) :
      functorsOf w.reps r = some (some g) := by
    by_cases hr : r = q
    · subst hr
      rw [hbare] at hg
      cases hg
    · rwa [hothers hr] at hg
  have hclosed : w₁.Closed D R := by
    constructor
    · intro t ht
      rw [hnext]
      exact hw.below t ht
    · intro r hr
      rw [hnext]
      exact hw.lt r hr
    · intro t sl r ht hsl hr
      rw [hslots] at hsl
      exact hw.rep t sl r ht hsl hr
    · intro r g x hr hg hx
      exact hw.functor r g x hr (hless r g hg) hx
  -- the slots that have this rep lose their functor, and no others do
  have hinner {t : SlotAddr} {g : Functor} (hg : w.inner t = some g) :
      w₁.inner t = some g ∨ fo = some g := by
    obtain ⟨sl, r, hsl, hr, hg⟩ := World.inner_eq_some.mp hg
    by_cases heq : r = q
    · subst heq
      right
      exact Option.some.inj (hfo.symm.trans hg)
    · left
      exact World.inner_eq_some.mpr ⟨sl, r, hslots ▸ hsl, hr, (hothers heq).trans hg⟩
  have htransfer {f : Functor} {s : SlotAddr} (hf : ∀ x, .slot x ∈ f → D x)
      (hs : Stores w.inner f s) : Stores w₁.inner f s ∨ Stores w₁.inner (fo.getD []) s := by
    apply hs.transfer (D := D) (Q := Stores w₁.inner (fo.getD [])) _ _ hf
    · intro t g x ht hg hx
      exact hw.inner ht hg hx
    · intro t g _ hg
      refine (hinner hg).imp_right fun hlost x _ hx => ?_
      subst hlost
      exact hx.elim id id
  have hafter : w₁.Wrecks D R P S w' ∧ ∀ s, Stores w₁.inner (fo.getD []) s → w'.slots s = none := by
    cases fo with
    | none =>
      obtain ⟨_, rfl⟩ := pure_eq_ret.mp h
      exact ⟨.refl _, fun s hs => absurd hs not_stores_nil⟩
    | some f =>
      obtain ⟨v, w₂, hcall, h⟩ := bind_eq_ret.mp h
      obtain ⟨_, rfl⟩ := pure_eq_ret.mp h
      exact hu.functorDtor q f _ _ v hclosed (fun x => hw.functor q f x hq hfo) hcall
  obtain ⟨hwrecks, hgone⟩ := hafter
  have hstored {f : Functor} {s : SlotAddr} (hf : ∀ x, .slot x ∈ f → D x)
      (hlost : ∀ s, Stores w₁.inner f s → w'.slots s = none) (hs : Stores w.inner f s) :
      w'.slots s = none :=
    (htransfer hf hs).elim (hlost s) (hgone s)
  have hown {g : Functor} (hg : fo = some g) {s : SlotAddr} (hs : Stores w.inner g s) :
      w'.slots s = none := by
    subst hg
    exact hstored (fun x => hw.functor q g x hq hfo) hgone hs
  refine ⟨⟨hspares.trans hwrecks.spares, ?_, ?_, ?_, ?_⟩, ?_, ?_⟩
  · intro t sl r ht hsl hr
    obtain ⟨sl', hsl', hr'⟩ := hwrecks.rep t sl r ht hsl hr
    exact ⟨sl', hslots ▸ hsl', hr'⟩
  · intro r g hr hg
    exact hless r g (hwrecks.functor r g hr hg)
  · intro t ht hnone
    exact hwrecks.gone t ht (hslots ▸ hnone)
  · intro t g ht hg
    cases hinner hg with
    | inl hsame =>
      refine (hwrecks.complete t g ht hsame).imp_right fun hlost s hs => ?_
      exact hstored (fun x => hw.inner ht hg) hlost hs
    | inr hlost => exact .inr fun s hs => hown hlost hs
  · intro g hg
    have hbefore := hwrecks.functor q g hq hg
    rw [hbare] at hbefore
    cases hbefore
  · intro g hg s hs
    exact hown (Option.some.inj (hfo.symm.trans hg)) hs

theorem delete_wrecks (hu : u.Destroys D R P S) (hD : ∀ t, D t → S t) (hR : ∀ r, R r → P r)
    (hq : R q) (hw : w.Closed D R) (h : SlotRep.delete u q w = (.ret (), w')) :
    w.Wrecks D R P S w' ∧ w'.reps q = none ∧
      ∀ g, functorsOf w.reps q = some (some g) → ∀ s, Stores w.inner g s → w'.slots s = none := by
  obtain ⟨_, w₀, hload, h⟩ := bind_eq_ret.mp h
  obtain ⟨_, rfl⟩ := deref_eq_ret.mp hload
  obtain ⟨base, w₀, hload, h⟩ := bind_eq_ret.mp h
  obtain ⟨_, rfl⟩ := deref_eq_ret.mp hload
  split at h
  · cases h
  · rw [modify_bind_run] at h
    obtain ⟨_, w₁, hdestroy, h⟩ := bind_eq_ret.mp h
    obtain ⟨_, w₂, hnotify, h⟩ := bind_eq_ret.mp h
    obtain rfl := modify_eq_ret.mp h
    -- ~slot_rep() begins: the base is marked, nothing is gone yet.
    have hbegin : w.Wrecks D R P S ((w.setTrackable q (some { base with dying := true })).push
        (.deleting q)) := .of_heap rfl rfl (Nat.le_refl _)
    -- destroy() takes the functor with all that is stored in it, to any depth.
    obtain ⟨h₁, hbare, hgone⟩ := destroy_wrecks hu hq (hbegin.closed hw) hdestroy
    have hclosed := h₁.closed (hbegin.closed hw)
    -- ~trackable() notifies the connections of the rep, which destroys no slot.
    have h₂ := World.Wrecks.of_spares (D := D) (R := R)
      ((Trackable.notifyCallbacks_spares hu.notify q).of_ret hnotify) hclosed hD hR
    have hbare₂ : ∀ g, functorsOf w₂.reps q ≠ some (some g) := by
      intro g hg
      exact hbare g (h₂.functor q g hq hg)
    -- The storage of the rep is given back; nothing could be reached through it any more.
    have h₃ : w₂.Wrecks D R P S ((w₂.setRep q none).setTrackable q none).pop := by
      constructor
      · exact (World.Spares.setOther (fun h => h.2 hq) (by simp)).trans
          (.of_heap rfl rfl (Nat.le_refl _))
      · intro t sl r _ hsl hr
        exact ⟨sl, hsl, hr⟩
      · intro r g hr hg
        change functorsOf (Function.update w₂.reps q none) r = _ at hg
        rw [functorsOf_update] at hg
        by_cases heq : r = q
        · subst heq
          rw [Function.update_self] at hg
          cases hg
        · rwa [Function.update_of_ne heq] at hg
      · intro t _ hnone
        exact hnone
      · intro t g _ hg
        left
        obtain ⟨sl, r, hsl, hr, hg⟩ := World.inner_eq_some.mp hg
        have heq : r ≠ q := fun heq => hbare₂ g (heq ▸ hg)
        refine World.inner_eq_some.mpr ⟨sl, r, hsl, hr, ?_⟩
        show functorsOf (Function.update w₂.reps q none) r = _
        rw [functorsOf_update, Function.update_of_ne heq, hg]
    have hclosed₂ := h₂.closed hclosed
    refine ⟨(hbegin.trans h₁ hw).trans (h₂.trans h₃ hclosed) hw, Function.update_self .., ?_⟩
    intro g hg s hs
    have hmem : D s := hs.mem (fun _ _ _ => hw.inner) fun x => hw.functor q g x hq hg
    exact h₃.gone s hmem (h₂.gone s hmem (hgone g hg s hs))

end SlotRep

theorem World.setSlot_self (x : Option SlotBase) : (w.setSlot s x).slots s = x :=
  Function.update_self ..

/-- A slot is destroyed with all that it stores. -/
theorem SlotBase.destroy_wrecks (hu : u.Destroys D R P S) (hD : ∀ t, D t → S t)
    (hR : ∀ r, R r → P r) (hs : D s) (hw : w.Closed D R) (h : destroy u s w = (.ret (), w')) :
    w.Wrecks D R P S w' ∧ w'.slots s = none := by
  obtain ⟨sl, w₀, hload, h⟩ := bind_eq_ret.mp h
  obtain ⟨hsl, rfl⟩ := deref_eq_ret.mp hload
  rw [modify_bind_run] at h
  obtain ⟨_, w₁, hdelete, h⟩ := bind_eq_ret.mp h
  obtain rfl := modify_eq_ret.mp h
  have hbegin : w.Wrecks D R P S (w.setSlot s (some { sl with dying := true })) := by
    constructor
    · exact .setSlot (fun h => h.2 hs) _
    · intro t sl' r _ hsl' hr
      by_cases heq : t = s
      · subst heq
        rw [World.setSlot_self] at hsl'
        obtain rfl := Option.some.inj hsl'
        exact ⟨sl, hsl, hr⟩
      · exact ⟨sl', (Function.update_of_ne heq _ _).symm.trans hsl', hr⟩
    · intro r g _ hg
      exact hg
    · intro t _ hnone
      by_cases heq : t = s
      · subst heq
        rw [hsl] at hnone
        cases hnone
      · exact (Function.update_of_ne heq _ _).trans hnone
    · intro t g _ hg
      left
      obtain ⟨sl', r, hsl', hr, hg⟩ := World.inner_eq_some.mp hg
      by_cases heq : t = s
      · subst heq
        obtain rfl := Option.some.inj (hsl.symm.trans hsl')
        exact World.inner_eq_some.mpr ⟨_, r, Function.update_self .., hr, hg⟩
      · exact World.inner_eq_some.mpr
          ⟨sl', r, (Function.update_of_ne heq _ _).trans hsl', hr, hg⟩
  have hclosed := hbegin.closed hw
  -- the rep of the slot, if there is one, is gone
  have hdeleted : (w.setSlot s (some { sl with dying := true })).Wrecks D R P S w₁ ∧
      ∀ r, sl.rep = some r → w₁.reps r = none := by
    have hreps := hw.rep s sl
    generalize sl.rep = rep, w.setSlot s _ = w₀ at hreps hclosed hdelete ⊢
    cases rep with
    | none =>
      obtain ⟨_, rfl⟩ := pure_eq_ret.mp hdelete
      exact ⟨.refl _, fun _ h => by cases h⟩
    | some r =>
      obtain ⟨h₁, hnone, _⟩ := SlotRep.delete_wrecks hu hD hR (hreps r hs hsl rfl) hclosed hdelete
      refine ⟨h₁, fun r' hr' => ?_⟩
      obtain rfl := Option.some.inj hr'
      exact hnone
  obtain ⟨h₁, hnone⟩ := hdeleted
  have h₂ : w₁.Wrecks D R P S (w₁.setSlot s none) := by
    constructor
    · exact .setSlot (fun h => h.2 hs) _
    · intro t sl' r _ hsl' hr
      by_cases heq : t = s
      · subst heq
        rw [World.setSlot_self] at hsl'
        cases hsl'
      · exact ⟨sl', (Function.update_of_ne heq _ _).symm.trans hsl', hr⟩
    · intro r g _ hg
      exact hg
    · intro t _ hgone
      by_cases heq : t = s
      · subst heq
        exact Function.update_self ..
      · exact (Function.update_of_ne heq _ _).trans hgone
    · intro t g ht hg
      left
      obtain ⟨sl', r, hsl', hr, hg⟩ := World.inner_eq_some.mp hg
      by_cases heq : t = s
      · subst heq
        obtain ⟨sl₁, hsl₁, hr₁⟩ := h₁.rep t sl' r ht hsl' hr
        rw [World.setSlot_self] at hsl₁
        obtain rfl := Option.some.inj hsl₁
        rw [functorsOf, hnone r hr₁] at hg
        cases hg
      · exact World.inner_eq_some.mpr
          ⟨sl', r, (Function.update_of_ne heq _ _).trans hsl', hr, hg⟩
  exact ⟨(hbegin.trans h₁ hw).trans h₂ hw, Function.update_self ..⟩

theorem functorDtorLoop_wrecks (hu : u.Destroys D R P S) (hD : ∀ t, D t → S t)
    (hR : ∀ r, R r → P r) (r : Addr) (f : Functor) :
    ∀ {w w' : World V}, w.Closed D R → (∀ x, .slot x ∈ f → D x) →
      functorDtorLoop u r f w = (.ret (), w') →
        w.Wrecks D R P S w' ∧ ∀ s, Stores w.inner f s → w'.slots s = none := by
  -- on the targets left: a slot among them takes what is stored in it along
  induction f with
  | nil =>
    intro w w' hw _ h
    obtain ⟨_, w₁, hclient, h⟩ := bind_eq_ret.mp h
    obtain ⟨_, rfl⟩ := pure_eq_ret.mp h
    exact ⟨.of_spares (hu.client.of_ret hclient) hw hD hR, fun s hs => absurd hs not_stores_nil⟩
  | cons t ts ih =>
    intro w w' hw hf h
    have hts : ∀ x, .slot x ∈ ts → D x := fun x hx => hf x (List.mem_cons_of_mem _ hx)
    cases t with
    | trackable t =>
      rw [functorDtorLoop, modify_bind_run] at h
      have h₀ : w.Wrecks D R P S (w.setTop (.functorDtor r ts)) :=
        .of_heap rfl rfl (Nat.le_refl _)
      obtain ⟨h₁, hgone⟩ := ih (h₀.closed hw) hts h
      refine ⟨h₀.trans h₁ hw, fun s hs => ?_⟩
      obtain heq | ⟨x, g, heq, _⟩ | hrest := stores_cons hs
      · cases heq
      · cases heq
      · exact hgone s hrest
    | slot x =>
      obtain ⟨_, w₁, hclient, h⟩ := bind_eq_ret.mp h
      rw [modify_bind_run] at h
      obtain ⟨_, w₂, hdestroy, h⟩ := bind_eq_ret.mp h
      have hx : D x := hf x List.mem_cons_self
      have h₁ := World.Wrecks.of_spares (hu.client.of_ret hclient) hw hD hR
      have h₁' : w₁.Wrecks D R P S (w₁.setTop (.functorDtor r ts)) :=
        .of_heap rfl rfl (Nat.le_refl _)
      have h₁₁ := h₁.trans h₁' hw
      obtain ⟨h₂, hnone⟩ := SlotBase.destroy_wrecks hu hD hR hx (h₁₁.closed hw) hdestroy
      have h₁₂ := h₁₁.trans h₂ hw
      obtain ⟨h₃, hgone⟩ := ih (h₁₂.closed hw) hts h
      refine ⟨h₁₂.trans h₃ hw, fun s hs => ?_⟩
      have hmem : D s := hs.mem (fun _ _ _ => hw.inner) hf
      obtain heq | ⟨y, g, heq, hg, hs⟩ | hrest := stores_cons hs
      · obtain rfl := Target.slot.inj heq
        exact h₃.gone _ hx hnone
      · obtain rfl := Target.slot.inj heq
        -- the slot itself is gone, and so is what it stored
        cases h₁₂.complete x g hx hg with
        | inl hsame =>
          obtain ⟨sl, _, hsl, _⟩ := World.inner_eq_some.mp hsame
          rw [hnone] at hsl
          cases hsl
        | inr hlost => exact h₃.gone s hmem (hlost s hs)
      · cases h₁₂.transfer hw hts hrest with
        | inl hs' => exact hgone s hs'
        | inr hlost => exact h₃.gone s hmem hlost

end Delete

/-! ## Nested destructors -/

section Nested

variable [Inhabited V]

/-- The destructor of a functor, with the frame that it runs in. -/
def runFunctorDtor (u : Env V) (r : Addr) (f : Functor) : M V V := do
  modify (·.push (.functorDtor r f))
  functorDtorLoop u r f
  modify (·.pop)
  pure default

theorem dispatch_functorDtor (n : Nat) (r : Addr) (f : Functor) :
    dispatch (V := V) (n + 1) (.functorDtor r f) =
      runFunctorDtor { call := dispatch n, fuel := n } r f := rfl

/-- The destructors of functors, nested to any depth, among `other` code. -/
def nested (other : Nat → Call → M V V) : Nat → Call → M V V
  | 0, _ => halt .fuel
  | n + 1, .functorDtor r f => runFunctorDtor { call := nested other n, fuel := n } r f
  | n + 1, c => other n c

def nestedEnv (other : Nat → Call → M V V) (n : Nat) : Env V where
  call := nested other n
  fuel := n

theorem nested_dispatch (n : Nat) : nested (V := V) (fun n => dispatch (n + 1)) n = dispatch n := by
  induction n with
  | zero => rfl
  | succ n ih =>
    funext c
    cases c with
    | functorDtor r f => rw [dispatch_functorDtor, ← ih]; rfl
    | _ => rfl

variable {other : Nat → Call → M V V}

theorem nested_within {Q : World V → World V → Prop} [Std.Refl Q] {c : Call}
    (h : ∀ n, Within Q (other n c)) (hc : ∀ r f, c ≠ .functorDtor r f) (n : Nat) :
    Within Q (nested other n c) := by
  cases n with
  | zero => exact within_halt _
  | succ n =>
    cases c with
    | functorDtor r f => exact absurd rfl (hc r f)
    | _ => exact h n

theorem nested_destroys (h : ∀ n c, Within (World.Spares P S) (other n c)) (hD : ∀ t, D t → S t)
    (hR : ∀ r, R r → P r) (n : Nat) : (nestedEnv other n).Destroys D R P S := by
  induction n with
  | zero => exact ⟨within_halt _, fun _ => within_halt _, fun _ _ _ _ _ _ _ h => by cases h⟩
  | succ n ih =>
    refine ⟨h n _, fun _ => h n _, fun r f w w' v hw hf hrun => ?_⟩
    change runFunctorDtor (nestedEnv other n) r f w = _ at hrun
    unfold runFunctorDtor at hrun
    rw [modify_bind_run] at hrun
    obtain ⟨_, w₁, hloop, hrun⟩ := bind_eq_ret.mp hrun
    rw [modify_bind_run] at hrun
    obtain ⟨_, rfl⟩ := pure_eq_ret.mp hrun
    have h₀ : w.Wrecks D R P S (w.push (.functorDtor r f)) := .of_heap rfl rfl (Nat.le_refl _)
    obtain ⟨h₁, hgone⟩ := functorDtorLoop_wrecks ih hD hR r f (h₀.closed hw) hf hloop
    exact ⟨(h₀.trans h₁ hw).trans (.of_heap rfl rfl (Nat.le_refl _)) hw, hgone⟩

end Nested

end Sigc
