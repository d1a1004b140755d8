import Sigc.Disconnecting

/-!
# Ownership of connections

Every sequence of operations on `scoped_connection` objects follows the books: a slot that has been
given to one is disconnected when its owner is destroyed, assigned over or told to disconnect, and
not before.  Of other code it is assumed only that it does not disconnect the slots either.
-/

namespace Sigc

open Reasoning Prog

variable {V : Type} {T : World V → Prop} {u : Env V} {w w' : World V} {b : Books} {k n r : Addr}
  {s : SlotAddr} {ρ σ : Role} {weaks : Addr → Option WeakRawPtr}

/-- The world is as the books say. -/
structure Linear (w : World V) (b : Books) : Prop extends w.Follows b where
  backed : b.Backed
  distinct : ∀ k k' ρ ρ' s, b.role k = some ρ → b.role k' = some ρ' → ρ.slot = some s →
    ρ'.slot = some s → k = k'
  old : ∀ r ∈ b.gone, r < w.next
  disconnected : ∀ r ∈ b.gone, w.Silent r

/-- What holds whenever client code operates the `scoped_connection` objects. -/
structure Kept (w : World V) (b : Books) : Prop where
  sane : w.Sane
  user : w.UserPoint
  linear : Linear w b

/-- A slot that can be given: it is connected, and no `scoped_connection` refers to it. -/
structure Books.Fresh (b : Books) (w : World V) (s : SlotAddr) (r : Addr) : Prop where
  holds : w.Holds s r
  connected : ¬w.Silent r
  new : ∀ k ρ, b.role k = some ρ → ρ.slot ≠ some s

/-- `k` tells what it owns to disconnect.  The other code that is called meanwhile leaves the books
alone, as they are from then on. -/
structure Tells [Inhabited V] (b : Books) (k : Addr) (ρ : Role) (n : Nat) (w w' : World V) :
    Prop where
  run : Connection.disconnect { call := dispatch n, fuel := n } k w = (.ret (), w')
  calls : Connection.disconnect
    (Env.within (Undisturbed (b.tell k ρ)) { call := dispatch n, fuel := n }) k w = (.ret (), w')

/-! ## Disconnecting -/

theorem Connection.disconnect_null (u : Env V) {c : Addr} (weak : w.weaks c = pointing none) :
    Connection.disconnect u c w = (.ret (), w) := by
  unfold Connection.disconnect
  have hload : loadWeak c w = (.ret { ptr := none, notifier := false }, w) :=
    deref_of_some (s := w) weak
  rw [bind_of_ret hload]
  rfl

/-- Nothing else is called when a slot is disconnected that has no parent. -/
theorem Connection.disconnect_alone (u u' : Env V) {c : Addr}
    (weak : w.weaks c = pointing (some (.slot s))) (holds : w.Holds s r)
    (alone : (w.reps r).all (·.parent.isNone) = true) :
    disconnect u c w = disconnect u' c w := by
  obtain ⟨sl, hsl, hr⟩ := holds
  have hrun (v : Env V) : disconnect v c w =
      SlotRep.disconnect v (SignalImpl.notifySelfAndIterOfInvalidatedSlot v) r w := by
    have hload : loadWeak c w = (.ret { ptr := some (.slot s), notifier := false }, w) :=
      deref_of_some (s := w) weak
    have hslot : loadSlot s w = (.ret sl, w) := deref_of_some (s := w) hsl
    unfold disconnect SlotBase.disconnect
    rw [bind_of_ret hload]
    dsimp only
    rw [bind_of_ret hslot, hr]
  rw [hrun, hrun]
  cases hrep : w.reps r with
  | none =>
    have hload : loadRep r w = (.halt (.fault .deadRep), w) := deref_of_none (s := w) hrep
    unfold SlotRep.disconnect
    rw [bind_of_halt hload, bind_of_halt hload]
  | some rep =>
    have hload : loadRep r w = (.ret rep, w) := deref_of_some (s := w) hrep
    have hparent : rep.parent = none := by simpa [hrep] using alone
    unfold SlotRep.disconnect
    rw [bind_of_ret hload, bind_of_ret hload, hparent]

theorem Connection.disconnect_silent (hu : u.Spec T) (hT : ∀ w, T w) {c : Addr}
    (hw : Sound w) (calm : w.Calm) (weak : w.weaks c = pointing (some (.slot s)))
    (holds : w.Holds s r) :
    Ends T w (disconnect u c) w fun _ w' => Goes w w' ∧ w'.Silent r := by
  obtain ⟨sl, hsl, hr⟩ := holds
  refine .load rfl fun self hself => ?_
  obtain rfl := Option.some.inj (weak.symm.trans hself)
  refine .load rfl fun sl' hsl' => ?_
  obtain rfl := Option.some.inj (hsl.symm.trans hsl')
  rw [hr]
  exact (SlotRep.disconnect_ends hu (SignalImpl.notifySelfAndIterOfInvalidatedSlot_severs hu hT)
    (.now hw (.inl calm))).mono fun _ w' h => ⟨⟨h.1, h.2.1⟩, h.2.2⟩

/-- What is to be disconnected is not owned any more. -/
theorem World.Follows.tell (h : w.Follows b) (live : b.role k = some ρ) :
    w.Follows (b.tell k ρ) := by
  -- Only the role of k has changed: it owns nothing any more.
  have horigin {k' : Addr} {ρ' : Role} (hk' : (b.tell k ρ).role k' = some ρ') :
      (∃ ρ₀, b.role k' = some ρ₀) ∧ (k' = k ∧ ρ' = ρ.told ∨ b.role k' = some ρ') := by
    obtain ⟨rfl, hρ⟩ | ⟨-, hρ⟩ := update_eq_some.mp hk'
    · exact ⟨⟨ρ, live⟩, .inl ⟨rfl, (Option.some.inj hρ).symm⟩⟩
    · exact ⟨⟨ρ', hρ⟩, .inr hρ⟩
  have howner {k' r : Addr} {s : SlotAddr} (hk' : (b.tell k ρ).role k' = some (.owner s r)) :
      b.role k' = some (.owner s r) := by
    obtain ⟨-, ⟨-, htold⟩ | hold⟩ := horigin hk'
    · cases ρ <;> cases htold
    · exact hold
  refine ⟨fun k' ρ' hk' => ?_, fun k' s r hk' => h.holds k' s r (howner hk'),
    fun k' ρ' hk' => (horigin hk').1.elim fun ρ₀ hρ₀ => h.tracks k' ρ₀ hρ₀,
    fun k' s r t hk' => h.own k' s r t (howner hk'), fun k' s r hk' hx hr => ?_,
    fun r hr => h.connected r ⟨hr.1, fun hg => hr.2 (List.mem_append_right _ hg)⟩⟩
  · obtain ⟨-, ⟨rfl, rfl⟩ | hold⟩ := horigin hk'
    · have hrefers := h.refers k' ρ live
      cases ρ with
      | owner s r => exact .inr hrefers
      | spent s => exact hrefers
      | empty => exact hrefers
    · exact h.refers k' ρ' hold
  · obtain ⟨-, ⟨rfl, htold⟩ | hold⟩ := horigin hk'
    · cases ρ with
      | owner s' r' =>
        cases htold
        obtain ⟨sl, hsl, hrep⟩ := hr
        obtain ⟨sl', hsl', hrep'⟩ := h.holds k' s r' live
        obtain rfl := Option.some.inj (hsl.symm.trans hsl')
        -- The slot still holds the rep that k owned, and this rep is to be disconnected now.
        rw [Option.some.inj (hrep.symm.trans hrep')]
        exact List.mem_append_left _ (List.mem_singleton_self r')
      | spent s' =>
        cases htold
        exact List.mem_append_right _ (h.spent k' s r live hx hr)
      | empty => cases htold
    · exact List.mem_append_right _ (h.spent k' s r hold hx hr)

namespace Linear

theorem weak_of_role (h : Linear w b) (live : b.role k = some ρ) :
    ∃ p, w.weaks k = pointing p ∧ ∀ r, p ≠ some (.rep r) :=
  (h.refers k ρ live).ptr

theorem role_of_new (h : Linear w b) (hw : w.Sane) (hk : w.next ≤ k) : b.role k = none := by
  cases hρ : b.role k with
  | none => rfl
  | some ρ =>
    obtain ⟨p, hp, -⟩ := h.weak_of_role hρ
    rw [hw.sound.weaks.eq_none hk] at hp
    cases hp

/-- Two owners do not share a rep, since a rep is in one slot. -/
theorem backed_tell (h : Linear w b) (hw : w.Linked) (live : b.role k = some ρ) :
    (b.tell k ρ).Backed := by
  intro k' s r hk'
  obtain ⟨rfl, hρ⟩ | ⟨hne, hρ⟩ := update_eq_some.mp hk'
  · cases ρ <;> cases hρ
  · obtain ⟨hgiven, hnot⟩ := h.backed k' s r hρ
    refine ⟨hgiven, fun hmem => (List.mem_append.mp hmem).elim (fun hr => ?_) hnot⟩
    cases ρ with
    | owner s' r' =>
      obtain rfl := List.mem_singleton.mp hr
      obtain ⟨sl, hsl, hrep⟩ := h.holds k' s r hρ
      obtain ⟨sl', hsl', hrep'⟩ := h.holds k s' r live
      obtain rfl := hw.unique s s' sl sl' r hsl hrep hsl' hrep'
      exact hne (h.distinct k' k _ _ s hρ live rfl rfl)
    | spent s' => cases hr
    | empty => cases hr

theorem distinct_tell (h : Linear w b) (live : b.role k = some ρ) {k₁ k₂ : Addr} {ρ₁ ρ₂ : Role}
    (h₁ : (b.tell k ρ).role k₁ = some ρ₁) (h₂ : (b.tell k ρ).role k₂ = some ρ₂)
    (hs₁ : ρ₁.slot = some s) (hs₂ : ρ₂.slot = some s) : k₁ = k₂ := by
  have horigin {k' : Addr} {ρ' : Role} (hk' : (b.tell k ρ).role k' = some ρ')
      (hs : ρ'.slot = some s) : ∃ ρ₀, b.role k' = some ρ₀ ∧ ρ₀.slot = some s := by
    obtain ⟨rfl, hρ⟩ | ⟨-, hρ⟩ := update_eq_some.mp hk'
    · obtain rfl := Option.some.inj hρ
      exact ⟨ρ, live, by cases ρ <;> exact hs⟩
    · exact ⟨ρ', hρ, hs⟩
  obtain ⟨σ₁, hσ₁, hs₁⟩ := horigin h₁ hs₁
  obtain ⟨σ₂, hσ₂, hs₂⟩ := horigin h₂ hs₂
  exact h.distinct k₁ k₂ σ₁ σ₂ s hσ₁ hσ₂ hs₁ hs₂

end Linear

/-! ## Rewiring -/

theorem Rewired.holds (h : Rewired w w' weaks) : w'.Holds s r ↔ w.Holds s r := by
  rw [World.Holds, h.slots, World.Holds]

theorem Rewired.silent (h : Rewired w w' weaks) : w'.Silent r ↔ w.Silent r := by
  rw [World.Silent, h.reps, World.Silent]

namespace Kept

/-- An owner is registered with the rep of its slot. -/
theorem own_of_tracks (hw : w.Sane) (user : w.UserPoint) (tracks : w.Tracks k)
    (weak : w.weaks k = pointing (some (.slot s))) (holds : w.Holds s r) {t : Addr}
    (ht : 0 < w.registrations k t) : t = r := by
  obtain ⟨sl, hsl, hr⟩ := holds
  exact tracks.rep_eq hw user weak hsl hr ht

/-- Connections have been rewired so that each role of the new books comes from one of the old. -/
theorem rewired (h : Kept w b) (hr : Rewired w w' weaks) (role : Addr → Option Role)
    (f : Addr → Addr)
    (origin : ∀ k ρ, role k = some ρ → ρ = .empty ∧ weaks k = pointing none ∨
      b.role (f k) = some ρ ∧ weaks k = w.weaks (f k))
    (place : ∀ k, role k ≠ none → b.role k ≠ none ∨ w.next ≤ k)
    (inj : ∀ k k' ρ ρ' s, role k = some ρ → role k' = some ρ' → ρ.slot = some s →
      ρ'.slot = some s → f k = f k' → k = k') :
    Kept w' { b with role } := by
  have hlinear := h.linear
  have hext := (hr.steps.proceeds h.sane.sound).extension
  -- A role with a slot comes from f k, and the pointer has come with it.
  have hold {k : Addr} {ρ : Role} {s : SlotAddr} (hk : role k = some ρ) (hs : ρ.slot = some s) :
      b.role (f k) = some ρ ∧ weaks k = w.weaks (f k) := by
    obtain ⟨rfl, -⟩ | h := origin k ρ hk
    · cases hs
    · exact h
  have hrefers (k : Addr) (ρ : Role) (hk : role k = some ρ) : ρ.Refers (w'.weaks k) := by
    rw [hr.weaks]
    obtain ⟨rfl, hnull⟩ | ⟨hρ, hsame⟩ := origin k ρ hk
    · exact hnull
    · exact hsame ▸ hlinear.refers _ ρ hρ
  have hholds (k : Addr) (s : SlotAddr) (r : Addr) (hk : role k = some (.owner s r)) :
      w'.Holds s r := hr.holds.mpr (hlinear.holds _ s r (hold hk rfl).1)
  -- A connection that is new has not been registered anywhere, so it is tracked trivially.
  have htracks (k : Addr) (ρ : Role) (hk : role k = some ρ) : w'.Tracks k := by
    refine hr.tracks k ?_
    obtain hne | hnew := place k (by simp [hk])
    · obtain ⟨ρ₀, hρ₀⟩ := Option.ne_none_iff_exists'.mp hne
      exact hlinear.tracks k ρ₀ hρ₀
    · exact .of_new h.sane hnew
  exact ⟨hr.sane h.sane, hr.user h.user, {
    refers := hrefers
    holds := hholds
    tracks := htracks
    own := fun k s r t hk ht => own_of_tracks (hr.sane h.sane) (hr.user h.user) (htracks k _ hk)
      (hrefers k _ hk) (hholds k s r hk) ht
    spent := fun k s r hk hx hh => by
      obtain ⟨hρ, hsame⟩ := hold hk rfl
      exact hlinear.spent _ s r hρ (hsame ▸ hr.weaks ▸ hx) (hr.holds.mp hh)
    connected := fun r hlive hsilent => hlinear.connected r hlive (hr.silent.mp hsilent)
    backed := fun k s r hk => hlinear.backed _ s r (hold hk rfl).1
    distinct := fun k k' ρ ρ' s hk hk' hs hs' => inj k k' ρ ρ' s hk hk' hs hs'
      (hlinear.distinct _ _ ρ ρ' s (hold hk hs).1 (hold hk' hs').1 hs hs')
    old := fun r hg => Nat.lt_of_lt_of_le (hlinear.old r hg) hext.next
    disconnected := fun r hg => hr.silent.mpr (hlinear.disconnected r hg) }⟩

/-- A new connection is given a slot. -/
theorem give (h : Kept w b)
    (hr : Rewired w w' (Function.update w.weaks k (pointing (some (.slot s))))) (hk : w.next ≤ k)
    (new : b.Fresh w s r) : Kept w' (b.give k s r) := by
  have hlinear := h.linear
  have hext := (hr.steps.proceeds h.sane.sound).extension
  have hnot : r ∉ b.gone := fun hg => new.connected (hlinear.disconnected r hg)
  -- Either it is the new owner, or its role is the old one.
  have hcases {k' : Addr} {ρ : Role} (hk' : (b.give k s r).role k' = some ρ) :
      k' = k ∧ ρ = .owner s r ∨ k' ≠ k ∧ b.role k' = some ρ :=
    (update_eq_some.mp hk').imp (fun h => ⟨h.1, (Option.some.inj h.2).symm⟩) id
  have hrefers (k' : Addr) (ρ : Role) (hk' : (b.give k s r).role k' = some ρ) :
      ρ.Refers (w'.weaks k') := by
    rw [hr.weaks]
    obtain ⟨rfl, rfl⟩ | ⟨hne, hρ⟩ := hcases hk'
    · exact Function.update_self _ _ _
    · rw [Function.update_of_ne hne]
      exact hlinear.refers k' ρ hρ
  have hholds (k' : Addr) (s' : SlotAddr) (r' : Addr)
      (hk' : (b.give k s r).role k' = some (.owner s' r')) : w'.Holds s' r' := by
    refine hr.holds.mpr ?_
    obtain ⟨-, heq⟩ | ⟨-, hρ⟩ := hcases hk'
    · cases heq
      exact new.holds
    · exact hlinear.holds k' s' r' hρ
  have htracks (k' : Addr) (ρ : Role) (hk' : (b.give k s r).role k' = some ρ) : w'.Tracks k' := by
    refine hr.tracks k' ?_
    obtain ⟨rfl, -⟩ | ⟨-, hρ⟩ := hcases hk'
    · exact .of_new h.sane hk
    · exact hlinear.tracks k' ρ hρ
  refine ⟨hr.sane h.sane, hr.user h.user, {
    refers := hrefers
    holds := hholds
    tracks := htracks
    own := fun k' s' r' t hk' ht => own_of_tracks (hr.sane h.sane) (hr.user h.user)
      (htracks k' _ hk') (hrefers k' _ hk') (hholds k' s' r' hk') ht
    spent := fun k' s' r' hk' hx hh => ?_
    connected := fun r' ⟨⟨s', hs⟩, hg⟩ => ?_
    backed := fun k' s' r' hk' => ?_
    distinct := fun k₁ k₂ ρ₁ ρ₂ s' h₁ h₂ hs₁ hs₂ => ?_
    old := fun r' hg => Nat.lt_of_lt_of_le (hlinear.old r' hg) hext.next
    disconnected := fun r' hg => hr.silent.mpr (hlinear.disconnected r' hg) }⟩
  · obtain ⟨-, heq⟩ | ⟨hne, hρ⟩ := hcases hk'
    · cases heq
    · rw [hr.weaks, Function.update_of_ne hne] at hx
      exact hlinear.spent k' s' r' hρ hx (hr.holds.mp hh)
  · rw [hr.silent]
    obtain heq | hs := List.mem_cons.mp hs
    · cases heq
      exact new.connected
    · exact hlinear.connected r' ⟨⟨s', hs⟩, hg⟩
  · obtain ⟨-, heq⟩ | ⟨-, hρ⟩ := hcases hk'
    · cases heq
      exact ⟨List.mem_cons_self, hnot⟩
    · exact (hlinear.backed k' s' r' hρ).imp (List.mem_cons_of_mem _) id
  -- Nobody else refers to the slot that is given: it is fresh.
  · obtain ⟨rfl, rfl⟩ | ⟨-, hρ₁⟩ := hcases h₁ <;> obtain ⟨rfl, rfl⟩ | ⟨-, hρ₂⟩ := hcases h₂
    · rfl
    · cases hs₁
      exact absurd hs₂ (new.new k₂ ρ₂ hρ₂)
    · cases hs₂
      exact absurd hs₁ (new.new k₁ ρ₁ hρ₁)
    · exact hlinear.distinct k₁ k₂ ρ₁ ρ₂ s' hρ₁ hρ₂ hs₁ hs₂

/-- `k` takes over from `sc`. -/
theorem moved {sc : Addr} {p : Option WeakTarget} (h : Kept w b) (live : b.role sc = some ρ)
    (weak : w.weaks sc = pointing p) (hne : k ≠ sc) (place : b.role k ≠ none ∨ w.next ≤ k)
    (hr : Rewired w w' (Function.update (Function.update w.weaks sc (pointing none)) k
      (pointing p))) : Kept w' (b.move k sc ρ) := by
  -- k has the role of sc, sc is left empty, and the others keep theirs.
  have hrole {k' : Addr} {ρ' : Role} (hk : (b.move k sc ρ).role k' = some ρ') :
      k' = k ∧ ρ' = ρ ∨ k' ≠ k ∧ k' = sc ∧ ρ' = .empty ∨
        k' ≠ k ∧ k' ≠ sc ∧ b.role k' = some ρ' := by
    obtain ⟨rfl, hρ⟩ | ⟨hk', hρ⟩ := update_eq_some.mp hk
    · exact .inl ⟨rfl, (Option.some.inj hρ).symm⟩
    · obtain ⟨rfl, hempty⟩ | ⟨hsc, hold⟩ := update_eq_some.mp hρ
      · exact .inr (.inl ⟨hk', rfl, (Option.some.inj hempty).symm⟩)
      · exact .inr (.inr ⟨hk', hsc, hold⟩)
  have hslot {k' : Addr} {ρ' : Role} {s : SlotAddr} (hk : (b.move k sc ρ).role k' = some ρ')
      (hs : ρ'.slot = some s) : k' = k ∨ k' ≠ k ∧ k' ≠ sc := by
    obtain ⟨h, -⟩ | ⟨-, -, rfl⟩ | ⟨hk', hsc, -⟩ := hrole hk
    · exact .inl h
    · cases hs
    · exact .inr ⟨hk', hsc⟩
  -- The new role of k comes from sc, every other one from its own place.
  refine h.rewired hr _ (fun x => if x = k then sc else x) (fun k' ρ' hk => ?_) (fun k' hk => ?_)
    (fun k₁ k₂ ρ₁ ρ₂ s h₁ h₂ hs₁ hs₂ heq => ?_)
  · obtain ⟨rfl, rfl⟩ | ⟨hk', rfl, rfl⟩ | ⟨hk', hsc, hρ⟩ := hrole hk
    · rw [if_pos rfl, Function.update_self, weak]
      exact .inr ⟨live, rfl⟩
    · rw [Function.update_of_ne hk', Function.update_self]
      exact .inl ⟨rfl, rfl⟩
    · rw [if_neg hk', Function.update_of_ne hk', Function.update_of_ne hsc]
      exact .inr ⟨hρ, rfl⟩
  · obtain ⟨ρ', hρ'⟩ := Option.ne_none_iff_exists'.mp hk
    obtain ⟨rfl, -⟩ | ⟨-, rfl, -⟩ | ⟨-, -, hρ⟩ := hrole hρ'
    · exact place
    · exact .inl (by simp [live])
    · exact .inl (by simp [hρ])
  · obtain rfl | ⟨hk₁, hsc₁⟩ := hslot h₁ hs₁ <;> obtain rfl | ⟨hk₂, hsc₂⟩ := hslot h₂ hs₂
    · rfl
    · rw [if_pos rfl, if_neg hk₂] at heq
      exact absurd heq.symm hsc₂
    · rw [if_neg hk₁, if_pos rfl] at heq
      exact absurd heq hsc₁
    · rwa [if_neg hk₁, if_neg hk₂] at heq

theorem swapped {sca scb : Addr} {p q : Option WeakTarget} (h : Kept w b)
    (live : b.role sca = some ρ) (live' : b.role scb = some σ) (weak : w.weaks sca = pointing p)
    (weak' : w.weaks scb = pointing q)
    (hr : Rewired w w' (Function.update (Function.update w.weaks sca (pointing q)) scb
      (pointing p))) : Kept w' (b.swap sca scb ρ σ) := by
  -- The two have exchanged their roles, and the others keep theirs.
  have hrole {k' : Addr} {ρ' : Role} (hk : (b.swap sca scb ρ σ).role k' = some ρ') :
      k' = scb ∧ ρ' = ρ ∨ k' ≠ scb ∧ k' = sca ∧ ρ' = σ ∨
        k' ≠ scb ∧ k' ≠ sca ∧ b.role k' = some ρ' := by
    obtain ⟨rfl, hρ⟩ | ⟨hb, hρ⟩ := update_eq_some.mp hk
    · exact .inl ⟨rfl, (Option.some.inj hρ).symm⟩
    · obtain ⟨rfl, hother⟩ | ⟨ha, hold⟩ := update_eq_some.mp hρ
      · exact .inr (.inl ⟨hb, rfl, (Option.some.inj hother).symm⟩)
      · exact .inr (.inr ⟨hb, ha, hold⟩)
  refine h.rewired hr _ (fun x => if x = scb then sca else if x = sca then scb else x)
    (fun k' ρ' hk => .inr ?_) (fun k' hk => .inl ?_) (fun k₁ k₂ ρ₁ ρ₂ s _ _ _ _ heq => ?_)
  · obtain ⟨rfl, rfl⟩ | ⟨hb, rfl, rfl⟩ | ⟨hb, ha, hρ⟩ := hrole hk
    · rw [if_pos rfl, Function.update_self, weak]
      exact ⟨live, rfl⟩
    · rw [if_neg hb, if_pos rfl, Function.update_of_ne hb, Function.update_self, weak']
      exact ⟨live', rfl⟩
    · rw [if_neg hb, if_neg ha, Function.update_of_ne hb, Function.update_of_ne ha]
      exact ⟨hρ, rfl⟩
  · obtain ⟨ρ', hρ'⟩ := Option.ne_none_iff_exists'.mp hk
    obtain ⟨rfl, -⟩ | ⟨-, rfl, -⟩ | ⟨-, -, hρ⟩ := hrole hρ'
    · simp [live']
    · simp [live]
    · simp [hρ]
  · grind

/-- The pointer is taken away from `k`. -/
theorem cleared {x : Option Role} (h : Kept w b)
    (hx : ∀ ρ, x = some ρ → ρ = .empty ∧ weaks k = pointing none) (live : b.role k ≠ none)
    (others : ∀ k' ≠ k, b.role k' ≠ none → weaks k' = w.weaks k')
    (hr : Rewired w w' weaks) : Kept w' { b with role := Function.update b.role k x } := by
  refine h.rewired hr _ id (fun k' ρ' hk => ?_) (fun k' hk => .inl fun hnone => hk ?_)
    fun _ _ _ _ _ _ _ _ _ heq => heq
  · obtain ⟨rfl, hρ⟩ | ⟨hne, hρ⟩ := update_eq_some.mp hk
    · exact .inl (hx ρ' hρ)
    · exact .inr ⟨hρ, others k' hne (by simp [hρ])⟩
  · by_cases heq : k' = k
    · exact absurd (heq ▸ hnone) live
    · rwa [Function.update_of_ne heq]

/-! ## Operations -/

/-- Other code has run. -/
theorem spared (h : Kept w b) (spared : b.Spared w w') (user : w'.UserPoint) : Kept w' b := by
  have hext := (spared.steps.proceeds h.sane.sound).extension
  exact ⟨spared.steps.sane h.sane, user, {
    spared.follows h.sane h.linear.toFollows with
    backed := h.linear.backed
    distinct := h.linear.distinct
    old := fun r hr => Nat.lt_of_lt_of_le (h.linear.old r hr) hext.next
    disconnected := fun r hr => hext.silent (h.linear.old r hr) (h.linear.disconnected r hr) }⟩

section

variable [Inhabited V]

/-- A `scoped_connection` disconnects what it owns, and nothing else. -/
theorem tell (h : Kept w b) (live : b.role k = some ρ) (told : Tells b k ρ n w w') :
    Kept w' (b.tell k ρ) := by
  have hlinear := h.linear
  -- The call of the library itself, as a sequence of steps.
  have hspec := dispatch_spec (V := V) (T := fun _ => True) (fun _ => trivial) n
  have goes : Goes w w' :=
    wp_ret (Q := fun _ => Goes w)
      (Connection.disconnect_ends hspec (fun _ => trivial) h.sane.sound h.user.calm) told.run
  have hext := (goes.1.proceeds h.sane.sound).extension
  -- The rep that is owned, if any, has been told: it is silent now, and stays so.
  have hgone : ∀ r ∈ ρ.rep, r < w.next ∧ w'.Silent r := by
    intro r hr
    cases ρ with
    | owner s q =>
      obtain rfl := List.mem_singleton.mp hr
      obtain ⟨sl, hsl, hrep⟩ := hlinear.holds k s r live
      refine ⟨h.sane.sound.slotRep s sl r hsl hrep, ?_⟩
      exact (wp_ret (Connection.disconnect_silent hspec (fun _ => trivial) h.sane.sound h.user.calm
        (hlinear.refers k _ live) ⟨sl, hsl, hrep⟩) told.run).2
    | spent s => cases hr
    | empty => cases hr
  -- what the library does, and what is called, leaves the rest as the new books say
  have hbacked := hlinear.backed_tell h.sane.sound.linked live
  have hkeeps := Connection.disconnect_keeps hbacked
    (Env.within_honours (b.tell k ρ) { call := dispatch n, fuel := n }) h.sane.sound.linked
    (Books.tell_role_self b k ρ)
  rw [told.calls] at hkeeps
  exact ⟨goes.1.sane h.sane, h.user.of_frames goes.2, {
    hkeeps (hlinear.tell live) with
    backed := hbacked
    distinct := fun k₁ k₂ ρ₁ ρ₂ s => hlinear.distinct_tell live
    old := fun r hr => (List.mem_append.mp hr).elim
      (fun hr => Nat.lt_of_lt_of_le (hgone r hr).1 hext.next)
      fun hr => Nat.lt_of_lt_of_le (hlinear.old r hr) hext.next
    disconnected := fun r hr => (List.mem_append.mp hr).elim (fun hr => (hgone r hr).2)
      fun hr => hext.silent (hlinear.old r hr) (hlinear.disconnected r hr) }⟩

end

theorem construct {c : Addr} (h : Kept w b) (connection : w.weaks c = pointing (some (.slot s)))
    (new : b.Fresh w s r) (exec : ScopedConnection.construct c w = (.ret k, w')) :
    Kept w' (b.give k s r) := by
  obtain ⟨hk, hr⟩ := ScopedConnection.construct_rewired h.sane h.user connection (by simp) exec
  exact h.give hr hk new

theorem moveConstruct {sc : Addr} (h : Kept w b) (live : b.role sc = some ρ)
    (exec : ScopedConnection.moveConstruct sc w = (.ret k, w')) : Kept w' (b.move k sc ρ) := by
  obtain ⟨p, hp, hslot⟩ := h.linear.weak_of_role live
  obtain ⟨hk, hr⟩ := exchange_rewired h.sane h.user hp hslot exec
  refine h.moved live hp ?_ (.inr hk) hr
  rintro rfl
  rw [h.linear.role_of_new h.sane hk] at live
  cases live

theorem swap {sca scb : Addr} (h : Kept w b) (live : b.role sca = some ρ)
    (live' : b.role scb = some σ) (exec : ScopedConnection.swap sca scb w = (.ret (), w')) :
    Kept w' (b.swap sca scb ρ σ) := by
  obtain ⟨p, hp, hslot⟩ := h.linear.weak_of_role live
  obtain ⟨q, hq, hslot'⟩ := h.linear.weak_of_role live'
  exact h.swapped live live' hp hq
    (ScopedConnection.swap_rewired h.sane h.user hp hq hslot hslot' exec)

theorem release {c : Addr} (h : Kept w b) (live : b.role k = some ρ)
    (exec : ScopedConnection.release k w = (.ret c, w')) : Kept w' (b.release k) := by
  obtain ⟨p, hp, hslot⟩ := h.linear.weak_of_role live
  obtain ⟨hc, hr⟩ := exchange_rewired h.sane h.user hp hslot exec
  have hne {k' : Addr} (hk' : b.role k' ≠ none) : k' ≠ c := by
    rintro rfl
    exact hk' (h.linear.role_of_new h.sane hc)
  refine h.cleared (fun ρ' hρ => ⟨(Option.some.inj hρ).symm, ?_⟩) (by simp [live])
    (fun k' hk hk' => ?_) hr
  · rw [Function.update_of_ne (hne (by simp [live])), Function.update_self]
  · rw [Function.update_of_ne (hne hk'), Function.update_of_ne hk]

variable [Inhabited V]

/-- The parameter owns the slot until it has passed it on. -/
theorem assign {c param : Addr} {w₀ w₁ : World V} (h : Kept w b) (live : b.role k = some ρ)
    (connection : w.weaks c = pointing (some (.slot s))) (new : b.Fresh w s r)
    (copied : Connection.copy c w = (.ret param, w₀))
    (told : Tells (b.give param s r) k ρ n w₀ w₁)
    (exec : ScopedConnection.assign { call := dispatch n, fuel := n } k c w = (.ret (), w')) :
    Kept w' ((b.tell k ρ).give k s r) := by
  obtain ⟨hparam, h₀⟩ := copy_rewired h.sane h.user connection (by simp) copied
  have hfree := h.linear.role_of_new h.sane hparam
  have hne : k ≠ param := by
    rintro rfl
    rw [hfree] at live
    cases live
  have hkept₀ := h.give h₀ hparam new
  have hkept₁ := hkept₀.tell ((Function.update_of_ne hne _ _).trans live) told
  -- After the old slot has been disconnected: conn_ = c, and then the parameter is destroyed.
  unfold ScopedConnection.assign at exec
  rw [bind_of_ret copied, bind_of_ret told.run] at exec
  obtain ⟨_, w₂, hassign, hdestroy⟩ := bind_eq_ret.mp exec
  obtain ⟨q, hq, -⟩ := hkept₁.linear.weak_of_role (Books.tell_role_self _ k ρ)
  have hlive : ((b.give param s r).tell k ρ).role param = some (.owner s r) :=
    (Function.update_of_ne hne.symm _ _).trans (Function.update_self _ _ _)
  have hweak : w₁.weaks param = pointing (some (.slot s)) := hkept₁.linear.refers param _ hlive
  have h₂ := assign_rewired hkept₁.sane hkept₁.user hq hweak (by simp) hassign
  have h₃ := destroy_rewired (h₂.sane hkept₁.sane) (h₂.user hkept₁.user)
    (by rw [h₂.weaks, Function.update_of_ne hne.symm, hweak]) hdestroy
  -- Both together take the pointer from the parameter to k.
  have hall : Rewired w₁ w' (Function.update (Function.update w₁.weaks k
      (pointing (some (.slot s)))) param none) :=
    { h₂.trans h₃ with weaks := h₃.weaks.trans (by rw [h₂.weaks]) }
  -- In the books, k has the role that the parameter had, and the parameter is not in them.
  have hrole {k' : Addr} {ρ' : Role} (hk : ((b.tell k ρ).give k s r).role k' = some ρ') :
      k' = k ∧ ρ' = .owner s r ∨
        k' ≠ k ∧ k' ≠ param ∧ ((b.give param s r).tell k ρ).role k' = some ρ' := by
    obtain ⟨rfl, hρ⟩ | ⟨hk', hρ⟩ := update_eq_some.mp hk
    · exact .inl ⟨rfl, (Option.some.inj hρ).symm⟩
    · have hold := (Function.update_of_ne hk' _ _).symm.trans hρ
      have hkp : k' ≠ param := by
        rintro rfl
        rw [hfree] at hold
        cases hold
      exact .inr ⟨hk', hkp, (Function.update_of_ne hk' _ _).trans
        ((Function.update_of_ne hkp _ _).trans hold)⟩
  refine hkept₁.rewired hall ((b.tell k ρ).give k s r).role (fun x => if x = k then param else x)
    (fun k' ρ' hk => .inr ?_) (fun k' hk => .inl ?_) (fun k₁ k₂ ρ₁ ρ₂ s' hk₁ hk₂ _ _ heq => ?_)
  · obtain ⟨rfl, rfl⟩ | ⟨hk', hkp, hold⟩ := hrole hk
    · rw [if_pos rfl, Function.update_of_ne hne, Function.update_self]
      exact ⟨hlive, hweak.symm⟩
    · rw [if_neg hk', Function.update_of_ne hkp, Function.update_of_ne hk']
      exact ⟨hold, rfl⟩
  · obtain ⟨ρ', hρ'⟩ := Option.ne_none_iff_exists'.mp hk
    obtain ⟨rfl, -⟩ | ⟨-, -, hold⟩ := hrole hρ'
    · simp [Books.tell_role_self]
    · simp [hold]
  · obtain ⟨rfl, -⟩ | ⟨h₁, hp₁, -⟩ := hrole hk₁ <;> obtain ⟨rfl, -⟩ | ⟨h₂, hp₂, -⟩ := hrole hk₂
    · rfl
    · rw [if_pos rfl, if_neg h₂] at heq
      exact absurd heq.symm hp₂
    · rw [if_neg h₁, if_pos rfl] at heq
      exact absurd heq hp₁
    · rwa [if_neg h₁, if_neg h₂] at heq

theorem moveAssign {sc : Addr} {w₁ : World V} (h : Kept w b) (live : b.role k = some ρ)
    (live' : b.role sc = some σ) (distinct : k ≠ sc) (told : Tells b k ρ n w w₁)
    (exec : ScopedConnection.moveAssign { call := dispatch n, fuel := n } k sc w = (.ret (), w')) :
    Kept w' ((b.tell k ρ).move k sc σ) := by
  have hkept₁ := h.tell live told
  -- After the old slot has been disconnected: std::exchange of the other's connection, the
  -- assignment, and the end of the temporary.
  unfold ScopedConnection.moveAssign at exec
  rw [bind_of_ret told.run] at exec
  obtain ⟨old, w₂, hexchange, hrest⟩ := bind_eq_ret.mp exec
  obtain ⟨_, w₃, hassign, hdestroy⟩ := bind_eq_ret.mp hrest
  have hlive₁ : (b.tell k ρ).role sc = some σ :=
    (Function.update_of_ne distinct.symm _ _).trans live'
  have hlive : (b.tell k ρ).role k = some ρ.told := Books.tell_role_self b k ρ
  obtain ⟨q, hq, -⟩ := hkept₁.linear.weak_of_role hlive
  obtain ⟨p, hp, hslot⟩ := hkept₁.linear.weak_of_role hlive₁
  obtain ⟨hold, h₂⟩ := exchange_rewired hkept₁.sane hkept₁.user hp hslot hexchange
  have hfree := hkept₁.linear.role_of_new hkept₁.sane hold
  have hko : k ≠ old := by
    rintro rfl
    rw [hfree] at hlive
    cases hlive
  have sane₂ := h₂.sane hkept₁.sane
  have user₂ := h₂.user hkept₁.user
  have h₃ := assign_rewired (q := p) sane₂ user₂
    (by rw [h₂.weaks, Function.update_of_ne hko, Function.update_of_ne distinct, hq])
    (by rw [h₂.weaks, Function.update_self]) hslot hassign
  have h₄ := destroy_rewired (p := p) (h₃.sane sane₂) (h₃.user user₂)
    (by rw [h₃.weaks, Function.update_of_ne hko.symm, h₂.weaks, Function.update_self]) hdestroy
  have hall := (h₂.trans h₃).trans h₄
  -- The temporary is new, so that its end leaves no trace in the pointers.
  have hnone : w₁.weaks old = none := hkept₁.sane.sound.weaks.eq_none hold
  refine hkept₁.moved hlive₁ hp distinct (.inl (by simp [hlive]))
    { hall with weaks := hall.weaks.trans ?_ }
  rw [h₃.weaks, h₂.weaks]
  funext x
  simp only [Function.update_apply]
  grind

theorem destroy {w₁ : World V} (h : Kept w b) (live : b.role k = some ρ)
    (told : Tells b k ρ n w w₁)
    (exec : ScopedConnection.destroy { call := dispatch n, fuel := n } k w = (.ret (), w')) :
    Kept w' ((b.tell k ρ).drop k) := by
  have hkept₁ := h.tell live told
  unfold ScopedConnection.destroy at exec
  rw [bind_of_ret told.run] at exec
  obtain ⟨q, hq, -⟩ := hkept₁.linear.weak_of_role (Books.tell_role_self b k ρ)
  -- ~connection() takes the pointer of k away, and touches no other.
  have hr := destroy_rewired hkept₁.sane hkept₁.user hq exec
  exact hkept₁.cleared (fun _ hρ => by cases hρ) (by simp [Books.tell_role_self])
    (fun k' hk _ => Function.update_of_ne hk _ _) hr

end Kept

/-! ## Runs -/

variable [Inhabited V]

/-- A run in which client code operates any number of `scoped_connection` objects, and keeps the
books. -/
inductive ScopedRun : World V → Books → Prop
  | start {script : List (Cmd V)} {w : World V} (steps : Steps ({ script } : World V) w)
      (user : w.UserPoint) : ScopedRun w {}
  | other {w w' : World V} {b : Books} (run : ScopedRun w b) (spared : b.Spared w w')
      (user : w'.UserPoint) : ScopedRun w' b
  | construct {w w' : World V} {b : Books} {c k r : Addr} {s : SlotAddr} (run : ScopedRun w b)
      (connection : w.weaks c = pointing (some (.slot s))) (new : b.Fresh w s r)
      (exec : ScopedConnection.construct c w = (.ret k, w')) : ScopedRun w' (b.give k s r)
  | moveConstruct {w w' : World V} {b : Books} {k sc : Addr} {ρ : Role} (run : ScopedRun w b)
      (live : b.role sc = some ρ)
      (exec : ScopedConnection.moveConstruct sc w = (.ret k, w')) : ScopedRun w' (b.move k sc ρ)
  | assign {w w₀ w₁ w' : World V} {b : Books} {k c r param : Addr} {n : Nat} {s : SlotAddr}
      {ρ : Role} (run : ScopedRun w b) (live : b.role k = some ρ)
      (connection : w.weaks c = pointing (some (.slot s))) (new : b.Fresh w s r)
      (copied : Connection.copy c w = (.ret param, w₀))
      (told : Tells (b.give param s r) k ρ n w₀ w₁)
      (exec : ScopedConnection.assign { call := dispatch n, fuel := n } k c w = (.ret (), w')) :
    ScopedRun w' ((b.tell k ρ).give k s r)
  | moveAssign {w w₁ w' : World V} {b : Books} {k sc : Addr} {ρ σ : Role} {n : Nat}
      (run : ScopedRun w b) (live : b.role k = some ρ)
      (live' : b.role sc = some σ) (distinct : k ≠ sc) (told : Tells b k ρ n w w₁)
      (exec : ScopedConnection.moveAssign { call := dispatch n, fuel := n } k sc w = (.ret (), w')) :
    ScopedRun w' ((b.tell k ρ).move k sc σ)
  | swap {w w' : World V} {b : Books} {sca scb : Addr} {ρ σ : Role} (run : ScopedRun w b)
      (live : b.role sca = some ρ)
      (live' : b.role scb = some σ) (exec : ScopedConnection.swap sca scb w = (.ret (), w')) :
    ScopedRun w' (b.swap sca scb ρ σ)
  | release {w w' : World V} {b : Books} {k c : Addr} {ρ : Role} (run : ScopedRun w b)
      (live : b.role k = some ρ)
      (exec : ScopedConnection.release k w = (.ret c, w')) : ScopedRun w' (b.release k)
  | disconnect {w w' : World V} {b : Books} {k : Addr} {ρ : Role} {n : Nat} (run : ScopedRun w b)
      (live : b.role k = some ρ)
      (told : Tells b k ρ n w w')
      (exec : ScopedConnection.disconnect { call := dispatch n, fuel := n } k w = (.ret (), w')) :
    ScopedRun w' (b.tell k ρ)
  | destroy {w w₁ w' : World V} {b : Books} {k : Addr} {ρ : Role} {n : Nat} (run : ScopedRun w b)
      (live : b.role k = some ρ)
      (told : Tells b k ρ n w w₁)
      (exec : ScopedConnection.destroy { call := dispatch n, fuel := n } k w = (.ret (), w')) :
    ScopedRun w' ((b.tell k ρ).drop k)

omit [Inhabited V] in
theorem Kept.start {script : List (Cmd V)} (steps : Steps ({ script } : World V) w)
    (user : w.UserPoint) : Kept w {} :=
  ⟨steps.sane (.initial script), user, {
    refers := fun _ _ h => by cases h
    holds := fun _ _ _ h => by cases h
    tracks := fun _ _ h => by cases h
    own := fun _ _ _ _ h => by cases h
    spent := fun _ _ _ h => by cases h
    connected := fun _ ⟨⟨_, h⟩, _⟩ => by cases h
    backed := fun _ _ _ h => by cases h
    distinct := fun _ _ _ _ _ h => by cases h
    old := fun _ h => by cases h
    disconnected := fun _ h => by cases h }⟩

theorem ScopedRun.kept (h : ScopedRun w b) : Kept w b := by
  -- one lemma for each operation: it keeps the books in step with the connections
  induction h with
  | start steps user => exact .start steps user
  | other run spared user ih => exact ih.spared spared user
  | construct run connection new exec ih => exact ih.construct connection new exec
  | moveConstruct run live exec ih => exact ih.moveConstruct live exec
  | assign run live connection new copied told exec ih =>
    exact ih.assign live connection new copied told exec
  | moveAssign run live live' distinct told exec ih =>
    exact ih.moveAssign live live' distinct told exec
  | swap run live live' exec ih => exact ih.swap live live' exec
  | release run live exec ih => exact ih.release live exec
  | disconnect run live told exec ih => exact ih.tell live told
  | destroy run live told exec ih => exact ih.destroy live told exec

/-- Ownership is linear: the slots that have been disconnected are those whose owner has been
destroyed, assigned over or told to disconnect; every `scoped_connection` refers to the slot that
the books say, and no two to the same one; and one that has been moved from or released does nothing
when it is told to disconnect. -/
structure World.OwnsLinearly (w : World V) (b : Books) : Prop where
  disconnected : ∀ s r, (s, r) ∈ b.given → (w.Silent r ↔ r ∈ b.gone)
  refers : ∀ k ρ, b.role k = some ρ → ρ.Refers (w.weaks k)
  unique : ∀ k k' s, b.role k ≠ none → b.role k' ≠ none → w.weaks k = pointing (some (.slot s)) →
    w.weaks k' = pointing (some (.slot s)) → k = k'
  idle : ∀ k u, b.role k = some .empty → ScopedConnection.disconnect u k w = (.ret (), w)

omit [Inhabited V] in
theorem World.not_silent (h : (w.reps r).any (·.call) = true) : ¬w.Silent r := by
  intro hs
  cases hrep : w.reps r with
  | none => simp [hrep] at h
  | some rep =>
    rw [hrep, Option.any_some, hs rep hrep] at h
    cases h

omit [Inhabited V] in
theorem World.Holds.of_rep (h : (w.slots s).bind (·.rep) = some r) : w.Holds s r :=
  Option.bind_eq_some_iff.mp h

end Sigc
