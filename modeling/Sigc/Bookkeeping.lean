import Sigc.Framing
import Sigc.ScopedConnection

/-!
# The books of the owners

What `scoped_connection` objects are for: each owns at most one slot, which is disconnected when its
owner is destroyed, assigned over or told to disconnect, and not before.  The books say who owns
which slot after a sequence of operations.  What the library itself does in the course of a
disconnection leaves the pointers and the slots as the books say.
-/

namespace Sigc

open Reasoning Prog

variable {V : Type} {u : Env V} {w w' v : World V}

/-! ## The books -/

/-- What a `scoped_connection` has to do with a slot: it owns it together with its rep, it has told
it to disconnect, or nothing. -/
inductive Role where
  | owner (s : SlotAddr) (r : Addr)
  | spent (s : SlotAddr)
  | empty

namespace Role

def slot : Role → Option SlotAddr
  | owner s _ => some s
  | spent s => some s
  | empty => none

def told : Role → Role
  | owner s _ => spent s
  | spent s => spent s
  | empty => empty

/-- The rep that is disconnected when this one is told to. -/
def rep : Role → List Addr
  | owner _ r => [r]
  | _ => []

/-- `conn_` is as the role says.  The pointer to a slot that has been disconnected may be null
already. -/
def Refers : Role → Option WeakRawPtr → Prop
  | owner s _, x => x = pointing (some (.slot s))
  | spent s, x => x = pointing none ∨ x = pointing (some (.slot s))
  | empty, x => x = pointing none

end Role

theorem Role.Refers.slot {ρ : Role} {x : Option WeakRawPtr} {s : SlotAddr} (h : ρ.Refers x)
    (hx : x = pointing (some (.slot s))) : ρ.slot = some s := by
  subst hx
  cases ρ with
  | owner s' r => cases h; rfl
  | spent s' => rcases h with h | h <;> cases h; rfl
  | empty => cases h

/-- The living `scoped_connection` objects, the slots that have been given to any of them, and those
whose owner has told them to disconnect, by their reps. -/
structure Books where
  role : Addr → Option Role := fun _ => none
  given : List (SlotAddr × Addr) := []
  gone : List Addr := []

namespace Books

def give (b : Books) (k : Addr) (s : SlotAddr) (r : Addr) : Books :=
  { b with role := Function.update b.role k (some (.owner s r)), given := (s, r) :: b.given }

/-- `k`, of the role `ρ`, disconnects what it owns. -/
def tell (b : Books) (k : Addr) (ρ : Role) : Books :=
  { b with role := Function.update b.role k (some ρ.told), gone := ρ.rep ++ b.gone }

/-- `k` takes over from `sc`. -/
def move (b : Books) (k sc : Addr) (ρ : Role) : Books :=
  { b with role := Function.update (Function.update b.role sc (some .empty)) k (some ρ) }

def swap (b : Books) (sca scb : Addr) (ρ σ : Role) : Books :=
  { b with role := Function.update (Function.update b.role sca (some σ)) scb (some ρ) }

def release (b : Books) (k : Addr) : Books :=
  { b with role := Function.update b.role k (some .empty) }

def drop (b : Books) (k : Addr) : Books :=
  { b with role := Function.update b.role k none }

/-- The rep has been given, and is still to be disconnected. -/
def Live (b : Books) (r : Addr) : Prop := (∃ s, (s, r) ∈ b.given) ∧ r ∉ b.gone

def Owned (b : Books) (s : SlotAddr) : Prop := ∃ k r, b.role k = some (.owner s r)

/-- The rep of an owner is live. -/
def Backed (b : Books) : Prop :=
  ∀ k s r, b.role k = some (.owner s r) → (s, r) ∈ b.given ∧ r ∉ b.gone

end Books

theorem Books.tell_role_self (b : Books) (k : Addr) (ρ : Role) :
    (b.tell k ρ).role k = some ρ.told :=
  Function.update_self _ _ _

/-! ## What follows the books -/

namespace World

def Holds (w : World V) (s : SlotAddr) (r : Addr) : Prop :=
  ∃ sl, w.slots s = some sl ∧ sl.rep = some r

/-- The pointers of the `scoped_connection` objects, the slots that they refer to, and the reps that
have been given. -/
structure Follows (w : World V) (b : Books) : Prop where
  refers : ∀ k ρ, b.role k = some ρ → ρ.Refers (w.weaks k)
  holds : ∀ k s r, b.role k = some (.owner s r) → w.Holds s r
  tracks : ∀ k ρ, b.role k = some ρ → w.Tracks k
  own : ∀ k s r t, b.role k = some (.owner s r) → 0 < w.registrations k t → t = r
  spent : ∀ k s r, b.role k = some (.spent s) → w.weaks k = pointing (some (.slot s)) →
    w.Holds s r → r ∈ b.gone
  connected : ∀ r, b.Live r → ¬w.Silent r

end World

/-- What follows the books goes on to. -/
def Books.Keeps (b : Books) (w w' : World V) : Prop := w.Follows b → w'.Follows b

variable {b : Books}

instance : Std.Refl (Books.Keeps (V := V) b) := ⟨fun _ => id⟩

instance : IsTrans (World V) b.Keeps := ⟨fun _ _ _ h h' hw => h' (h hw)⟩

theorem Role.Refers.ptr {ρ : Role} {x : Option WeakRawPtr} (h : ρ.Refers x) :
    ∃ p, x = pointing p ∧ ∀ r, p ≠ some (.rep r) := by
  cases ρ with
  | owner s r => exact ⟨_, h, by simp⟩
  | spent s => exact h.elim (fun h => ⟨_, h, by simp⟩) fun h => ⟨_, h, by simp⟩
  | empty => exact ⟨_, h, by simp⟩

/-! ## Other code -/

/-- A step of other code: it does not operate the `scoped_connection` objects, it does not disconnect
a slot that has been given to one, and a slot that one of them refers to keeps its rep. -/
structure Untouched (b : Books) (w w' : World V) : Prop where
  owners : ∀ k s r, b.role k = some (.owner s r) → w'.weaks k = w.weaks k ∧ w'.Holds s r
  pointers : ∀ k ρ, b.role k = some ρ → w'.weaks k = w.weaks k ∨ w'.weaks k = pointing none
  kept : ∀ k s, b.role k = some (.spent s) → w'.weaks k = pointing (some (.slot s)) → ∀ sl',
    w'.slots s = some sl' → ∃ sl, w.slots s = some sl ∧ sl'.rep = sl.rep
  connected : ∀ r, b.Live r → ¬w.Silent r → ¬w'.Silent r

/-- Other code runs, and leaves the books alone. -/
def Books.Spared (b : Books) : World V → World V → Prop :=
  Relation.ReflTransGen fun w w' => Step w w' ∧ Untouched b w w'

/-- A call of other code, in the course of a run. -/
structure Undisturbed (b : Books) (w w' : World V) : Prop where
  reached : ∃ script, Steps ({ script } : World V) w
  frames : w'.frames = w.frames
  spared : b.Spared w w'

theorem Books.Spared.steps (h : b.Spared w w') : Steps w w' :=
  Relation.ReflTransGen.mono (fun _ _ h => h.1) _ _ h

theorem Untouched.follows (h : Untouched b w w') (hstep : Step w w') (hs : w.Sane) :
    b.Keeps w w' := by
  intro hw
  have hsame {k : Addr} {s : SlotAddr} {ρ : Role} (hk : b.role k = some ρ)
      (hx : w'.weaks k = pointing (some (.slot s))) : w.weaks k = pointing (some (.slot s)) := by
    obtain heq | hnull := h.pointers k ρ hk
    · exact heq ▸ hx
    · rw [hnull] at hx
      cases hx
  have htracks (k : Addr) (ρ : Role) (hk : b.role k = some ρ) : w'.Tracks k := by
    obtain ⟨p, hp, hslot⟩ := (hw.refers k ρ hk).ptr
    refine (hw.tracks k ρ hk).step hstep hs hp hslot (hp ▸ h.pointers k ρ hk)
      fun s sl sl' hx hsl hsl' => ?_
    have hrole := (hw.refers k ρ hk).slot (hsame hk hx)
    cases ρ with
    | owner s' r =>
      cases hrole
      obtain ⟨y, hy, hr⟩ := hw.holds k s r hk
      obtain ⟨y', hy', hr'⟩ := (h.owners k s r hk).2
      obtain rfl := Option.some.inj (hsl.symm.trans hy)
      obtain rfl := Option.some.inj (hsl'.symm.trans hy')
      exact hr'.trans hr.symm
    | spent s' =>
      cases hrole
      obtain ⟨y, hy, hr⟩ := h.kept k s hk hx sl' hsl'
      obtain rfl := Option.some.inj (hsl.symm.trans hy)
      exact hr
    | empty => cases hrole
  refine ⟨fun k ρ hk => ?_, fun k s r hk => (h.owners k s r hk).2, htracks, fun k s r t hk ht => ?_,
    fun k s r hk hx ⟨sl', hsl', hr⟩ => ?_, fun r hr => h.connected r hr (hw.connected r hr)⟩
  · have hrefers := hw.refers k ρ hk
    obtain hsame | hnull := h.pointers k ρ hk
    · rwa [hsame]
    · cases ρ with
      | owner s r => rwa [(h.owners k s r hk).1]
      | spent s => exact .inl hnull
      | empty => exact hnull
  · -- an owner is not reset, and one that is assigned to is registered with the rep of its slot
    have hweak : w.weaks k = pointing (some (.slot s)) := hw.refers k _ hk
    have hsame := (h.owners k s r hk).1
    have hweak' : w'.weaks k = pointing (some (.slot s)) := hsame.trans hweak
    cases hstep.treats hs.sound.toWellAddressed hs.registered (c := k) (by simp [hweak])
      (by simp [hweak']) with
    | aside ha => exact hw.own k s r t hk (Nat.lt_of_lt_of_le ht (ha.count t))
    | reset hx registered clearing same reps null =>
      rw [hweak'] at null
      cases congrArg WeakRawPtr.ptr (Option.some.inj null)
    | assign user run =>
      have hframes : w'.frames = w.frames := by
        obtain ⟨mid, tks, ign, self, from_, -, -, rfl, -, -⟩ := WeakRawPtr.assign_effect run
        rfl
      obtain ⟨sl, hsl, hr⟩ := (h.owners k s r hk).2
      exact (htracks k _ hk).rep_eq (hstep.sane hs) (user.of_frames hframes) hweak' hsl hr ht
  · obtain ⟨sl, hsl, hrep⟩ := h.kept k s hk hx sl' hsl'
    exact hw.spent k s r hk (hsame hk hx) ⟨sl, hsl, hrep.symm.trans hr⟩

/-- Along a run of other code the books are followed. -/
theorem Books.Spared.follows (h : b.Spared w w') (hs : w.Sane) : b.Keeps w w' := by
  intro hw
  have hall : w'.Sane ∧ w'.Follows b := by
    induction h with
    | refl => exact ⟨hs, hw⟩
    | tail _ hstep ih => exact ⟨hstep.1.sane ih.1, hstep.2.follows hstep.1 ih.1 ih.2⟩
  exact hall.2

theorem Undisturbed.sane (h : Undisturbed b w w') : w.Sane ∧ w'.Sane := by
  obtain ⟨script, hs⟩ := h.reached
  have hw := hs.sane (.initial script)
  exact ⟨hw, h.spared.steps.sane hw⟩

theorem Undisturbed.keeps (h : Undisturbed b w w') : b.Keeps w w' := h.spared.follows h.sane.1

/-- The calls of other code leave the books alone. -/
def Env.Honours (u : Env V) (b : Books) : Prop :=
  ∀ c w, (u.call c w).2 = w ∨ Undisturbed b w (u.call c w).2

theorem Env.within_honours (b : Books) (u : Env V) : (u.within (Undisturbed b)).Honours b :=
  fun c => guarded_cases (u.call c)

theorem Env.Honours.keeps (hu : u.Honours b) (c : Call) : Within b.Keeps (u.call c) := by
  intro w
  obtain hsame | h := hu c w
  · rw [hsame]
    exact Std.Refl.refl w
  · exact h.keeps

/-! ## Pieces of library code -/

/-- Slots, reps, trackables and connections are as they were. -/
structure World.Still (w w' : World V) : Prop where
  slots : w'.slots = w.slots
  reps : w'.reps = w.reps
  trackables : w'.trackables = w.trackables
  weaks : w'.weaks = w.weaks
  next : w'.next = w.next

instance : Std.Refl (World.Still (V := V)) := ⟨fun _ => ⟨rfl, rfl, rfl, rfl, rfl⟩⟩

instance : IsTrans (World V) World.Still :=
  ⟨fun _ _ _ h h' => ⟨h'.slots.trans h.slots, h'.reps.trans h.reps,
    h'.trackables.trans h.trackables, h'.weaks.trans h.weaks, h'.next.trans h.next⟩⟩

namespace Books.Keeps

theorem assume (h : w.Follows b → b.Keeps w w') : b.Keeps w w' := fun hw => h hw hw

/-- No connection is touched; a slot that is left has its rep, and so has that of an owner; what is
live is not disconnected. -/
theorem aside (ha : ∀ c, Aside c w w') (next : w.next ≤ w'.next)
    (slots : ∀ s sl', w'.slots s = some sl' → ∃ sl, w.slots s = some sl ∧ sl'.rep = sl.rep)
    (owned : ∀ s, b.Owned s → w.slots s ≠ none → w'.slots s ≠ none)
    (live : ∀ r, b.Live r → ¬w.Silent r → ¬w'.Silent r) : b.Keeps w w' := by
  intro hw
  refine ⟨fun k ρ hk => (ha k).weak ▸ hw.refers k ρ hk, fun k s r hk => ?_,
    fun k ρ hk => (hw.tracks k ρ hk).aside (ha k) next fun a _ _ sl' hsl' => slots _ sl' hsl',
    fun k s r t hk ht => hw.own k s r t hk (Nat.lt_of_lt_of_le ht ((ha k).count t)),
    fun k s r hk hx ⟨sl', hsl', hr⟩ => ?_, fun r hr => live r hr (hw.connected r hr)⟩
  · obtain ⟨sl, hsl, hrep⟩ := hw.holds k s r hk
    obtain ⟨sl', hsl'⟩ := Option.ne_none_iff_exists'.mp (owned s ⟨k, r, hk⟩ (by simp [hsl]))
    obtain ⟨y, hy, hr⟩ := slots s sl' hsl'
    obtain rfl := Option.some.inj (hsl.symm.trans hy)
    exact ⟨sl', hsl', hr.trans hrep⟩
  · obtain ⟨sl, hsl, hrep⟩ := slots s sl' hsl'
    exact hw.spent k s r hk ((ha k).weak ▸ hx) ⟨sl, hsl, hrep.symm.trans hr⟩

/-- The slots are as they were, and so are the reps that are live. -/
theorem heap (ha : ∀ c, Aside c w w') (next : w'.next = w.next) (slots : w'.slots = w.slots)
    (live : ∀ r, b.Live r → ¬w.Silent r → ¬w'.Silent r) : b.Keeps w w' :=
  aside ha (Nat.le_of_eq next.symm) (fun _ sl' hsl' => ⟨sl', slots ▸ hsl', rfl⟩)
    (fun _ _ hs => slots ▸ hs) live

theorem silent_setRep {q : Addr} (hq : ¬b.Live q) (x : Option SlotRep) {r : Addr} (hr : b.Live r)
    (hs : ¬w.Silent r) : ¬(w.setRep q x).Silent r := by
  have hne : r ≠ q := fun heq => hq (heq ▸ hr)
  intro hsilent
  exact hs fun rep hrep => hsilent rep ((Function.update_of_ne hne _ _).trans hrep)

/-- A rep that is not live may be changed, and destroyed with its base. -/
theorem setRep {q : Addr} (hq : ¬b.Live q) (x : SlotRep) : b.Keeps w (w.setRep q (some x)) :=
  heap (fun _ => .setRep x) rfl rfl fun _ => silent_setRep hq _

theorem eraseRep {q : Addr} (hq : ¬b.Live q) : b.Keeps w ((w.setRep q none).setTrackable q none) :=
  heap (fun _ => .eraseRep q) rfl rfl fun _ => silent_setRep hq none

/-- A rep gets another parent. -/
theorem setParent {q : Addr} {rep rep' : SlotRep} (hrep : w.reps q = some rep)
    (hcall : rep'.call = rep.call) : b.Keeps w (w.setRep q (some rep')) := by
  refine heap (fun _ => .setRep rep') rfl rfl fun r _ hs hsilent => hs fun x hx => ?_
  by_cases heq : r = q
  · subst heq
    rw [← Option.some.inj (hrep.symm.trans hx), ← hcall]
    exact hsilent rep' (Function.update_self _ _ _)
  · exact hsilent x ((Function.update_of_ne heq _ _).trans hx)

/-- The destructor of a slot begins. -/
theorem setDying {s : SlotAddr} {sl sl' : SlotBase} (hsl : w.slots s = some sl)
    (hrep : sl'.rep = sl.rep) : b.Keeps w (w.setSlot s (some sl')) := by
  refine aside (fun _ => .others rfl rfl rfl) (Nat.le_refl _) (fun s' y hy => ?_) (fun s' _ hs' => ?_)
    fun _ _ => id
  · obtain ⟨rfl, hx⟩ | ⟨-, hy⟩ := update_eq_some.mp hy
    · exact ⟨sl, hsl, Option.some.inj hx ▸ hrep⟩
    · exact ⟨y, hy, rfl⟩
  · by_cases heq : s' = s
    · simp [World.setSlot, heq]
    · simpa [World.setSlot, heq] using hs'

/-- A slot that nobody owns is gone. -/
theorem endSlot {s : SlotAddr} (hs : ¬b.Owned s) : b.Keeps w (w.setSlot s none) := by
  refine aside (fun _ => .others rfl rfl rfl) (Nat.le_refl _) (fun s' y hy => ?_)
    (fun s' howned hs' => ?_) fun _ _ => id
  · obtain ⟨-, hcontra⟩ | ⟨-, hy⟩ := update_eq_some.mp hy
    · cases hcontra
    · exact ⟨y, hy, rfl⟩
  · have hne : s' ≠ s := fun heq => hs (heq ▸ howned)
    simpa [World.setSlot, hne] using hs'

/-- A connection is reset by the base of a rep that is not live, which is running through its
callbacks. -/
theorem resetWeak (hb : b.Backed) {c q : Addr} {x : WeakRawPtr} (hc : 0 < w.registrations c q)
    (hq : ¬b.Live q) (clearing : w.clearing q = true) (hx : w.weaks c = some x) :
    b.Keeps w (w.setWeak c (some { x with ptr := none })) := by
  intro hw
  have hne {k : Addr} (heq : k ≠ c) :
      (w.setWeak c (some { x with ptr := none })).weaks k = w.weaks k :=
    Function.update_of_ne heq _ _
  refine ⟨fun k ρ hk => ?_, hw.holds, fun k ρ hk => ?_, hw.own, fun k s r hk hk' => ?_, hw.connected⟩
  · by_cases heq : k = c
    · subst heq
      have hrefers := hw.refers k ρ hk
      rw [hx] at hrefers
      rw [show (w.setWeak k (some { x with ptr := none })).weaks k = some { x with ptr := none } from
        Function.update_self _ _ _]
      cases ρ with
      | owner s r =>
        -- an owner is registered with its own rep
        obtain rfl := hw.own k s r q hk hc
        exact absurd ⟨⟨s, (hb k s q hk).1⟩, (hb k s q hk).2⟩ hq
      | spent s => rcases hrefers with h | h <;> cases h <;> exact .inl rfl
      | empty => cases hrefers; rfl
    · rw [hne heq]
      exact hw.refers k ρ hk
  · have htracks := hw.tracks k ρ hk
    refine ⟨htracks.once, htracks.single, htracks.alive, fun t ht => ?_⟩
    by_cases heq : k = c
    · subst heq
      obtain rfl := htracks.single t q ht hc
      exact .inl clearing
    · refine (htracks.slot t ht).imp id fun ⟨a, ha, hweak, hsl⟩ => ⟨a, ha, (hne heq).trans hweak, hsl⟩
  · by_cases heq : k = c
    · subst heq
      cases (Function.update_self _ _ _).symm.trans hk'
    · exact hw.spent k s r hk ((hne heq).symm.trans hk')

end Books.Keeps

theorem World.Still.keeps (h : w.Still w') : b.Keeps w w' := by
  refine .heap (fun _ => .others h.reps h.trackables h.weaks) h.next h.slots fun r _ hs => ?_
  unfold World.Silent at hs ⊢
  rwa [h.reps]

end Sigc
