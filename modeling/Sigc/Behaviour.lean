import Sigc.Linkage

/-!
# Behaviours

What a function of the library may do from a given world on: return, throw, or halt, each after a
sequence of steps.  `Env.Spec` demands this of the calls that go through a pointer, so that a
function can be treated on its own, and `T` is what is known where the fuel runs out.
-/

namespace Sigc

open Reasoning Prog

variable {V : Type} {w w' w₀ w₁ : World V}

/-! ## Faults -/

/-- The faults whose absence is claimed of the library; each of them is explained below. -/
def Fault.watched : Fault → Bool
  | .cursor | .iter | .implInUse | .badWeakPtr => true
  | _ => false

/-- The worlds in which a watched fault is raised. -/
inductive Stuck : Fault → World V → Prop where
  /-- an emission looks at its cursor, or moves it on, and finds no element -/
  | emission {w e below} (top : w.frames = .emission e :: below) (phase : e.phase ≠ .invoking)
      (inside : e.it ≠ e.placeholder)
      (lost : w.slots e.it = none ∨ ∃ self, w.impls e.impl = some self ∧
        ∀ it', following e.it self.slots ≠ some (some it')) : Stuck .cursor w
  | placeholder {w e below self completed} (top : w.frames = .emission e :: below)
      (ends : e.Over completed) (impl : w.impls e.impl = some self)
      (lost : e.placeholder ∉ self.slots) : Stuck .cursor w
  | sweep {w i it below self} (top : w.frames = .sweep i (some it) none :: below)
      (impl : w.impls i = some self) (lost : following it self.slots = none) : Stuck .cursor w
  | clear {w i it during saved below self}
      (top : w.frames = .clear i (some it) none during saved :: below)
      (impl : w.impls i = some self) (lost : following it self.slots = none) : Stuck .cursor w
  /-- a slot is disconnected whose element is not in the list -/
  | erase {w r rep d si self} (alive : w.reps r = some rep) (parent : rep.parent = some d)
      (cleanup : rep.cleanup = some .notifySelfAndIterOfInvalidatedSlot)
      (record : w.records d = some si) (owned : w.owned si.self = true)
      (impl : w.impls si.self = some self) (idle : self.execCount = 0)
      (lost : si.iter ∉ self.slots) : Stuck .iter w
  /-- the last pointer to a signal goes while a function is running on it -/
  | inUse {w i below} (top : w.frames = .releasing i :: below) (unowned : w.owned i = false)
      (busy : w.frames.any (Frame.execOn i) = true) : Stuck .implInUse w
  /-- the destructor of a signal has left elements in the list -/
  | leftover {w i saved below self}
      (top : w.frames = .clear i none none true saved :: .releasing i :: below)
      (unowned : w.owned i = false) (impl : w.impls i = some self)
      (elements : self.slots ≠ []) : Stuck .implInUse w
  /-- `clear()` calls `sweep()` in the destructor -/
  | expired {w i during saved below self}
      (top : w.frames = .clear i none none during saved :: below)
      (impl : w.impls i = some self) (sweeps : self.sweepsNext = true)
      (unowned : w.owned i = false) : Stuck .badWeakPtr w

/-! ## Halts -/

/-- How a function that begins in `w` may halt in `w'`. -/
def Halts (T : World V → Prop) (w : World V) (h : Halt) (w' : World V) : Prop :=
  match h with
  | .stop => Steps w w' ∧ w'.UserPoint
  | .fuel => T w'
  | .fault f => f.watched = true → ∃ w₁, Steps w w₁ ∧ Stuck f w₁

variable {T : World V → Prop}

theorem Halts.after {h : Halt} (hs : Steps w₀ w) (hh : Halts T w h w') : Halts T w₀ h w' := by
  cases h with
  | stop => exact ⟨hs.trans hh.1, hh.2⟩
  | fuel => exact hh
  -- The world in which the fault is raised is reached from the earlier one, too.
  | fault f =>
    intro hf
    obtain ⟨w₁, hs₁, hstuck⟩ := hh hf
    exact ⟨w₁, hs.trans hs₁, hstuck⟩

theorem Halts.stuck {f : Fault} (hs : Steps w w₁) (h : Stuck f w₁) :
    Halts T w (.fault f) w' := fun _ => ⟨w₁, hs, h⟩

theorem Halts.unwatched {f : Fault} (hf : f.watched = false) : Halts T w (.fault f) w' :=
  fun h => by rw [hf] at h; cases h

@[simp] theorem wp_fault {α : Type} {f : Fault} {Q : α → World V → Prop} {E : Nat → World V → Prop}
    {H : Halt → World V → Prop} : wp (fault f : M V α) Q E H w ↔ H (.fault f) w := Iff.rfl

/-! ## Functions -/

/-- Steps that leave the stack as it was. -/
def Goes (w w' : World V) : Prop := Steps w w' ∧ w'.frames = w.frames

theorem Goes.refl (w : World V) : Goes w w := ⟨.refl, rfl⟩

theorem Goes.trans (h : Goes w₀ w) (h' : Goes w w') : Goes w₀ w' :=
  ⟨h.1.trans h'.1, h'.2.trans h.2⟩

theorem Goes.of_step (h : Step w w') (hf : w'.frames = w.frames) : Goes w w' := ⟨.single h, hf⟩

theorem Goes.proceeds (h : Goes w w') (hw : Sound w) : Proceeds w w' :=
  Steps.proceeds h.1 hw

theorem Goes.sound (h : Goes w w') (hw : Sound w) : Sound w' :=
  (h.proceeds hw).sound

theorem World.Calm.of_frames (h : w.Calm) (hf : w'.frames = w.frames) : w'.Calm := by
  unfold World.Calm
  rwa [hf]

theorem World.Calm.of_top {f : Frame V} {below : List (Frame V)} (top : w.frames = f :: below)
    (hf : f.looping = false) : w.Calm := by
  simp [World.Calm, top, hf]

theorem World.UserPoint.calm (h : w.UserPoint) : w.Calm := by
  obtain h | ⟨r, below, h⟩ | ⟨r, rest, below, h⟩ := h
  · simp [World.Calm, h]
  · exact .of_top h rfl
  · exact .of_top h rfl

theorem Goes.calm (h : Goes w w') (hc : w.Calm) : w'.Calm := hc.of_frames h.2

/-- `x`, run in `w₁`, finishes a function that began in `w`: it throws nothing. -/
def Ends {α : Type} (T : World V → Prop) (w : World V) (x : M V α) (w₁ : World V)
    (Q : α → World V → Prop) : Prop :=
  wp x Q (fun _ _ => False) (Halts T w) w₁

variable {α β : Type} {x : M V α} {Q Q' : α → World V → Prop}

/-- What holds wherever a function returns. -/
theorem Ends.of_ret (h : Ends T w x w₁ Q) {a : α} (run : x w₁ = (.ret a, w')) : Q a w' := by
  unfold Ends wp at h
  rwa [run] at h

theorem Ends.mono (hx : Ends T w x w₁ Q) (hQ : ∀ a w', Q a w' → Q' a w') : Ends T w x w₁ Q' :=
  wp_mono hx hQ (fun _ _ => id) (fun _ _ => id)

/-- A function called after the steps from `w₀` to `w`. -/
theorem Ends.after (hs : Steps w₀ w) (hx : Ends T w x w₁ Q) : Ends T w₀ x w₁ Q :=
  wp_mono hx (fun _ _ => id) (fun _ _ => id) (fun _ _ => Halts.after hs)

theorem Ends.bind {f : α → M V β} {R : β → World V → Prop} (hx : Ends T w x w₁ Q)
    (hf : ∀ a w', Q a w' → Ends T w (f a) w' R) : Ends T w (x >>= f) w₁ R := by
  unfold Ends
  rw [wp_bind]
  exact wp_mono hx hf (fun _ _ => False.elim) (fun _ _ => id)

/-- The rest of a function, after it has called another one. -/
theorem Ends.call {f : α → M V β} {R : β → World V → Prop} (hs : Steps w w₁)
    (hx : Ends T w₁ x w₁ Q) (hf : ∀ a w', Q a w' → Ends T w (f a) w' R) :
    Ends T w (x >>= f) w₁ R :=
  (hx.after hs).bind hf

theorem Ends.pure {a : α} (h : Q a w₁) : Ends T w (Pure.pure a) w₁ Q := h

theorem Ends.read {g : World V → β} {f : β → M V α} (h : Ends T w (f (g w₁)) w₁ Q) :
    Ends T w (Prog.read g >>= f) w₁ Q := h

theorem Ends.modify {g : World V → World V} {f : Unit → M V α}
    (h : Ends T w (f ()) (g w₁) Q) : Ends T w (Prog.modify g >>= f) w₁ Q := h

theorem Ends.modify' {g : World V → World V} {Q : Unit → World V → Prop} (h : Q () (g w₁)) :
    Ends T w (Prog.modify g) w₁ Q := h

theorem Ends.deref {k : Fault} {g : World V → Option β} {f : β → M V α}
    (h : ∀ b, g w₁ = some b → Ends T w (f b) w₁ Q)
    (hk : g w₁ = none → Halts T w (.fault k) w₁) :
    Ends T w (Prog.deref (.fault k) g >>= f) w₁ Q := by
  unfold Ends
  rw [wp_bind, wp_deref]
  exact ⟨h, hk⟩

/-- An object is read; where it has been destroyed, the fault is not a watched one. -/
theorem Ends.load {k : Fault} {g : World V → Option β} {f : β → M V α}
    (hk : k.watched = false) (h : ∀ b, g w₁ = some b → Ends T w (f b) w₁ Q) :
    Ends T w (Prog.deref (.fault k) g >>= f) w₁ Q :=
  .deref h fun _ => .unwatched hk

/-- A slot is read whose rep is going to be exchanged. -/
theorem Ends.intact {s : SlotAddr} {f : SlotBase → M V α}
    (h : ∀ sl, w₁.slots s = some sl → sl.dying = false → Ends T w (f sl) w₁ Q) :
    Ends T w (loadIntact s >>= f) w₁ Q :=
  .load rfl fun sl hsl => by
    obtain ⟨hsl, hd⟩ := Option.filter_eq_some_iff.mp hsl
    exact h sl hsl (by simpa using hd)

theorem Ends.unwatched {f : Fault} (hf : f.watched = false) : Ends T w (fault f) w₁ Q :=
  show Halts T w (.fault f) w₁ from Halts.unwatched hf

theorem Ends.stuck {f : Fault} (hs : Steps w w') (h : Stuck f w') : Ends T w (fault f) w₁ Q :=
  show Halts T w (.fault f) w₁ from Halts.stuck hs h

/-! ## Straight-line functions -/

/-- A function that runs no other code: it halts only on an object that has been destroyed. -/
def Straight {α : Type} (x : M V α) : Prop :=
  ∀ w, wp x (fun _ _ => True) (fun _ _ => False) (fun h _ => ∃ f, h = .fault f ∧ f.watched = false) w

namespace Straight

theorem pure (a : α) : Straight (Pure.pure a : M V α) := fun _ => trivial

theorem read (g : World V → α) : Straight (Prog.read g) := fun _ => trivial

theorem modify (g : World V → World V) : Straight (Prog.modify g) := fun _ => trivial

theorem fault {f : Fault} (hf : f.watched = false) : Straight (Sigc.fault f : M V α) :=
  fun _ => ⟨f, rfl, hf⟩

theorem deref {k : Fault} {g : World V → Option α} (hk : k.watched = false) :
    Straight (Prog.deref (.fault k) g) := fun _ =>
  wp_deref.mpr ⟨fun _ _ => trivial, fun _ => ⟨k, rfl, hk⟩⟩

theorem bind {f : α → M V β} (hx : Straight x) (hf : ∀ a, Straight (f a)) :
    Straight (x >>= f) := fun w => by
  rw [wp_bind]
  exact wp_mono (hx w) (fun a w' _ => hf a w') (fun _ _ => id) (fun _ _ => id)

theorem ite {c : Prop} [Decidable c] {y : M V α} (hx : Straight x) (hy : Straight y) :
    Straight (if c then x else y) := by
  split
  · exact hx
  · exact hy

end Straight

theorem Ends.straight (hx : Straight x) (hQ : ∀ a w', x w₁ = (.ret a, w') → Q a w') :
    Ends T w x w₁ Q := by
  have h := hx w₁
  unfold Ends wp at *
  rcases hs : x w₁ with ⟨a | e | k, w'⟩ <;> rw [hs] at h
  · exact hQ a w' hs
  · exact h
  · obtain ⟨f, rfl, hf⟩ := h
    exact Halts.unwatched hf

/-- A straight-line function is run, and then the rest. -/
theorem Ends.run {f : α → M V β} {R : β → World V → Prop} (hx : Straight x)
    (h : ∀ a w', x w₁ = (.ret a, w') → Ends T w (f a) w' R) : Ends T w (x >>= f) w₁ R :=
  (Ends.straight hx h).bind fun _ _ => id

/-! ## Calls through pointers -/

/-- The end of `notify_slot_rep_invalidated()` for `r`, called in `w`: its frame is about to be
popped, and its notifier to be destroyed. -/
def Invalidated (w : World V) (r : Addr) (w' : World V) : Prop :=
  ∃ w₁ x c, Steps w w₁ ∧ w₁.frames = .invalidating r x :: w.frames ∧ w₁.weaks x = some c ∧
    (c.ptr = none ∨ w₁.Gutted r) ∧ WeakRawPtr.destroy x w₁.pop = (.ret (), w')

theorem Invalidated.goes {r : Addr} (h : Invalidated w r w') : Goes w w' := by
  -- What is left to do is to destroy the notifier.
  obtain ⟨w₁, x, c, hs, hf, hx, hg, hd⟩ := h
  refine ⟨hs.tail (.slot (.endInvalidation hf hx hg hd)), ?_⟩
  obtain ⟨tks, _, -, rfl, -⟩ := WeakRawPtr.destroy_effect hd
  simp [World.pop, hf]

structure Env.Spec (T : World V → Prop) (u : Env V) : Prop where
  client : ∀ w b, Sound w → w.UserPoint →
    wp (u.call (.client b)) (fun _ => Goes w) (fun _ w' => b = false ∧ Goes w w') (Halts T w) w
  handler : ∀ w r rep, Sound w → w.Calm → w.reps r = some rep → rep.call = true →
    wp (u.call (.handler r)) (fun _ => Goes w) (fun _ => Goes w) (Halts T w) w
  notify : ∀ w r, Sound w → w.Calm ∨ w.CallsBack r →
    Ends T w (u.call (.notify r)) w fun _ => Invalidated w r
  functorDtor : ∀ w r f, Sound w → w.Calm → r < w.next → w.Gutted r → w.FunctorOk f →
    Ends T w (u.call (.functorDtor r f)) w fun _ => Goes w
  dispose : ∀ w i below, Sound w → w.frames = .releasing i :: below →
    w.owned i = false →
    Ends T w (u.call (.dispose i)) w fun _ w' => Goes w w' ∧ w'.impls i = none

end Sigc
