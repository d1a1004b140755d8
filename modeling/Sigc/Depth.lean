import Sigc.Register

/-!
# How deep the functions on a list are nested

Every emission writes down how many functions hold the execution count of its list when it has
started.  Besides the emissions there are never more than one function that erases elements and one
call of `clear()`, so that these numbers bound the depth at every point of the run.
-/

namespace Sigc

open Reasoning Prog

variable {V : Type} {w w' : World V} {i : Addr} {self self' : SignalImpl}

/-- Is this frame a `clear()` that has been called while the list was in use? -/
def Frame.within : Frame V → Bool
  | .clear _ _ _ true _ => true
  | _ => false

/-- A `clear()` from within goes on as one, and erases nothing. -/
theorem Frame.Moves.within {f g : Frame V} {l l' : List SlotAddr} (h : f.Moves i w l g l') :
    g.within = f.within ∧ ∀ it er saved, g = .clear i it er true saved → er = none := by
  cases h with
  | @clearNext it it' during saved l next severed =>
    exact ⟨by cases during <;> rfl, fun it er saved h => (Frame.clear.inj h).2.2.1.symm⟩
  | _ => exact ⟨rfl, fun it er saved h => by cases h⟩

/-- Is this event anything but the start of an emission of `i` that is too deep? -/
def Event.shallow (i : Addr) : Event → Bool
  | .started j _ k => j != i || decide (k + 1 < 2 ^ 15)
  | _ => true

namespace World

/-- No emission of `i` has started with more functions on the list than a `short` can count, and one
to spare. -/
def Shallow (w : World V) (i : Addr) : Prop := ∀ m k, .started i m k ∈ w.log → k + 1 < 2 ^ 15

/-- How many functions run on the list `i`. -/
structure Depth (w : World V) (i : Addr) : Prop where
  others : w.impls i ≠ none → ∀ b, 1 ≤ b → (∀ m k, .started i m k ∈ w.log → k ≤ b) →
    (w.users i).countP (fun f => !f.within) ≤ b
  within : w.impls i ≠ none → ∀ it er saved, .clear i it er true saved ∈ w.users i → er = none

theorem shallow_iff : w.log.all (Event.shallow i) = true ↔ w.Shallow i := by
  rw [List.all_eq_true]
  constructor
  · intro h m k hm
    simpa [Event.shallow] using h _ hm
  · intro h ev hm
    cases ev with
    | started j m k =>
      by_cases hj : j = i
      · simpa [Event.shallow, hj] using h m k (hj ▸ hm)
      · simp [Event.shallow, hj]
    | _ => rfl

instance : Decidable (w.Shallow i) := decidable_of_iff _ shallow_iff

theorem Shallow.before (h : w'.Shallow i) (log : w.log <:+ w'.log) : w.Shallow i :=
  fun m k hm => h m k (log.subset hm)

/-- A `clear()` that was called while the list was in use is on top of the stack. -/
theorem Depth.count_within (hd : w.Depth i) (impl : w.impls i ≠ none) (ho : w.OnTop i) :
    (w.users i).countP Frame.within ≤ 1 := by
  -- A clear() from within destroys no element, so that it would have to be on top of the stack.
  have hclears : (w.users i).countP Frame.within ≤ w.frames.countP (Frame.clears i) := by
    rw [users, List.countP_filter]
    apply List.countP_mono_left
    intro f hf hboth
    obtain ⟨hw, hexec⟩ := Bool.and_eq_true_iff.mp hboth
    cases f with
    | clear j it er during saved =>
      cases during with
      | false => cases hw
      | true =>
        obtain rfl : j = i := of_decide_eq_true hexec
        obtain rfl := hd.within impl it er saved (List.mem_filter.mpr ⟨hf, hexec⟩)
        exact decide_eq_true rfl
    | _ => cases hw
  refine Nat.le_trans hclears ?_
  cases hframes : w.frames with
  | nil => simp
  | cons f rest =>
    have hrest : rest.countP (Frame.clears i) = 0 := by
      refine List.countP_eq_zero.mpr fun g hg => ?_
      rw [ho g (by rw [hframes]; exact hg)]
      exact Bool.false_ne_true
    rw [List.countP_cons, hrest]
    split <;> omega

theorem Depth.fits (hd : w.Depth i) (ho : w.OnTop i) (hs : w.Shallow i) : w.Fits i := by
  intro self himpl
  have impl : w.impls i ≠ none := by simp [himpl]
  have hothers := hd.others impl (2 ^ 15 - 2) (by decide) fun m k hm => by
    have := hs m k hm
    omega
  have hwithin := hd.count_within impl ho
  have hlength := List.length_eq_countP_add_countP Frame.within (l := w.users i)
  rw [length_users] at hlength
  -- The functions on the list are the calls of clear() from within, at most one, and the others.
  have hneg : (w.users i).countP (fun f => decide ¬f.within = true) =
      (w.users i).countP fun f => !f.within := by
    apply List.countP_congr
    intro f _
    simp
  omega

namespace Depth

theorem mono (hd : w.Depth i) (impl : w.impls i ≠ none) (log : w.log <:+ w'.log) {b : Nat}
    (h1 : 1 ≤ b) (hb : ∀ m k, .started i m k ∈ w'.log → k ≤ b) :
    (w.users i).countP (fun f => !f.within) ≤ b :=
  hd.others impl b h1 fun m k hm => hb m k (log.subset hm)

theorem same (hd : w.Depth i) (impl : w.impls i ≠ none) (log : w.log <:+ w'.log)
    (users : w'.users i = w.users i) : w'.Depth i where
  others _ b h1 hb := by
    rw [users]
    exact hd.mono impl log h1 hb
  within _ it er saved hm := hd.within impl it er saved (users ▸ hm)

/-- One function runs on the list, which is no `clear()` from within. -/
theorem single {f : Frame V} (users : w.users i = [f]) (hf : f.within = false) : w.Depth i where
  others _ b h1 _ := by
    rw [users, List.countP_singleton]
    split <;> omega
  within _ it er saved hm := by
    rw [users, List.mem_singleton] at hm
    rw [← hm] at hf
    cases hf

theorem idle (users : w.users i = []) : w.Depth i where
  others _ b _ _ := by
    rw [users]
    exact Nat.zero_le b
  within _ it er saved hm := by
    rw [users] at hm
    cases hm

/-- The innermost function has left the list. -/
theorem rest {f : Frame V} {rest : List (Frame V)} (hd : w.Depth i) (impl : w.impls i ≠ none)
    (log : w.log <:+ w'.log) (users : w.users i = f :: rest) (users' : w'.users i = rest) :
    w'.Depth i where
  others _ b h1 hb := by
    have hle := hd.mono impl log h1 hb
    rw [users, List.countP_cons] at hle
    rw [users']
    omega
  within _ it er saved hm :=
    hd.within impl it er saved (users ▸ List.mem_cons_of_mem f (users' ▸ hm))

theorem clearWithin {it : Option SlotAddr} {saved : Bool} (hd : w.Depth i)
    (impl : w.impls i ≠ none) (log : w.log <:+ w'.log)
    (users : w'.users i = .clear i it none true saved :: w.users i) : w'.Depth i where
  others _ b h1 hb := by
    rw [users, List.countP_cons_of_neg (by simp [Frame.within])]
    exact hd.mono impl log h1 hb
  within _ it er saved hm := by
    rw [users] at hm
    cases List.mem_cons.mp hm with
    | inl heq => exact (Frame.clear.inj heq).2.2.1
    | inr hm => exact hd.within impl it er saved hm

theorem move {f g : Frame V} {rest : List (Frame V)} {l l' : List SlotAddr} (hd : w.Depth i)
    (impl : w.impls i ≠ none) (log : w.log <:+ w'.log) (moves : f.Moves i w l g l')
    (users : w.users i = f :: rest) (users' : w'.users i = g :: rest) : w'.Depth i where
  others _ b h1 hb := by
    have hle := hd.mono impl log h1 hb
    rw [users, List.countP_cons] at hle
    rw [users', List.countP_cons, moves.within.1]
    exact hle
  within _ it er saved hm := by
    rw [users'] at hm
    cases List.mem_cons.mp hm with
    | inl heq => exact moves.within.2 it er saved heq.symm
    | inr hm => exact hd.within impl it er saved (users ▸ List.mem_cons_of_mem f hm)

/-- The emission that starts has written down how deep the list is. -/
theorem start {e : Emission V} (hd : w.Depth i) (impl : w.impls i ≠ none)
    (log : ∃ m, .started i m (w.execs i + 1) ∈ w'.log)
    (users : w'.users i = .emission e :: w.users i) : w'.Depth i where
  others _ b _ hb := by
    obtain ⟨m, hm⟩ := log
    have hk := hb m (w.execs i + 1) hm
    -- The count in the log includes the new emission, and all that are below it.
    have hall : (w.users i).countP (fun f => !f.within) ≤ w.execs i := by
      rw [← length_users]
      exact List.countP_le_length
    rw [users, List.countP_cons]
    split <;> omega
  within _ it er saved hm := by
    rw [users] at hm
    cases List.mem_cons.mp hm with
    | inl heq => cases heq
    | inr hm => exact hd.within impl it er saved hm

end Depth

/-- Where a placeholder is appended, an emission has started. -/
theorem Traversed.started {e : Emission V} (ht : w.Traversed i) (h : Step w w') (hw : Sound w)
    (impl : w.impls i = some self) (impl' : w'.impls i = some self')
    (slots : self'.slots = self.slots ++ [e.placeholder])
    (users : w'.users i = .emission e :: w.users i) :
    ∃ m, .started i m (w.execs i + 1) ∈ w'.log := by
  have hm : .emission e ∈ w'.users i := users ▸ List.mem_cons_self
  have himpl := impl_of_user hm
  rcases (h.entryStep hw).emissions e (List.mem_filter.mp hm).1 with
    hold | ⟨e₀, below, -, -, impls, -⟩ | ⟨-, -, -, -, -, -, ⟨m, log⟩, -⟩
  · -- its placeholder would be in the list twice
    obtain ⟨x, hx, hspan⟩ := ht.spans e (himpl ▸ emission_user hold)
    obtain rfl := Option.some.inj (impl.symm.trans hx)
    have hnodup := (h.sound hw).linked.nodup i self' impl'
    rw [slots] at hnodup
    have hp : e.placeholder ∈ self.slots :=
      hspan.subset (List.mem_append_right _ (List.mem_singleton_self _))
    exact absurd rfl
      ((List.nodup_append.mp hnodup).2.2 _ hp _ (List.mem_singleton_self _))
  · rw [impls, impl] at impl'
    rw [Option.some.inj impl'] at slots
    have hlength := congrArg List.length slots
    simp at hlength
  · exact ⟨m, by rw [log, himpl]; exact List.mem_cons_self⟩

/-- Only an emission that starts takes the list deeper than before. -/
theorem Depth.step (hd : w.Depth i) (h : Step w w') (hw : Sound w) (hd₀ : w.Discipline i)
    (ht : w.Traversed i) (bound : w.Fits i) : w'.Depth i := by
  have log := (h.advances hw.toWellAddressed).extension.log
  cases impl' : w'.impls i with
  | none => exact ⟨fun hne => absurd impl' hne, fun hne => absurd impl' hne⟩
  | some self' =>
  cases impl : w.impls i with
  | none => exact .idle (h.listStep.created hw.toWellAddressed impl impl').2
  | some self =>
  have hne : w.impls i ≠ none := by simp [impl]
  cases h.listStep.useStep hw.toWellAddressed hd₀.counted (bound self impl) impl impl' with
  | quiet same users => exact hd.same hne log users
  | insert first slots deferred users => exact hd.same hne log users
  | defer slots deferred users => exact hd.same hne log users
  | restore slots top users => exact hd.same hne log users
  | erase idle slots users => exact .single users rfl
  | beginClear idle slots users => exact .single users rfl
  | sweep slots last users users' => exact .single users' rfl
  | leave slots deferred last users users' => exact hd.rest hne log users users'
  | finish himpl slots deferred users users' => exact hd.rest hne log users users'
  | clearWithin slots deferred users => exact hd.clearWithin hne log users
  | move moves deferred users users' => exact hd.move hne log moves users users'
  | start slots deferred users =>
    exact hd.start hne (ht.started h hw impl impl' slots users) users

end World

end Sigc
