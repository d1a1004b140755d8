import Sigc.Safety

/-!
# Runs and steps

The functions of the library, as the interpreter runs them, refine the step relation: whatever a
program does with the library is a sequence of steps, and what holds of every world that is reached
by steps holds wherever the program has control.
-/

namespace Sigc

open Reasoning Prog

variable {V : Type} {w w' : World V} {script : List (Cmd V)}

/-- What the steps tell of the end of a run. -/
def Explained (script : List (Cmd V)) : Outcome Nat Halt V → World V → Prop
  | .ret _, w | .throw _, w => Steps { script } w ∧ w.frames = []
  | .halt .stop, w => Steps { script } w ∧ w.UserPoint
  | .halt .fuel, _ => True
  | .halt (.fault f), _ => f.watched = true → ∃ w₁, Steps { script } w₁ ∧ Stuck f w₁ ∧
      (f = .cursor ∨ f = .iter → ∃ i, ¬w₁.Shallow i)

/-- A run of a program is a sequence of steps.  When it is over, no function of the library is
running; where it waits for a command, the main function, a functor or the destructor of a functor
has control; and where it makes a watched fault, the steps have come to a world that is stuck,
which has no iterators to blame unless the execution count has overflowed. -/
theorem run_explained [Inhabited V] (fuel : Nat) (script : List (Cmd V)) :
    Explained script (run fuel script).1 (run fuel script).2 := by
  have hspec := run_spec fuel script
  unfold run
  unfold wp at hspec
  rcases hrun : dispatch fuel (.client false) ({ script } : World V) with ⟨v | e | k, w⟩ <;>
    rw [hrun] at hspec
  · exact hspec
  · exact hspec.2
  · cases k with
    | stop => exact hspec
    | fuel => trivial
    | fault f =>
      intro watched
      obtain ⟨w₁, hs, hstuck⟩ := hspec watched
      refine ⟨w₁, hs, hstuck, fun hf => ?_⟩
      by_contra hshallow
      have hall (i : Addr) : w₁.Shallow i := by
        by_contra hi
        exact hshallow ⟨i, hi⟩
      rcases hf with rfl | rfl
      · exact hs.cursor_kept hall hstuck
      · exact hs.iter_kept hall hstuck

/-- Objects hang together in every state of every run: a rep is in one slot, the elements of a list
are the living slots that it owns, and a record is the parent of the element that it points to. -/
theorem Steps.linked_initial (h : Steps ({ script } : World V) w) : w.Linked :=
  (h.sound (.initial script)).linked

theorem linked_disconnected : duringEmission.Linked := by
  obtain ⟨script, h⟩ := duringEmission_steps
  exact h.linked_initial

/-- From one state of a run to a later one, objects being told apart by their addresses: a rep that
cannot be called any more never can be again, it never gets another functor, and it is not destroyed
before its base; an element of a list keeps its rep, and a slot its owner; and a signal that nobody
shares any more is never shared again. -/
theorem Steps.objects_evolve (h : Steps ({ script } : World V) w) (h' : Steps w w') :
    (∀ r rep, w.reps r = some rep → (∃ rep', w'.reps r = some rep') ∨ w'.trackables r = none) ∧
    (∀ r rep rep', w.reps r = some rep → w'.reps r = some rep' → rep.Becomes rep') ∧
    (∀ a sl sl', w.slots (.object a) = some sl → w'.slots (.object a) = some sl' →
      sl.Becomes sl') ∧
    ∀ i impl, w.impls i = some impl → w.owned i = false → w'.owned i = false := by
  have hw := (h.sound (.initial script)).toWellAddressed
  have he := (h'.proceeds (h.sound (.initial script))).extension
  refine ⟨fun r rep hrep => he.bases r (hw.reps r rep hrep) rep hrep,
    fun r rep rep' hrep hrep' => ?_, fun a sl sl' hsl hsl' => ?_,
    fun i impl himpl => he.unowned i (hw.impls i impl himpl)⟩
  · obtain ⟨x, hx, hbecomes⟩ := he.reps.old (hw.reps r rep hrep) hrep'
    rwa [← Option.some.inj (hx.symm.trans hrep)]
  · obtain ⟨x, hx, hbecomes⟩ := he.slots.old (hw.slots a sl hsl) hsl'
    rwa [← Option.some.inj (hx.symm.trans hsl)]

/-- One slot of two is disconnected, and the other one stays. -/
theorem objects_evolve_disconnect : ∃ w' : World Unit, Steps twoSlots w' ∧
    .disconnected 4 ∈ w'.log ∧ ∃ sl sl', twoSlots.slots (.object 9) = some sl ∧
      w'.slots (.object 9) = some sl' ∧ sl.Becomes sl' := by
  obtain ⟨script, h, user⟩ := twoSlots_steps
  have hgoes := World.after_goes (c := .disconnect 7) (h.sound (.initial script)) user
    (by decide +kernel) (by decide +kernel)
  have hlog : .disconnected 4 ∈ (twoSlots.after (.disconnect 7)).log := by decide +kernel
  have hold : twoSlots.slots (.object 9) = some { rep := some 8, owner := .list 3 } := by
    decide +kernel
  have hnew : (twoSlots.after (.disconnect 7)).slots (.object 9) =
      some { rep := some 8, owner := .list 3 } := by decide +kernel
  exact ⟨_, hgoes.1, hlog, _, _, hold, hnew, (h.objects_evolve hgoes.1).2.2.1 9 _ _ hold hnew⟩

end Sigc
