import Sigc.Guarantees

/-!
# Disconnections commute

A slot can be disconnected in many ways: at once, while the list is idle; by a handler, so that it
is removed when the emission has ended; by `clear()`, or because a trackable has died.  Which slots
are left, and in which order, depends on what has been connected and on what has been disconnected,
and on nothing else.
-/

namespace Sigc

open Reasoning

variable {V : Type} {w w' w₁ w₂ : World V} {i : Addr}

/-- No slot has been connected that could be called and had been disconnected before. -/
def World.Ordered (w : World V) (i : Addr) : Prop :=
  Proper (w.log.filterMap (Event.subscription i))

theorem World.Ordered.step (ho : w.Ordered i) (h : Step w w') (ht' : w'.Told) : w'.Ordered i := by
  unfold Ordered at ho ⊢
  cases h.logStep with
  | quiet log => rwa [log]
  | @other ev neutral calls notice moves log =>
    have hsub : ev.subscription i = none := by
      cases ev <;> first | rfl | cases neutral
    rwa [log, List.filterMap_cons_none hsub]
  | disconnected alive log call =>
    rcases log with log | log
    · rw [log]
      exact ho
    · rw [log]
      exact ho
  | @connected j self a sl r rep first impl sets slot holds alive log =>
    cases hsub : (Event.connected j (some r) first rep.call).subscription i with
    | none => rwa [log, List.filterMap_cons_none hsub]
    | some entry =>
      cases hcall : rep.call with
      | false =>
        rw [hcall] at hsub
        cases hsub
      | true =>
        have hentry : entry = .enter first r := by
          rw [hcall] at hsub
          simp only [Event.subscription, Option.ite_none_right_eq_some, Option.some.injEq] at hsub
          exact hsub.2.symm
        rw [log, List.filterMap_cons_some hsub, hentry]
        refine ⟨fun hm => ?_, ho⟩
        -- a rep that has been disconnected cannot be called
        have hdisconnected : .disconnected r ∈ w'.log := by
          rw [log]
          exact List.mem_cons_of_mem _ (Event.leave_mem.mp hm)
        rw [(ht' r hdisconnected).2 rep alive] at hcall
        cases hcall

theorem Steps.ordered {script : List (Cmd V)} (h : Steps ({ script } : World V) w) :
    w.Ordered i := by
  have hboth : Sound w ∧ w.Told ∧ w.Ordered i := by
    refine h.preserves (P := fun w => Sound w ∧ w.Told ∧ w.Ordered i)
      ⟨.initial script, (fun _ h => by cases h), trivial⟩ ?_
    rintro v v' hstep ⟨hv, ht, ho⟩
    have ht' := ht.step hstep hv.toWellAddressed
    exact ⟨hstep.sound hv, ht', ho.step hstep ht'⟩
  exact hboth.2.2

/-- The connections to `i`, the latest first. -/
def World.connections (w : World V) (i : Addr) : List (Subscription Addr) :=
  (w.log.filterMap (Event.subscription i)).filter Subscription.enters

/-- Two runs that have connected the same slots to a signal in the same order, and disconnected the
same slots in any order and at any time, have left the same slots connected, in the same order. -/
theorem Steps.confluent {script₁ script₂ : List (Cmd V)} (h₁ : Steps ({ script := script₁ }) w₁)
    (h₂ : Steps ({ script := script₂ }) w₂) (hs₁ : w₁.Shallow i) (hs₂ : w₂.Shallow i)
    (connected : w₁.connections i = w₂.connections i)
    (disconnected : ∀ r, .disconnected r ∈ w₁.log ↔ .disconnected r ∈ w₂.log) :
    w₁.callables i = w₂.callables i := by
  rw [(h₁.tracked_initial hs₁).register, (h₂.tracked_initial hs₂).register]
  apply subscribers_confluent h₁.ordered h₂.ordered connected
  intro r
  rw [Event.leave_mem, Event.leave_mem]
  exact disconnected r

/-- The slot that is called last is disconnected by a handler, or where no emission runs. -/
theorem confluent_disconnected :
    duringEmission.callables 3 = (twoSlots.after (.disconnect 7)).callables 3 := by
  obtain ⟨script₁, h₁⟩ := duringEmission_steps
  obtain ⟨script₂, h₂, user⟩ := twoSlots_steps
  have hgoes := World.after_goes (c := .disconnect 7) (h₂.sound (.initial script₂)) user
    (by decide +kernel) (by decide +kernel)
  have hlog₁ : duringEmission.log = [.disconnected 4, .invoked 8, .started 3 1 1,
      .connected 3 (some 8) true true, .connected 3 (some 4) false true] := by
    decide +kernel
  have hlog₂ : (twoSlots.after (.disconnect 7)).log = [.notified 4 [], .disconnected 4,
      .connected 3 (some 8) true true, .connected 3 (some 4) false true] := by
    decide +kernel
  refine h₁.confluent (h₂.trans hgoes.1) (by decide +kernel) (by decide +kernel)
    (by decide +kernel) fun r => ?_
  rw [hlog₁, hlog₂]
  simp

end Sigc
