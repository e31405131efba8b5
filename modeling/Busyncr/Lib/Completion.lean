import Busyncr.Lib.Transition
import Mathlib.Algebra.GroupWithZero.Nat

/-!
Termination of transition systems by a measure.

Steps lower the measure, except those that were paid for; so a run is no
longer than the measure of its start and what was paid on the way.  Where
every good state has a step to a good state of a smaller measure, every good
state can be run to the end.
-/

namespace Transition

universe u v

variable {State : Type u} {Event : Type v} {step : State → Event → Option State}

/-- What the steps of a run were paid in total. -/
def paid (step : State → Event → Option State) (price : State → Event → Nat) (start : State)
    (events : List Event) : Nat :=
  ((visits step start events).map fun visit => price visit.before visit.event).sum

theorem run_length_le {measure : State → Nat} {price : State → Event → Nat}
    {start final : State} {events : List Event}
    (executed : run step start events = some final)
    (falls : ∀ visit ∈ visits step start events,
      measure visit.after + 1 ≤ measure visit.before + price visit.before visit.event) :
    events.length + measure final ≤ measure start + paid step price start events := by
  induction events generalizing start with
  | nil =>
      cases executed
      simp
  | cons event rest inductionHypothesis =>
      obtain ⟨next, stepped, continued⟩ := run_cons_eq_some executed
      rw [visits_cons stepped] at falls
      obtain ⟨first, later⟩ := List.forall_mem_cons.mp falls
      have onward := inductionHypothesis continued later
      simp only at first
      simp only [paid, visits_cons stepped, List.map_cons, List.sum_cons, List.length_cons] at onward ⊢
      omega

/-- A good state is run to the end by allowed events, where every good state
has ended or has an allowed step that lowers the measure. -/
theorem exists_completion (measure : State → Nat) {Good Ended : State → Prop}
    {Allowed : Event → Prop}
    (progress : ∀ state, Good state → Ended state ∨ ∃ event next, Allowed event ∧
      step state event = some next ∧ Good next ∧ measure next < measure state)
    {start : State} (good : Good start) :
    ∃ events final, run step start events = some final ∧ Ended final ∧ Good final ∧
      ∀ event ∈ events, Allowed event := by
  induction sized : measure start using Nat.strongRecOn generalizing start with
  | ind size inductionHypothesis =>
      obtain ended | ⟨event, next, allowed, stepped, goodNext, smaller⟩ := progress start good
      · exact ⟨[], start, rfl, ended, good, by simp⟩
      · obtain ⟨events, final, executed, ended, goodFinal, all⟩ :=
          inductionHypothesis (measure next) (sized ▸ smaller) goodNext rfl
        refine ⟨event :: events, final, ?_, ended, goodFinal,
          List.forall_mem_cons.mpr ⟨allowed, all⟩⟩
        simp [run, stepped, executed]

end Transition
