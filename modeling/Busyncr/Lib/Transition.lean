import Mathlib.Data.List.Induction
import Mathlib.Tactic.Common

/-!
Executable labelled transition systems.

A system is a partial step function: `none` means that the event is not
enabled in the state.  A run is a list of events; `visits` recovers every
step the run took, so that a property of a whole history is a property of
that list.
-/

namespace Transition

universe u v

/-- One step of a run: the event with the states around it. -/
structure Visit (State : Type u) (Event : Type v) where
  before : State
  event : Event
  after : State

variable {State : Type u} {Event : Type v} (step : State → Event → Option State)

/-- Execute a list of events; `none` as soon as one of them is not enabled. -/
def run (state : State) : List Event → Option State
  | [] => some state
  | event :: rest => (step state event).bind fun next => run next rest

/-- The steps taken by a list of events, up to the first one not enabled. -/
def visits (state : State) : List Event → List (Visit State Event)
  | [] => []
  | event :: rest =>
      match step state event with
      | none => []
      | some next => ⟨state, event, next⟩ :: visits next rest

variable {step}

theorem run_append (state : State) (first second : List Event) :
    run step state (first ++ second) =
      (run step state first).bind fun middle => run step middle second := by
  induction first generalizing state with
  | nil => rfl
  | cons event rest inductionHypothesis =>
      simp only [List.cons_append, run]
      cases step state event with
      | none => rfl
      | some next => exact inductionHypothesis next

theorem run_append_eq_some {state final : State} {first second : List Event}
    (executed : run step state (first ++ second) = some final) :
    ∃ middle, run step state first = some middle ∧
      run step middle second = some final := by
  rw [run_append] at executed
  exact Option.bind_eq_some_iff.mp executed

theorem run_cons_eq_some {state final : State} {event : Event} {rest : List Event}
    (executed : run step state (event :: rest) = some final) :
    ∃ next, step state event = some next ∧ run step next rest = some final :=
  Option.bind_eq_some_iff.mp executed

theorem run_concat (state : State) (events : List Event) (event : Event) :
    run step state (events ++ [event]) =
      (run step state events).bind fun middle => step middle event := by
  rw [run_append]
  congr 1
  funext middle
  simp [run]

theorem visits_cons {state next : State} {event : Event}
    (stepped : step state event = some next) (rest : List Event) :
    visits step state (event :: rest) = ⟨state, event, next⟩ :: visits step next rest := by
  simp only [visits, stepped]

theorem visits_append {state middle : State} {first : List Event}
    (executed : run step state first = some middle) (second : List Event) :
    visits step state (first ++ second) =
      visits step state first ++ visits step middle second := by
  induction first generalizing state with
  | nil =>
      cases executed
      rfl
  | cons event rest inductionHypothesis =>
      rcases run_cons_eq_some executed with ⟨next, stepped, continued⟩
      simp only [List.cons_append, visits, stepped, inductionHypothesis continued]

theorem visits_concat {state middle final : State} {events : List Event} {event : Event}
    (executed : run step state events = some middle)
    (stepped : step middle event = some final) :
    visits step state (events ++ [event]) =
      visits step state events ++ [⟨middle, event, final⟩] := by
  rw [visits_append executed]
  simp [visits, stepped]

/-- Every recorded visit is a step of the system. -/
theorem visit_step {state : State} {events : List Event} {visit : Visit State Event}
    (visited : visit ∈ visits step state events) :
    step visit.before visit.event = some visit.after := by
  induction events generalizing state with
  | nil => simp [visits] at visited
  | cons event rest inductionHypothesis =>
      cases stepped : step state event with
      | none => simp [visits, stepped] at visited
      | some next =>
          simp only [visits, stepped, List.mem_cons] at visited
          rcases visited with same | later
          · subst same
            exact stepped
          · exact inductionHypothesis later

theorem visit_event_mem {state : State} {events : List Event} {visit : Visit State Event}
    (visited : visit ∈ visits step state events) : visit.event ∈ events := by
  induction events generalizing state with
  | nil => simp [visits] at visited
  | cons event rest inductionHypothesis =>
      cases stepped : step state event with
      | none => simp [visits, stepped] at visited
      | some next =>
          simp only [visits, stepped, List.mem_cons] at visited
          rcases visited with same | later
          · subst same
            simp
          · exact List.mem_cons_of_mem _ (inductionHypothesis later)

/-- Every event of a run that went through was visited. -/
theorem exists_visit_of_mem {state final : State} {events : List Event} {event : Event}
    (executed : run step state events = some final) (listed : event ∈ events) :
    ∃ visit ∈ visits step state events, visit.event = event := by
  induction events generalizing state with
  | nil => cases listed
  | cons first rest inductionHypothesis =>
      obtain ⟨next, stepped, continued⟩ := run_cons_eq_some executed
      rw [visits_cons stepped]
      rcases List.mem_cons.mp listed with rfl | later
      · exact ⟨_, List.mem_cons_self, rfl⟩
      · obtain ⟨visit, visited, same⟩ := inductionHypothesis continued later
        exact ⟨visit, List.mem_cons_of_mem _ visited, same⟩

/-- Induction over a run from its start: a property of the events executed so
far and of the state they reach. -/
theorem run_induction {start : State} (Holds : List Event → State → Prop)
    (initial : Holds [] start)
    (preserved : ∀ events middle event final,
      run step start events = some middle → Holds events middle →
      step middle event = some final → Holds (events ++ [event]) final)
    {events : List Event} {final : State}
    (executed : run step start events = some final) : Holds events final := by
  induction events using List.reverseRecOn generalizing final with
  | nil =>
      cases executed
      exact initial
  | append_singleton events event inductionHypothesis =>
      rw [run_concat] at executed
      rcases Option.bind_eq_some_iff.mp executed with ⟨middle, reached, stepped⟩
      exact preserved events middle event final reached
        (inductionHypothesis reached) stepped

/-- Induction over the runs from a start, with the property known at every
earlier place. -/
theorem run_strong_induction {start : State} (Holds : List Event → State → Prop)
    (reached : ∀ events final, run step start events = some final →
      (∀ first event second middle, events = first ++ event :: second →
        run step start first = some middle → Holds first middle) → Holds events final)
    (events : List Event) {final : State}
    (executed : run step start events = some final) : Holds events final := by
  induction sized : events.length using Nat.strongRecOn generalizing events final with
  | ind size inductionHypothesis =>
      refine reached events final executed ?_
      rintro first event second middle rfl earlier
      have shorter : first.length < size := by
        simp only [List.length_append, List.length_cons] at sized
        omega
      exact inductionHypothesis first.length shorter first earlier rfl

/-- An invariant kept by every step the run takes holds where the run ends. -/
theorem run_invariant (Invariant : State → Prop) {start final : State}
    {events : List Event} (initial : Invariant start)
    (preserved : ∀ visit ∈ visits step start events,
      Invariant visit.before → Invariant visit.after)
    (executed : run step start events = some final) : Invariant final := by
  induction events generalizing start with
  | nil =>
      cases executed
      exact initial
  | cons event rest inductionHypothesis =>
      rcases run_cons_eq_some executed with ⟨next, stepped, continued⟩
      simp only [visits, stepped, List.mem_cons, forall_eq_or_imp] at preserved
      exact inductionHypothesis (preserved.1 initial) preserved.2 continued

/-- A run keeps matching the fold of an abstract step that every step
matches. -/
theorem run_refines {View : Type*} (Matches : State → View → Prop)
    (abstract : View → Event → View) {start final : State} {view : View} {events : List Event}
    (initial : Matches start view)
    (matched : ∀ before current event after, Matches before current →
      step before event = some after → Matches after (abstract current event))
    (executed : run step start events = some final) :
    Matches final (events.foldl abstract view) := by
  induction events generalizing start view with
  | nil =>
      cases executed
      exact initial
  | cons event rest inductionHypothesis =>
      obtain ⟨next, stepped, continued⟩ := run_cons_eq_some executed
      exact inductionHypothesis (matched start view event next initial stepped) continued

/-- A place in the recorded history is a place in the run. -/
theorem split_of_visits {start final : State} {events : List Event}
    {before after : List (Visit State Event)} {visit : Visit State Event}
    (executed : run step start events = some final)
    (split : visits step start events = before ++ visit :: after) :
    ∃ first second, events = first ++ visit.event :: second ∧
      run step start first = some visit.before ∧ visits step start first = before ∧
      run step visit.after second = some final ∧ visits step visit.after second = after := by
  induction events generalizing start before with
  | nil => simp [visits] at split
  | cons event rest inductionHypothesis =>
      obtain ⟨next, stepped, continued⟩ := run_cons_eq_some executed
      simp only [visits, stepped] at split
      cases before with
      | nil =>
          obtain ⟨same, later⟩ := List.cons.inj split
          subst same
          exact ⟨[], rest, rfl, rfl, rfl, continued, later⟩
      | cons head earlier =>
          obtain ⟨same, later⟩ := List.cons.inj split
          subst same
          obtain ⟨first, second, rfl, reached, recorded, onward⟩ :=
            inductionHypothesis continued later
          refine ⟨event :: first, second, rfl, ?_, ?_, onward⟩
          · simp [run, stepped, reached]
          · simp [visits, stepped, recorded]

/-- Between two places of the history lies a run. -/
theorem run_between {start final : State} {events : List Event}
    {before between after : List (Visit State Event)} {first second : Visit State Event}
    (executed : run step start events = some final)
    (split : visits step start events = before ++ first :: (between ++ second :: after)) :
    ∃ middle, run step first.after middle = some second.before ∧
      visits step first.after middle = between := by
  obtain ⟨_, later, _, _, _, onward, recorded⟩ := split_of_visits executed split
  obtain ⟨middle, _, _, reached, seen, _⟩ := split_of_visits onward recorded
  exact ⟨middle, reached, seen⟩

/-- Of two visits that differ, one came first. -/
theorem visit_order {visited : List (Visit State Event)} {first second : Visit State Event}
    (firstListed : first ∈ visited) (secondListed : second ∈ visited) :
    first = second ∨
      (∃ before between after, visited = before ++ first :: (between ++ second :: after)) ∨
      ∃ before between after, visited = before ++ second :: (between ++ first :: after) := by
  obtain ⟨before, rest, rfl⟩ := List.append_of_mem firstListed
  rcases List.mem_append.mp secondListed with earlier | later
  · obtain ⟨ahead, between, rfl⟩ := List.append_of_mem earlier
    exact .inr (.inr ⟨ahead, between, rest, by simp⟩)
  · rcases List.mem_cons.mp later with same | deeper
    · exact .inl same.symm
    · obtain ⟨between, after, rfl⟩ := List.append_of_mem deeper
      exact .inr (.inl ⟨before, between, after, rfl⟩)

/-- A concrete run is checked by evaluating it. -/
theorem exists_final_of_any {start : State} {events : List Event} {Holds : State → Prop}
    [DecidablePred Holds]
    (checked : (run step start events).any (fun final => decide (Holds final)) = true) :
    ∃ final, run step start events = some final ∧ Holds final := by
  rcases (Option.any_eq_true _ _).mp checked with ⟨final, reached, holds⟩
  exact ⟨final, reached, of_decide_eq_true holds⟩

section Projection

universe w z

variable {View : Type w} {Label : Type z}

/-- A stuttering projection of a system onto another: every step is a step of
the target as seen through `view`, or leaves the view unchanged. -/
structure Projection (step : State → Event → Option State)
    (target : View → Label → Option View) where
  view : State → View
  label : State → Event → Option Label
  matched : ∀ {state event next}, step state event = some next →
    match label state event with
    | some seen => target (view state) seen = some (view next)
    | none => view next = view state

variable {target : View → Label → Option View} (projection : Projection step target)

/-- The step of the target that a visit is seen as, if it is not a stutter. -/
def Projection.visit? (visit : Visit State Event) : Option (Visit View Label) :=
  (projection.label visit.before visit.event).map fun seen =>
    ⟨projection.view visit.before, seen, projection.view visit.after⟩

/-- The events of the target that a run is seen as. -/
def Projection.events (start : State) (events : List Event) : List Label :=
  (visits step start events).filterMap fun visit => projection.label visit.before visit.event

theorem Projection.run_events {start final : State} {events : List Event}
    (executed : run step start events = some final) :
    run target (projection.view start) (projection.events start events) =
      some (projection.view final) := by
  induction events generalizing start with
  | nil =>
      cases executed
      rfl
  | cons event rest inductionHypothesis =>
      obtain ⟨next, stepped, continued⟩ := run_cons_eq_some executed
      have matched := projection.matched stepped
      have onward := inductionHypothesis continued
      simp only [Projection.events, visits, stepped]
      cases seen : projection.label start event with
      | none =>
          simp only [seen] at matched
          simp only [List.filterMap_cons, seen, ← matched]
          exact onward
      | some label =>
          simp only [seen] at matched
          simp only [List.filterMap_cons, seen, run, matched, Option.bind_some]
          exact onward

theorem Projection.visits_events {start final : State} {events : List Event}
    (executed : run step start events = some final) :
    visits target (projection.view start) (projection.events start events) =
      (visits step start events).filterMap projection.visit? := by
  induction events generalizing start with
  | nil => rfl
  | cons event rest inductionHypothesis =>
      obtain ⟨next, stepped, continued⟩ := run_cons_eq_some executed
      have matched := projection.matched stepped
      have onward := inductionHypothesis continued
      simp only [Projection.events, visits, stepped] at onward ⊢
      cases seen : projection.label start event with
      | none =>
          simp only [seen] at matched
          simp only [List.filterMap_cons, Projection.visit?, seen, Option.map_none, ← matched]
          exact onward
      | some label =>
          simp only [seen] at matched
          simp only [List.filterMap_cons, Projection.visit?, seen, Option.map_some, visits, matched]
          exact congrArg _ onward

end Projection

end Transition
