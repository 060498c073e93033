import Mathlib.Data.List.Basic

namespace Frameleaf.Trace

/-!
# Runs of a machine and what holds along them

A machine performs one step at a time and answers each.  A run is a list of
steps; its trace records the state before and after each step.  An invariant
that every step keeps holds in every state of a run, also when it is kept only
under a condition that each step of the run meets.
-/

variable {State Step Response : Type*}

/-- One step of a run, with the states around it and its answer. -/
structure Entry (State Step Response : Type*) where
  before : State
  step : Step
  response : Response
  after : State

variable (perform : State → Step → State × Response)

/-- What happens when one step is performed. -/
def entry
    (state : State)
    (step : Step) : Entry State Step Response where
  before := state
  step := step
  response := (perform state step).2
  after := (perform state step).1

/-- The state after a run. -/
def finalState : State → List Step → State
  | state, [] => state
  | state, step :: rest => finalState (perform state step).1 rest

/-- Everything that happens in a run. -/
def trace : State → List Step → List (Entry State Step Response)
  | _, [] => []
  | state, step :: rest =>
      entry perform state step :: trace (perform state step).1 rest

/-- Every step of a run meets a condition on it and the state before it. -/
def AllMeet
    (condition : State → Step → Prop) :
    State → List Step → Prop
  | _, [] => True
  | state, step :: rest =>
      condition state step ∧ AllMeet condition (perform state step).1 rest

/-- Whether a run meets a condition can be decided step by step. -/
instance decidableAllMeet
    (condition : State → Step → Prop)
    [∀ state step, Decidable (condition state step)] :
    ∀ state steps, Decidable (AllMeet perform condition state steps)
  | _, [] => isTrue trivial
  | state, step :: rest =>
      have := decidableAllMeet condition (perform state step).1 rest
      inferInstanceAs (Decidable (_ ∧ _))

variable {perform}
variable {condition : State → Step → Prop} {state : State}
variable {steps first second : List Step}

/-- A run in two parts ends where the second part ends. -/
@[simp] theorem finalState_append :
    finalState perform state (first ++ second) =
      finalState perform (finalState perform state first) second := by
  induction first generalizing state with
  | nil =>
      rfl
  | cons step rest inductionHypothesis =>
      exact inductionHypothesis

/-- A run in two parts has the traces of both. -/
@[simp] theorem trace_append :
    trace perform state (first ++ second) =
      trace perform state first ++
        trace perform (finalState perform state first) second := by
  induction first generalizing state with
  | nil =>
      rfl
  | cons step rest inductionHypothesis =>
      exact congrArg (entry perform state step :: ·) inductionHypothesis

/-- A run in two parts meets a condition when both parts do. -/
@[simp] theorem allMeet_append :
    AllMeet perform condition state (first ++ second) ↔
      AllMeet perform condition state first ∧
        AllMeet perform condition (finalState perform state first) second := by
  induction first generalizing state with
  | nil =>
      simp [AllMeet, finalState]
  | cons step rest inductionHypothesis =>
      rw [List.cons_append, AllMeet, inductionHypothesis, AllMeet, and_assoc]
      rfl

theorem allMeet_of_trace
    (meets : ∀ happened ∈ trace perform state steps,
      condition happened.before happened.step) :
    AllMeet perform condition state steps := by
  induction steps generalizing state with
  | nil =>
      exact trivial
  | cons step rest inductionHypothesis =>
      refine ⟨meets _ List.mem_cons_self, inductionHypothesis ?_⟩
      exact fun happened member =>
        meets happened (List.mem_cons_of_mem _ member)

variable {earlier later : List (Entry State Step Response)}

theorem exists_split_of_trace_eq
    (split : trace perform state steps = earlier ++ later) :
    ∃ first second, steps = first ++ second ∧
      trace perform state first = earlier ∧
        trace perform (finalState perform state first) second = later := by
  induction earlier generalizing state steps with
  | nil =>
      exact ⟨[], steps, rfl, rfl, split⟩
  | cons happened rest inductionHypothesis =>
      cases steps with
      | nil =>
          cases split
      | cons step others =>
          obtain ⟨happenedEq, restSplit⟩ := List.cons.inj split
          obtain ⟨first, second, rfl, firstEq, secondEq⟩ :=
            inductionHypothesis restSplit
          refine ⟨step :: first, second, rfl, ?_, secondEq⟩
          rw [trace, firstEq, happenedEq]

variable {happened : Entry State Step Response}

theorem entry_of_trace_eq_cons
    (split : trace perform state steps = happened :: later) :
    ∃ rest, happened = entry perform state happened.step ∧
      later = trace perform happened.after rest := by
  cases steps with
  | nil =>
      cases split
  | cons step rest =>
      obtain ⟨rfl, rfl⟩ := List.cons.inj split
      exact ⟨rest, rfl, rfl⟩

theorem exists_split_of_mem_trace
    (member : happened ∈ trace perform state steps) :
    ∃ earlier step later,
      steps = earlier ++ step :: later ∧
        happened = entry perform (finalState perform state earlier) step := by
  induction steps generalizing state with
  | nil =>
      simp [trace] at member
  | cons step rest inductionHypothesis =>
      rcases List.mem_cons.mp member with rfl | inRest
      · exact ⟨[], step, rest, rfl, rfl⟩
      · obtain ⟨earlier, found, later, rfl, happenedEq⟩ :=
          inductionHypothesis inRest
        exact ⟨step :: earlier, found, later, rfl, happenedEq⟩

variable {invariant : State → Prop}

theorem invariant_finalState
    (kept : ∀ before step, invariant before → condition before step →
      invariant (perform before step).1)
    (initially : invariant state)
    (allMeet : AllMeet perform condition state steps) :
    invariant (finalState perform state steps) := by
  induction steps generalizing state with
  | nil =>
      exact initially
  | cons step rest inductionHypothesis =>
      exact inductionHypothesis (kept state step initially allMeet.1) allMeet.2

theorem invariant_of_kept
    (kept : ∀ before step, invariant before →
      invariant (perform before step).1)
    (initially : invariant state) :
    invariant (finalState perform state steps) := by
  induction steps generalizing state with
  | nil =>
      exact initially
  | cons step rest inductionHypothesis =>
      exact inductionHypothesis (kept state step initially)

theorem invariant_of_mem_trace
    (kept : ∀ before step, invariant before →
      invariant (perform before step).1)
    (initially : invariant state)
    (member : happened ∈ trace perform state steps) :
    invariant happened.before ∧ invariant happened.after := by
  obtain ⟨earlier, step, _, _, rfl⟩ := exists_split_of_mem_trace member
  have before : invariant (finalState perform state earlier) :=
    invariant_of_kept kept initially
  exact ⟨before, kept _ step before⟩

theorem invariant_of_later
    {next : Entry State Step Response}
    (kept : ∀ before step, invariant before →
      invariant (perform before step).1)
    (split : trace perform state steps = earlier ++ happened :: later)
    (afterwards : invariant happened.after)
    (member : next ∈ later) :
    invariant next.before := by
  obtain ⟨first, second, rfl, _, secondEq⟩ := exists_split_of_trace_eq split
  obtain ⟨rest, _, rfl⟩ := entry_of_trace_eq_cons secondEq
  exact (invariant_of_mem_trace kept afterwards member).1

theorem holds_of_history_of_meets
    {holds : List (Entry State Step Response) → State → Prop}
    (kept : ∀ past before step, holds past before → condition before step →
      holds (past ++ [entry perform before step]) (perform before step).1)
    (initially : holds [] state)
    (allMeet : AllMeet perform condition state steps) :
    holds (trace perform state steps) (finalState perform state steps) := by
  suffices going : ∀ past, holds past state →
      holds (past ++ trace perform state steps)
        (finalState perform state steps) by
    simpa using going [] initially
  clear initially
  induction steps generalizing state with
  | nil =>
      intro past holdsBefore
      simpa [trace, finalState] using holdsBefore
  | cons step rest inductionHypothesis =>
      intro past holdsBefore
      have goesOn := inductionHypothesis allMeet.2 _
        (kept past state step holdsBefore allMeet.1)
      rwa [List.append_assoc] at goesOn

theorem holds_of_history
    {holds : List (Entry State Step Response) → State → Prop}
    (kept : ∀ past before step, holds past before →
      holds (past ++ [entry perform before step]) (perform before step).1)
    (initially : holds [] state) :
    holds (trace perform state steps) (finalState perform state steps) := by
  have allMeet : AllMeet perform (fun _ _ => True) state steps :=
    allMeet_of_trace fun _ _ => trivial
  exact holds_of_history_of_meets
    (fun past before step holdsBefore _ => kept past before step holdsBefore)
    initially allMeet

theorem around_of_trace_eq
    (split : trace perform state steps = earlier ++ happened :: later) :
    ∃ first rest, steps = first ++ happened.step :: rest ∧
      trace perform state first = earlier ∧
      happened = entry perform (finalState perform state first)
        happened.step ∧
      later = trace perform happened.after rest := by
  obtain ⟨first, second, rfl, firstEq, secondEq⟩ :=
    exists_split_of_trace_eq split
  cases second with
  | nil =>
      cases secondEq
  | cons step rest =>
      obtain ⟨rfl, rfl⟩ := List.cons.inj secondEq
      exact ⟨first, rest, rfl, firstEq, rfl, rfl⟩

end Frameleaf.Trace
