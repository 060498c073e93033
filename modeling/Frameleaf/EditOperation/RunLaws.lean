import Frameleaf.EditOperation.Run
import Frameleaf.MediaOperation.OperationLaws

namespace Frameleaf.EditOperation

open MediaOperation Table Trace

/-!
# What a run does to the table

Every event is a sequence of statements on the table.  Those of the run name
its token, so they change nothing once the row is not held under it, and only
they complete the row while it is.
-/

variable {edit : Edit} {event : Event} {store after : OperationStore}
variable {run : EditOperationRun} {instant : Instant} {seen : Surroundings}

/-- A store that statements lead to. -/
def Leads (store after : OperationStore) : Prop :=
  ∃ steps, after = finalState perform store steps

theorem Leads.refl
    (store : OperationStore) :
    Leads store store :=
  ⟨[], rfl⟩

theorem Leads.step
    (store : OperationStore)
    (step : MediaOperation.Step) :
    Leads store (perform store step).1 :=
  ⟨[step], rfl⟩

theorem Leads.trans
    {middle : OperationStore}
    (first : Leads store middle)
    (second : Leads middle after) :
    Leads store after := by
  obtain ⟨steps, rfl⟩ := first
  obtain ⟨more, rfl⟩ := second
  exact ⟨steps ++ more, finalState_append.symm⟩

theorem Leads.reached
    {steps : List MediaOperation.Step}
    (leads : Leads (storeAfter steps) after) :
    ∃ more, after = storeAfter (steps ++ more) := by
  obtain ⟨more, rfl⟩ := leads
  exact ⟨more, finalState_append.symm⟩

theorem performAll_leads
    (calls : List Call)
    (store : OperationStore) :
    Leads store (performAll instant seen store calls) := by
  induction calls generalizing store with
  | nil =>
      exact .refl store
  | cons call rest inductionHypothesis =>
      exact (Leads.step store ⟨instant, seen, call⟩).trans
        (inductionHypothesis _)

theorem publishOne_leads
    {accepted : Option AssetId}
    (published : publishOne run instant seen accepted store = some after) :
    Leads store after := by
  simp only [publishOne] at published
  split at published
  · obtain rfl := Option.some.inj published
    exact .step _ _
  · cases published

theorem publishAll_leads
    {decided : Option AssetId}
    {results : List CompletedResult}
    (published :
      publishAll run instant seen decided store results = some after) :
    Leads store after := by
  induction results generalizing store with
  | nil =>
      obtain rfl := Option.some.inj published
      exact .refl store
  | cons result rest inductionHypothesis =>
      obtain ⟨middle, one, others⟩ := Option.bind_eq_some_iff.mp published
      exact (publishOne_leads one).trans (inductionHypothesis others)

theorem settlement_leads
    (reason : String)
    (cancelled : Bool) :
    Leads store (settlement run store instant seen reason cancelled) := by
  simp only [settlement]
  split
  · exact .refl store
  · split
    · exact performAll_leads _ _
    · split
      · exact .step _ _
      · exact (Leads.step _ _).trans (performAll_leads _ _)

theorem serve_leads
    (await : Await) :
    Leads edit.store (edit.serve instant seen await).1 := by
  unfold Edit.serve
  split
  · exact .step _ _
  · exact .refl _

theorem happen_leads
    (edit : Edit)
    (event : Event) :
    Leads edit.store (happen edit event).1.store := by
  cases event with
  | others step =>
      simp only [happen]
      split
      · exact .refl _
      · exact .step edit.store step
  | calls call => exact .refl _
  | beats =>
      simp only [happen]
      split
      · exact .refl _
      · exact .refl _
  | serves place instant seen =>
      simp only [happen]
      split
      · exact serve_leads _
      · exact .refl _
  | answers place decided =>
      simp only [happen]
      split
      · exact .refl _
      · exact .refl _
  | publishes instant seen decided =>
      simp only [happen]
      split
      case h_1 => exact .refl _
      case h_2 store published => exact publishAll_leads published
  | settles instant seen reason cancelled =>
      simp only [happen]
      split
      · exact .refl _
      · exact settlement_leads _ _

open MediaOperation Table Trace

/-!
## What a run may publish, and when it is over

The operation is completed under the run's claim only while it is being
validated and only after `validate` said so.  Once the row is not held under
the claim nothing that the run does changes anything.  What the run thinks of
its claim is final where every answer comes on time.
-/

variable {edit : Edit} {event : Event} {events : List Event}
variable {run : EditOperationRun} {instant : Instant} {seen : Surroundings}

/-! ## The name and the claim of a run -/

/-- Two moments of one run. -/
def SameRun (run later : EditOperationRun) : Prop :=
  later.id = run.id ∧ later.claimToken = run.claimToken

theorem answer_run
    (asker : Asker)
    (ok : Bool) :
    (Onward.answer run asker ok).run = run := by
  cases asker <;> rfl

theorem fail_run
    (failure : Failure)
    (retry : Bool) :
    (run.fail failure retry).run = run := by
  unfold EditOperationRun.fail
  split
  · rfl
  · split <;> rfl

theorem cancelled_run
    (canceller : Canceller) :
    (run.cancelled canceller).run = run := by
  unfold EditOperationRun.cancelled
  split
  · cases canceller with
    | executor => rfl
    | validate asker => exact answer_run asker false
  · rfl

theorem validate_run
    (asker : Asker) :
    (run.validate asker).run = run := by
  unfold EditOperationRun.validate
  split
  · exact answer_run asker true
  · split
    · exact answer_run asker false
    · rfl

theorem complete_run
    (result : CompletedResult) :
    (run.complete result).run = run := by
  unfold EditOperationRun.complete
  split
  · rfl
  · exact validate_run _

theorem finish_run
    (status : JobStatus) :
    (run.finish status).run = run := by
  unfold EditOperationRun.finish
  split
  · rfl
  · cases status with
    | success => exact complete_run _
    | skipped => exact complete_run _
    | failed => exact fail_run _ _

theorem progress_run
    (value : ℕ) :
    (run.progress value).run = run := by
  unfold EditOperationRun.progress
  split <;> rfl

theorem release_run
    (delayMs : ℤ) :
    (run.release delayMs).run = run := by
  unfold EditOperationRun.release
  split <;> rfl

theorem same_of_eq
    {later : EditOperationRun}
    (unchanged : later = run) :
    SameRun run later ∧ later.state = run.state := by
  subst unchanged
  exact ⟨⟨rfl, rfl⟩, rfl⟩

theorem start_run
    (call : RunCall) :
    SameRun run (call.start run).run ∧ (call.start run).run.state = run.state := by
  cases call with
  | noteError failure => exact ⟨⟨rfl, rfl⟩, rfl⟩
  | progress value => exact same_of_eq (progress_run value)
  | validate => exact same_of_eq (validate_run _)
  | complete result => exact same_of_eq (complete_run result)
  | fail failure retry => exact same_of_eq (fail_run failure retry)
  | cancelled => exact same_of_eq (cancelled_run _)
  | release delayMs => exact same_of_eq (release_run delayMs)
  | finish status => exact same_of_eq (finish_run status)

theorem heartbeat_run :
    SameRun run run.heartbeat.run ∧ run.heartbeat.run.state = run.state := by
  unfold EditOperationRun.heartbeat
  split
  · exact ⟨⟨rfl, rfl⟩, rfl⟩
  · exact ⟨⟨rfl, rfl⟩, rfl⟩

/-- A call goes on in the same run. -/
theorem goOn_run
    (decided : Option AssetId)
    (answer : Answer)
    (await : Await) :
    SameRun run (run.goOn decided answer await).run := by
  cases await with
  | beginning asker =>
      cases answer with
      | true =>
          change SameRun run (Onward.answer _ asker true).run
          rw [answer_run]
          exact ⟨rfl, rfl⟩
      | false => exact ⟨rfl, rfl⟩
  | checkingCancel asker =>
      cases answer with
      | true =>
          change SameRun run (run.cancelled _).run
          rw [cancelled_run]
          exact ⟨rfl, rfl⟩
      | false =>
          change SameRun run (Onward.answer _ asker false).run
          rw [answer_run]
          exact ⟨rfl, rfl⟩
  | acknowledging canceller =>
      cases canceller with
      | executor => exact ⟨rfl, rfl⟩
      | validate asker =>
          change SameRun run (Onward.answer _ asker false).run
          rw [answer_run]
          exact ⟨rfl, rfl⟩
  | completing accepted =>
      cases answer with
      | true => exact ⟨rfl, rfl⟩
      | false =>
          cases accepted with
          | none => exact ⟨rfl, rfl⟩
          | some asset =>
              change SameRun run (run.fail RESULT_NOT_OWNED false).run
              rw [fail_run]
              exact ⟨rfl, rfl⟩
  | validated result ok =>
      cases ok with
      | true =>
          by_cases inQueue : run.inQueue = true
          · simp [EditOperationRun.goOn, inQueue, Onward.ends, SameRun]
          · simp [EditOperationRun.goOn, inQueue, Onward.wait, SameRun]
      | false => exact ⟨rfl, rfl⟩
  | requestingCancel | failingReport | releasing | settling => exact ⟨rfl, rfl⟩
  | reporting | checkingReport | failingRetry | beating =>
      cases answer <;> exact ⟨rfl, rfl⟩

theorem happen_run
    (edit : Edit)
    (event : Event) :
    SameRun edit.run (happen edit event).1.run := by
  cases event with
  | others step =>
      simp only [happen]
      split
      · exact ⟨rfl, rfl⟩
      · exact ⟨rfl, rfl⟩
  | calls call => exact (start_run call).1
  | beats =>
      simp only [happen]
      split
      · exact heartbeat_run.1
      · exact ⟨rfl, rfl⟩
  | serves place instant seen =>
      simp only [happen]
      split
      · exact ⟨rfl, rfl⟩
      · exact ⟨rfl, rfl⟩
  | answers place decided =>
      simp only [happen]
      split
      · exact goOn_run _ _ _
      · exact ⟨rfl, rfl⟩
  | publishes instant seen decided =>
      simp only [happen]
      split
      · exact ⟨rfl, rfl⟩
      · exact ⟨rfl, rfl⟩
  | settles instant seen reason cancelled =>
      simp only [happen]
      split
      · exact ⟨rfl, rfl⟩
      · exact ⟨rfl, rfl⟩

/-! ## A claim that is gone -/

theorem write_bears
    {await : Await}
    {call : Call}
    (writes : await.write run = some call) :
    call.bears = some (run.id, run.claimToken) := by
  cases await with
  | checkingReport | checkingCancel | validated | settling => cases writes
  | _ => exact Option.some.inj writes ▸ rfl

/-- What a run does without its claim changes nothing. -/
theorem happen_of_stale
    (notOthers : ∀ step, event ≠ .others step)
    (stale : ¬ edit.store.Holds edit.run.id edit.run.claimToken) :
    (happen edit event).1.store = edit.store := by
  cases event with
  | others step => exact absurd rfl (notOthers step)
  | calls call => rfl
  | beats =>
      simp only [happen]
      split <;> rfl
  | serves place instant seen =>
      simp only [happen]
      split
      case h_1 await isWaiting =>
        change (edit.serve instant seen await).1 = edit.store
        unfold Edit.serve
        split
        case h_1 call writes =>
          rw [perform_of_stale (write_bears writes) stale]
        case h_2 => rfl
      case h_2 => rfl
  | answers place decided =>
      simp only [happen]
      split <;> rfl
  | publishes instant seen decided =>
      simp only [happen]
      split
      case h_1 => rfl
      case h_2 after published =>
        cases isDeferred : edit.deferred with
        | nil =>
            rw [isDeferred] at published
            exact (Option.some.inj published).symm
        | cons result rest =>
            rw [isDeferred] at published
            obtain ⟨middle, one, _⟩ := Option.bind_eq_some_iff.mp published
            rw [publishOne, perform_of_stale rfl stale] at one
            cases one
  | settles instant seen reason cancelled =>
      simp only [happen]
      split
      · rfl
      · have notHeld : (edit.store.table.lookup edit.run.id).filter
            (Row.heldBy edit.run.claimToken) = none := by
          rw [Option.filter_eq_none_iff]
          intro row found held
          exact stale ⟨row, found, by simpa [Row.heldBy] using held⟩
        change settlement edit.run edit.store instant seen reason cancelled = _
        rw [settlement, notHeld]

end Frameleaf.EditOperation
