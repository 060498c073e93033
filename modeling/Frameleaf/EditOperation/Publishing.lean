import Frameleaf.EditOperation.RunLaws

namespace Frameleaf.EditOperation

open MediaOperation Table Trace

/-!
# Nothing is published without leave

Leave to publish shows in what the run thinks, in a call that waits to
complete and in a completion left to the queue.  Each of these began with
`validate` saying so, and only the last two complete the row.
-/

variable {edit : Edit} {event : Event}
variable {run : EditOperationRun} {instant : Instant} {seen : Surroundings}

/-- A call waits to complete, or is about to. -/
def Await.isGranted : Await → Bool
  | .validated _ ok => ok
  | .completing _ => true
  | _ => false

/-- The run has leave to publish. -/
def Edit.Granted (edit : Edit) : Prop :=
  edit.run.state = .validating ∨
    (∃ waiting ∈ edit.waiting, waiting.await.isGranted = true) ∨
    edit.deferred ≠ []

/-- A call goes on with leave to publish. -/
def Onward.Granted (onward : Onward) : Prop :=
  onward.run.state = .validating ∨
    (∃ await, onward.waits = some await ∧ await.isGranted = true) ∨
    onward.defers.isSome = true

/-- A call goes on neither to complete nor to the queue. -/
structure Onward.Quiet (onward : Onward) : Prop where
  waits : ∀ await, onward.waits = some await → await.isGranted = false
  keeps : onward.defers = none

theorem Onward.Quiet.validating
    {onward : Onward}
    (quiet : onward.Quiet)
    (granted : onward.Granted) :
    onward.run.state = .validating := by
  rcases granted with validating | ⟨await, isWaiting, isGranted⟩ | defers
  · exact validating
  · rw [quiet.waits await isWaiting] at isGranted
    cases isGranted
  · rw [quiet.keeps] at defers
    cases defers

theorem ends_quiet
    (run : EditOperationRun) :
    (Onward.ends run).Quiet where
  waits := nofun
  keeps := rfl

theorem wait_quiet
    {await : Await}
    (otherwise : await.isGranted = false) :
    (Onward.wait run await).Quiet where
  waits := by
    rintro waiting ⟨⟩
    exact otherwise
  keeps := rfl

theorem refusal_quiet
    (asker : Asker) :
    (Onward.answer run asker false).Quiet := by
  cases asker with
  | executor => exact ⟨nofun, rfl⟩
  | complete result =>
      refine ⟨?_, rfl⟩
      rintro waiting ⟨⟩
      rfl

theorem fail_quiet
    (failure : Failure)
    (retry : Bool) :
    (run.fail failure retry).Quiet := by
  unfold EditOperationRun.fail
  split
  · exact ends_quiet run
  · split
    · exact wait_quiet rfl
    · exact wait_quiet rfl

theorem cancelled_quiet
    (canceller : Canceller) :
    (run.cancelled canceller).Quiet := by
  unfold EditOperationRun.cancelled
  split
  · cases canceller with
    | executor => exact ends_quiet run
    | validate asker => exact refusal_quiet asker
  · exact wait_quiet rfl

theorem validate_granted
    {asker : Asker}
    (granted : (run.validate asker).Granted) :
    run.state = .validating := by
  by_contra notValidating
  rw [EditOperationRun.validate, if_neg notValidating] at granted
  split at granted
  · have validating := (refusal_quiet asker).validating granted
    rw [answer_run] at validating
    exact notValidating validating
  · exact notValidating ((wait_quiet rfl).validating granted)

theorem complete_granted
    {result : CompletedResult}
    (granted : (run.complete result).Granted) :
    run.state = .validating := by
  unfold EditOperationRun.complete at granted
  split at granted
  · exact (ends_quiet run).validating granted
  · exact validate_granted granted

theorem start_granted
    {call : RunCall}
    (granted : (call.start run).Granted) :
    run.state = .validating := by
  have ofQuiet : (call.start run).Quiet → run.state = .validating := by
    intro quiet
    rw [← (start_run call).2]
    exact quiet.validating granted
  cases call with
  | noteError failure => exact ofQuiet (ends_quiet _)
  | progress value =>
      apply ofQuiet
      change (run.progress value).Quiet
      unfold EditOperationRun.progress
      split
      · exact ends_quiet run
      · exact wait_quiet rfl
  | validate => exact validate_granted granted
  | complete result => exact complete_granted granted
  | fail failure retry => exact ofQuiet (fail_quiet failure retry)
  | cancelled => exact ofQuiet (cancelled_quiet _)
  | release delayMs =>
      apply ofQuiet
      change (run.release delayMs).Quiet
      unfold EditOperationRun.release
      split
      · exact ends_quiet run
      · exact wait_quiet rfl
  | finish status =>
      change (run.finish status).Granted at granted
      unfold EditOperationRun.finish at granted
      split at granted
      · exact (ends_quiet run).validating granted
      · cases status with
        | success => exact complete_granted granted
        | skipped => exact complete_granted granted
        | failed =>
            have validating := (fail_quiet _ _).validating granted
            rw [fail_run] at validating
            exact validating

/-- A call goes on with leave that it had, or that it is given now. -/
theorem goOn_granted
    {decided : Option AssetId}
    {answer : Answer}
    {await : Await}
    (granted : (run.goOn decided answer await).Granted) :
    run.state = .validating ∨ await.isGranted = true ∨
      (run.goOn decided answer await).mayPublish = true := by
  cases await with
  | validated result ok =>
      cases ok with
      | true => exact .inr (.inl rfl)
      | false => exact .inl ((ends_quiet run).validating granted)
  | completing accepted => exact .inr (.inl rfl)
  | reporting value =>
      cases answer with
      | true => exact .inl ((ends_quiet _).validating granted)
      | false => exact .inl ((wait_quiet rfl).validating granted)
  | checkingReport =>
      cases answer with
      | true => exact .inl ((ends_quiet _).validating granted)
      | false => cases (ends_quiet _).validating granted
  | beginning asker =>
      cases answer with
      | true =>
          right
          right
          cases asker <;> rfl
      | false => exact .inl ((wait_quiet rfl).validating granted)
  | checkingCancel asker =>
      cases answer with
      | true =>
          left
          have validating := (cancelled_quiet _).validating granted
          rw [cancelled_run] at validating
          exact validating
      | false =>
          have validating := (refusal_quiet asker).validating granted
          rw [answer_run] at validating
          cases validating
  | requestingCancel canceller =>
      exact .inl ((wait_quiet rfl).validating granted)
  | acknowledging canceller =>
      cases canceller with
      | executor => cases (ends_quiet _).validating granted
      | validate asker =>
          have validating := (refusal_quiet asker).validating granted
          rw [answer_run] at validating
          cases validating
  | failingRetry failure =>
      cases answer with
      | true => cases (ends_quiet _).validating granted
      | false => exact .inl ((wait_quiet rfl).validating granted)
  | failingReport | releasing | settling =>
      cases (ends_quiet _).validating granted
  | beating =>
      cases answer with
      | true => exact .inl ((ends_quiet _).validating granted)
      | false => cases (ends_quiet _).validating granted

theorem edit_goOn_granted
    {onward : Onward}
    (granted : (edit.goOn onward).1.Granted) :
    (∃ waiting ∈ edit.waiting, waiting.await.isGranted = true) ∨
      edit.deferred ≠ [] ∨ onward.Granted := by
  rcases granted with validating | ⟨waiting, member, isGranted⟩ | deferred
  · exact .inr (.inr (.inl validating))
  · rcases List.mem_append.mp member with old | new
    · exact .inl ⟨waiting, old, isGranted⟩
    · obtain ⟨made, isMade, rfl⟩ :
          ∃ await, onward.waits = some await ∧ waiting = ⟨await, none⟩ := by
        simpa [Option.mem_toList, eq_comm] using new
      exact .inr (.inr (.inr (.inl ⟨made, isMade, isGranted⟩)))
  · cases isDeferred : edit.deferred with
    | cons result rest => exact .inr (.inl (List.cons_ne_nil _ _))
    | nil =>
        right
        right
        right
        right
        cases isNow : onward.defers with
        | some result => rfl
        | none =>
            exact absurd (by simp [Edit.goOn, isDeferred, isNow]) deferred

/-- Leave to publish was there before an event or is given by it. -/
theorem happen_granted
    (granted : (happen edit event).1.Granted) :
    edit.Granted ∨ (happen edit event).2.mayPublish = true := by
  cases event with
  | others step =>
      left
      simp only [happen] at granted
      split at granted
      · exact granted
      · exact granted
  | calls call =>
      left
      rcases edit_goOn_granted granted with waits | deferred | onward
      · exact .inr (.inl waits)
      · exact .inr (.inr deferred)
      · exact .inl (start_granted onward)
  | beats =>
      left
      simp only [happen] at granted
      split at granted
      · rcases edit_goOn_granted granted with waits | deferred | onward
        · exact .inr (.inl waits)
        · exact .inr (.inr deferred)
        · have quiet : edit.run.heartbeat.Quiet := by
            unfold EditOperationRun.heartbeat
            split
            · exact ends_quiet _
            · exact wait_quiet rfl
          have validating := quiet.validating onward
          rw [heartbeat_run.2] at validating
          exact .inl validating
      · exact granted
  | serves place instant seen =>
      left
      simp only [happen] at granted
      split at granted
      case h_1 await isWaiting =>
        rcases granted with validating | ⟨waiting, member, isGranted⟩ | deferred
        · exact .inl validating
        · right
          left
          rcases List.mem_or_eq_of_mem_set member with old | rfl
          · exact ⟨waiting, old, isGranted⟩
          · exact ⟨⟨await, none⟩, List.mem_of_getElem? isWaiting, isGranted⟩
        · exact .inr (.inr deferred)
      case h_2 => exact granted
  | answers place decided =>
      simp only [happen] at granted ⊢
      split at granted
      case h_1 await answer isWaiting =>
        rcases edit_goOn_granted granted with
          ⟨waiting, member, isGranted⟩ | deferred | onward
        · exact .inl (.inr (.inl
            ⟨waiting, List.mem_of_mem_eraseIdx member, isGranted⟩))
        · exact .inl (.inr (.inr deferred))
        · rcases goOn_granted onward with validating | isGranted | may
          · exact .inl (.inl validating)
          · exact .inl (.inr (.inl
              ⟨_, List.mem_of_getElem? isWaiting, isGranted⟩))
          · exact .inr may
      case h_2 => exact .inl granted
  | publishes instant seen decided =>
      left
      simp only [happen] at granted
      split at granted
      case h_1 => exact granted
      case h_2 store published =>
        rcases granted with validating | ⟨waiting, member, isGranted⟩ | deferred
        · exact .inl validating
        · rcases List.mem_append.mp member with old | new
          · exact .inr (.inl ⟨waiting, old, isGranted⟩)
          · obtain ⟨_, _, rfl⟩ := List.mem_map.mp new
            cases isGranted
        · exact .inr (.inr deferred)
  | settles instant seen reason cancelled =>
      left
      simp only [happen] at granted
      split at granted
      · exact granted
      · exact granted

/-! ## Who completes the operation -/

variable {store after : OperationStore} {id : OperationId} {row : Row}

/-- An operation is there and not completed. -/
def Uncompleted (store : OperationStore) (id : OperationId) : Prop :=
  ∃ row, store.table.lookup id = some row ∧ row.status ≠ .completed

/-- The call completes an operation. -/
def isCompletion : Call → Bool
  | .complete _ _ _ _ => true
  | _ => false

theorem uncompleted_of_call
    {call : Call}
    (otherwise : isCompletion call = false)
    (uncompleted : Uncompleted store id) :
    Uncompleted (perform store ⟨instant, seen, call⟩).1 id := by
  obtain ⟨row, found, notEnded⟩ := uncompleted
  obtain ⟨new, isNew, ⟨_, rfl⟩ | ⟨taken, standing⟩⟩ :=
    exists_lookup_after ⟨instant, seen, call⟩ found
  · exact ⟨new, isNew, notEnded⟩
  · refine ⟨new, isNew, fun completed => ?_⟩
    obtain ⟨_, token, result, requireActiveClaim, _, isCall⟩ :=
      call_of_taken_completed notEnded taken
        ((congrArg Standing.status standing).symm.trans completed)
    obtain rfl : call = _ := isCall
    cases otherwise

theorem uncompleted_of_performAll
    {calls : List Call}
    (otherwise : ∀ call ∈ calls, isCompletion call = false)
    (uncompleted : Uncompleted store id) :
    Uncompleted (performAll instant seen store calls) id := by
  induction calls generalizing store with
  | nil => exact uncompleted
  | cons call rest inductionHypothesis =>
      apply inductionHypothesis
      · exact fun next member => otherwise next (List.mem_cons_of_mem _ member)
      · exact uncompleted_of_call (otherwise call List.mem_cons_self) uncompleted

theorem settlement_uncompleted
    (reason : String)
    (cancelled : Bool)
    (uncompleted : Uncompleted store id) :
    Uncompleted (settlement run store instant seen reason cancelled) id := by
  unfold settlement
  split
  · exact uncompleted
  · split
    · exact uncompleted_of_performAll (by simp [isCompletion]) uncompleted
    · dsimp only
      split
      · exact uncompleted_of_call rfl uncompleted
      · exact uncompleted_of_performAll (by simp [isCompletion])
          (uncompleted_of_call rfl uncompleted)

theorem publishOne_validating
    {accepted : Option AssetId}
    (published : publishOne run instant seen accepted store = some after)
    (found : store.table.lookup run.id = some row) :
    row.status = .validating := by
  simp only [publishOne] at published
  split at published
  case isFalse => cases published
  case isTrue took =>
    obtain ⟨same, isSame, taken⟩ :=
      lookup_of_mem_response (List.contains_iff_mem.mp took)
    obtain rfl := Option.some.inj (found.symm.trans isSame)
    obtain ⟨_, _, meets⟩ := claimed_condition.mp taken
    simp only [Bool.and_eq_true, beq_iff_eq] at meets
    exact meets.1.1

/-- Where an event completes the operation under the claim, it had leave. -/
theorem happen_completed
    (sound : edit.store.Sound)
    (found : edit.store.table.lookup edit.run.id = some row)
    (held : row.claimToken = some edit.run.claimToken)
    {new : Row}
    (foundAfter :
      (happen edit event).1.store.table.lookup edit.run.id = some new)
    (completed : new.status = .completed) :
    row.status = .validating ∧ edit.Granted := by
  have claimed : row.status ∈ CLAIMED_MEDIA_OPERATION_STATUSES :=
    (sound.standing _ row found).claimHeld.mp (Option.isSome_of_eq_some held)
  have notEnded : row.status ≠ .completed := fun ended =>
    absurd (ended ▸ claimed) (by decide)
  have ofUnfinished {result : OperationStore}
      (isResult : result.table.lookup edit.run.id = some new)
      (unfinished : Uncompleted result edit.run.id) : False := by
    obtain ⟨other, isOther, notCompleted⟩ := unfinished
    obtain rfl := Option.some.inj (isResult.symm.trans isOther)
    exact notCompleted completed
  have unfinished : Uncompleted edit.store edit.run.id := ⟨row, found, notEnded⟩
  cases event with
  | others step =>
      simp only [happen] at foundAfter
      split at foundAfter
      case isTrue => exact (ofUnfinished foundAfter unfinished).elim
      case isFalse notBorne =>
        obtain ⟨_, result, requireActiveClaim, isCall⟩ := call_of_completed
          found (sound.standing _ row found) held foundAfter completed
        rw [isCall] at notBorne
        simp [Call.bears] at notBorne
  | calls call => exact (ofUnfinished foundAfter unfinished).elim
  | beats =>
      simp only [happen] at foundAfter
      split at foundAfter
      · exact (ofUnfinished foundAfter unfinished).elim
      · exact (ofUnfinished foundAfter unfinished).elim
  | serves place instant seen =>
      simp only [happen] at foundAfter
      split at foundAfter
      case h_1 await isWaiting =>
        change (edit.serve instant seen await).1.table.lookup _ = _ at foundAfter
        unfold Edit.serve at foundAfter
        split at foundAfter
        case h_1 call writes =>
          obtain ⟨validating, result, requireActiveClaim, isCall⟩ :=
            call_of_completed found (sound.standing _ row found) held foundAfter
              completed
          refine ⟨validating, .inr (.inl
            ⟨_, List.mem_of_getElem? isWaiting, ?_⟩)⟩
          obtain rfl : call = _ := isCall
          cases await with
          | completing accepted => rfl
          | _ => cases writes
        case h_2 => exact (ofUnfinished foundAfter unfinished).elim
      case h_2 => exact (ofUnfinished foundAfter unfinished).elim
  | answers place decided =>
      simp only [happen] at foundAfter
      split at foundAfter
      · exact (ofUnfinished foundAfter unfinished).elim
      · exact (ofUnfinished foundAfter unfinished).elim
  | publishes instant seen decided =>
      simp only [happen] at foundAfter
      split at foundAfter
      case h_1 => exact (ofUnfinished foundAfter unfinished).elim
      case h_2 store published =>
        cases isDeferred : edit.deferred with
        | nil =>
            rw [isDeferred] at published
            obtain rfl := Option.some.inj published
            exact (ofUnfinished foundAfter unfinished).elim
        | cons result rest =>
            rw [isDeferred] at published
            obtain ⟨middle, one, _⟩ := Option.bind_eq_some_iff.mp published
            exact ⟨publishOne_validating one found,
              .inr (.inr (isDeferred ▸ List.cons_ne_nil _ _))⟩
  | settles instant seen reason cancelled =>
      simp only [happen] at foundAfter
      split at foundAfter
      · exact (ofUnfinished foundAfter unfinished).elim
      · exact (ofUnfinished foundAfter
          (settlement_uncompleted reason cancelled unfinished)).elim

end Frameleaf.EditOperation
