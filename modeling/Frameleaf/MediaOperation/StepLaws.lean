import Frameleaf.Lib.Trace
import Frameleaf.MediaOperation.Standing
import Frameleaf.MediaOperation.Statements

namespace Frameleaf.MediaOperation

open Table Trace

/-!
# The table of operations and every call that writes to it

A report of failure makes two writes and a recovery four, each its own
transaction, so they are separate steps that others may come between.
-/

/-- The operations, and how many claim tokens were drawn. -/
structure OperationStore where
  table : Rows OperationId Row
  issued : Token

/-- A server without operations. -/
def OperationStore.empty : OperationStore where
  table := ∅
  issued := 0

/-- What a statement sees outside the table. -/
structure Surroundings where
  /-- Operations that an active job of the queue names. -/
  activeJobs : List OperationId
  /-- Assets that are not deleted, with their owners. -/
  liveAssets : List (AssetId × OwnerId)
  frames : List PreviewFrame
deriving DecidableEq, Repr

/-- A write to the table. -/
inductive Call where
  | create (id : OperationId) (operation : MediaOperationCreate)
  | claimNext (locked : List OperationId) (options : ClaimOptions)
  | beginJobQueueRun (id : OperationId) (leaseMs : ℤ)
  | claimJobQueueDispatch (locked : List OperationId) (limit : ℕ) (staleMs : ℤ)
  | releaseJobQueueDispatch (ids : List OperationId)
  | lapseStoppedJob (id : OperationId)
  | failUnconfirmedStop (id : OperationId) (reason : String)
  | setRemoteJobId (id : OperationId) (token : Token) (remoteJobId : String)
  | recordRemoteJobId (id : OperationId) (remoteJobId : String)
  | heartbeat (id : OperationId) (token : Token) (leaseMs : ℤ)
      (requireActiveClaim : Bool)
  | reportProgress (id : OperationId) (token : Token) (patch : ProgressPatch)
  | setBulkResult (id : OperationId) (token : Token) (patch : BulkPatch)
      (requireActiveClaim : Bool)
  | beginValidation (id : OperationId) (token : Token)
      (requireActiveClaim : Bool)
  | complete (id : OperationId) (token : Token) (result : Completion)
      (requireActiveClaim : Bool)
  | failRetry (id : OperationId) (token : Token) (failure : Failure)
      (resumable requireActiveClaim : Bool)
  | failReport (id : OperationId) (token : Token) (failure : Failure)
      (requireActiveClaim : Bool)
  | requeue (id : OperationId) (token : Token) (delayMs : ℤ)
      (returnAttempt requireActiveClaim : Bool)
  | settlePause (id : OperationId) (token : Token)
  | acknowledgeCancel (id : OperationId) (token : Token)
      (released requireActiveClaim : Bool)
  | requestCancel (id : OperationId) (ownerId : OwnerId) (token : Option Token)
      (queuedOnly : Bool)
  | requestPause (id : OperationId) (ownerId : OwnerId)
      (kinds : List MediaOperationKind)
  | resume (id : OperationId) (ownerId : OwnerId)
  | recoverPaused (left : List OperationId)
  | recoverRetried (left : List OperationId) (failure : Failure)
  | recoverFailed (left : List OperationId) (failure : Failure)
  | recoverAbandonedCancels (left : List OperationId)

/-- The operation and the claim token that a call carries. -/
def Call.bears : Call → Option (OperationId × Token)
  | .setRemoteJobId id token _ => some (id, token)
  | .heartbeat id token _ _ => some (id, token)
  | .reportProgress id token _ => some (id, token)
  | .setBulkResult id token _ _ => some (id, token)
  | .beginValidation id token _ => some (id, token)
  | .complete id token _ _ => some (id, token)
  | .failRetry id token _ _ _ => some (id, token)
  | .failReport id token _ _ => some (id, token)
  | .requeue id token _ _ _ => some (id, token)
  | .settlePause id token => some (id, token)
  | .acknowledgeCancel id token _ _ => some (id, token)
  | .requestCancel id _ (some token) _ => some (id, token)
  | _ => none

/-- A call draws a claim token. -/
def Call.drawsToken : Call → Bool
  | .claimNext _ _ => true
  | .beginJobQueueRun _ _ => true
  | _ => false

/-- The retry of a recovery. -/
def Call.isRecoveryRetry : Call → Bool
  | .recoverRetried _ _ => true
  | _ => false

/-- A statement of a recovery. -/
def Call.isRecovery : Call → Bool
  | .recoverPaused _ => true
  | .recoverRetried _ _ => true
  | .recoverFailed _ _ => true
  | .recoverAbandonedCancels _ => true
  | _ => false

/-- The statement that a call on existing rows executes. -/
def Call.statement
    (store : OperationStore)
    (instant : Instant)
    (seen : Surroundings) : Call → Statement
  | .create _ _ => ⟨fun _ _ => false, id⟩
  | .claimNext locked options =>
      MediaOperation.claimNext instant store.table locked store.issued options
  | .beginJobQueueRun id leaseMs =>
      MediaOperation.beginJobQueueRun instant store.issued id leaseMs
  | .claimJobQueueDispatch locked limit staleMs =>
      MediaOperation.claimJobQueueDispatch instant store.table locked limit staleMs
  | .releaseJobQueueDispatch ids => MediaOperation.releaseJobQueueDispatch ids
  | .lapseStoppedJob id => MediaOperation.lapseStoppedJob instant id
  | .failUnconfirmedStop id reason =>
      MediaOperation.failUnconfirmedStop instant id reason
  | .setRemoteJobId id token remoteJobId =>
      MediaOperation.setRemoteJobId id token remoteJobId
  | .recordRemoteJobId id remoteJobId =>
      MediaOperation.recordRemoteJobId id remoteJobId
  | .heartbeat id token leaseMs requireActiveClaim =>
      MediaOperation.heartbeat instant id token leaseMs requireActiveClaim
  | .reportProgress id token patch =>
      MediaOperation.reportProgress instant id token patch
  | .setBulkResult id token patch requireActiveClaim =>
      MediaOperation.setBulkResult instant id token patch requireActiveClaim
  | .beginValidation id token requireActiveClaim =>
      MediaOperation.beginValidation instant id token requireActiveClaim
  | .complete id token result requireActiveClaim =>
      MediaOperation.complete instant seen.liveAssets id token result
        requireActiveClaim
  | .failRetry id token failure resumable requireActiveClaim =>
      MediaOperation.failRetry instant id token failure resumable
        requireActiveClaim
  | .failReport id token failure requireActiveClaim =>
      MediaOperation.failReport instant id token failure requireActiveClaim
  | .requeue id token delayMs returnAttempt requireActiveClaim =>
      MediaOperation.requeue instant id token delayMs returnAttempt
        requireActiveClaim
  | .settlePause id token => MediaOperation.settlePause id token
  | .acknowledgeCancel id token released requireActiveClaim =>
      MediaOperation.acknowledgeCancel instant seen.frames id token released
        requireActiveClaim
  | .requestCancel id ownerId token queuedOnly =>
      MediaOperation.requestCancel instant id ownerId token queuedOnly
  | .requestPause id ownerId kinds =>
      MediaOperation.requestPause instant id ownerId kinds
  | .resume id ownerId => MediaOperation.resume id ownerId
  | .recoverPaused left =>
      MediaOperation.recoverPaused instant seen.activeJobs left
  | .recoverRetried left failure =>
      MediaOperation.recoverRetried instant seen.activeJobs left failure
  | .recoverFailed left failure =>
      MediaOperation.recoverFailed instant seen.activeJobs left failure
  | .recoverAbandonedCancels left =>
      MediaOperation.recoverAbandonedCancels instant seen.activeJobs left

/-- A call, with when it runs and what it sees. -/
structure Step where
  instant : Instant
  seen : Surroundings
  call : Call

/-- The statement of a step. -/
def Step.statement (store : OperationStore) (step : Step) : Statement :=
  step.call.statement store step.instant step.seen

/-- The token that a step draws. -/
def Step.draws (store : OperationStore) (step : Step) : Option Token :=
  if step.call.drawsToken then some store.issued else none

/-- The row that a step inserts. -/
def Step.inserts (step : Step) : Option (OperationId × Row) :=
  match step.call with
  | .create id operation => some (id, operation.row step.instant.now)
  | _ => none

/-- The table with a new row; a name that is taken is not inserted again. -/
def insertNew
    (table : Rows OperationId Row)
    (new : Option (OperationId × Row)) : Rows OperationId Row :=
  match new with
  | none => table
  | some (id, row) => if id ∈ table then table else table.insert id row

/-- The operations after a step. -/
def OperationStore.after (store : OperationStore) (step : Step) : OperationStore where
  table :=
    insertNew ((step.statement store).execute step.instant store.table)
      step.inserts
  issued := if step.call.drawsToken then store.issued + 1 else store.issued

/-- Run one step, and tell which rows its statement took. -/
def perform
    (store : OperationStore)
    (step : Step) : OperationStore × List OperationId :=
  (store.after step, select (step.statement store).condition store.table)

open Standing Table Trace

/-!
## Every statement makes one of the moves

A row that a statement takes makes a move, a row that it does not take stays as
it is, and a new row stands at the beginning.
-/

variable {store : OperationStore} {step : Step} {instant : Instant}
variable {id key : OperationId} {row : Row} {token : Token}
variable {drawn : Option Token}

variable {condition : Row → Bool}

theorem condition_of_mem_oldest
    {limit : ℕ}
    {locked : List OperationId}
    {table : Rows OperationId Row}
    (member : id ∈ oldest limit locked condition table)
    (found : table.lookup id = some row) :
    condition row = true := by
  obtain ⟨⟨picked, pickedRow⟩, isPicked, rfl⟩ := List.mem_map.mp member
  have isCandidate := List.mem_mergeSort.mp (List.mem_of_mem_take isPicked)
  obtain ⟨inTable, meets⟩ := List.mem_filter.mp isCandidate
  have samePicked := AList.mem_lookup_iff.mpr inTable
  obtain rfl := Option.some.inj (found.symm.trans samePicked)
  exact (Bool.and_eq_true_iff.mp meets).1

theorem standing_notCancelled
    (none : row.cancelRequestedAt.isNone = true) :
    row.standing.cancelRequested = false := by
  simpa [Row.standing] using none

theorem unclaimed_or_claimed
    {status : MediaOperationStatus}
    (unfinished : status ∉ TERMINAL_MEDIA_OPERATION_STATUSES) :
    status ∈ UNCLAIMED_STATUSES ∨ status ∈ CLAIMED_MEDIA_OPERATION_STATUSES := by
  revert unfinished
  cases status <;> decide

theorem working_of_early
    {status : MediaOperationStatus}
    (early : status = .preparing ∨ status = .rendering) :
    status ∈ WORKING_STATUSES := by
  rcases early with rfl | rfl <;> decide

theorem early_working
    (early : row.status = .preparing ∨ row.status = .rendering) :
    row.standing.status ∈ WORKING_STATUSES :=
  working_of_early early

theorem claimed_condition
    {change : Row → Row} :
    (claimed id token condition change).condition key row = true ↔
      key = id ∧ row.claimToken = some token ∧ condition row = true := by
  simp [claimed, Row.heldBy, and_assoc]

theorem expired_condition
    {activeJobs left : List OperationId}
    {statuses : List MediaOperationStatus}
    {change : Row → Row}
    (taken : (expired instant activeJobs left statuses condition change).condition
      id row = true) :
    row.status ∈ statuses ∧ condition row = true := by
  simp only [expired, Bool.and_eq_true, List.contains_iff_mem] at taken
  exact ⟨taken.1.1.1.1, taken.2⟩

theorem move_cancel_unclaimed
    (unclaimed : row.status ∈ UNCLAIMED_STATUSES) :
    Move drawn row.standing (row.cancel instant).standing := by
  rw [Row.cancel, if_pos (List.contains_iff_mem.mpr unclaimed)]
  exact .cancelledOutright row.standing unclaimed

theorem move_cancel_claimed
    (held : row.status ∈ CLAIMED_MEDIA_OPERATION_STATUSES) :
    Move drawn row.standing (row.cancel instant).standing := by
  have claimed : ¬ UNCLAIMED_STATUSES.contains row.status = true := by
    revert held
    cases row.status <;> decide
  rw [Row.cancel, if_neg claimed]
  exact .cancelling row.standing held

/-- Every row that a statement takes makes a move. -/
theorem move_of_taken
    (found : store.table.lookup id = some row)
    (sound : row.standing.Sound)
    (taken : (step.statement store).condition id row = true) :
    Move (step.draws store) row.standing
      ((step.statement store).change row).standing := by
  obtain ⟨instant, seen, call⟩ := step
  cases call with
  | create => cases taken
  | claimNext locked options =>
      have claimable := condition_of_mem_oldest
        (List.contains_iff_mem.mp taken) found
      simp only [Row.claimable, Bool.and_eq_true, beq_iff_eq] at claimable
      obtain ⟨⟨⟨⟨⟨⟨⟨queued, _⟩, notCancelled⟩, _⟩, _⟩, _⟩, _⟩, _⟩ := claimable
      exact .claimed row.standing store.issued rfl queued
        (standing_notCancelled notCancelled)
  | beginJobQueueRun key leaseMs =>
      simp only [Step.statement, Call.statement, beginJobQueueRun,
        Bool.and_eq_true, beq_iff_eq] at taken
      obtain ⟨⟨⟨⟨_, queued⟩, _⟩, notCancelled⟩, _⟩ := taken
      exact .claimed row.standing store.issued rfl queued
        (standing_notCancelled notCancelled)
  | claimJobQueueDispatch => exact .kept _
  | releaseJobQueueDispatch => exact .kept _
  | lapseStoppedJob => exact .kept _
  | failUnconfirmedStop key reason =>
      have held := (Bool.and_eq_true_iff.mp taken).2
      exact .failed row.standing _
        (not_terminal_of_claimed (sound.claimHeld.mp held))
  | setRemoteJobId => exact .kept _
  | recordRemoteJobId => exact .kept _
  | heartbeat => exact .kept _
  | reportProgress key token patch =>
      obtain ⟨_, _, meets⟩ := claimed_condition.mp taken
      obtain ⟨forward, _⟩ := Bool.and_eq_true_iff.mp meets
      obtain ⟨allowed, isAllowed, member⟩ := (Option.any_eq_true _ _).mp forward
      exact .advanced row.standing patch.status
        ⟨allowed, isAllowed, List.contains_iff_mem.mp member⟩
  | setBulkResult => exact .kept _
  | beginValidation key token requireActiveClaim =>
      obtain ⟨_, _, meets⟩ := claimed_condition.mp taken
      have early := (Bool.and_eq_true_iff.mp meets).1
      exact .advanced row.standing .validating
        ⟨_, rfl, early_working (by simpa using early)⟩
  | complete key token result requireActiveClaim =>
      obtain ⟨_, _, meets⟩ := claimed_condition.mp taken
      simp only [Bool.and_eq_true, beq_iff_eq] at meets
      exact .completed row.standing meets.1.1
  | failRetry key token failure resumable requireActiveClaim =>
      obtain ⟨_, _, meets⟩ := claimed_condition.mp taken
      simp only [Bool.and_eq_true, decide_eq_true_eq,
        List.contains_iff_mem] at meets
      obtain ⟨⟨⟨⟨_, working⟩, notCancelled⟩, _⟩, budget⟩ := meets
      exact .retried row.standing working
        (standing_notCancelled notCancelled) budget
  | failReport key token failure requireActiveClaim =>
      obtain ⟨_, _, meets⟩ := claimed_condition.mp taken
      have unfinished : row.status ∉ TERMINAL_MEDIA_OPERATION_STATUSES := by
        simpa using (Bool.and_eq_true_iff.mp meets).2
      exact .failed row.standing false unfinished
  | requeue key token delayMs returnAttempt requireActiveClaim =>
      obtain ⟨_, _, meets⟩ := claimed_condition.mp taken
      simp only [Bool.and_eq_true, List.contains_iff_mem] at meets
      obtain ⟨⟨_, working⟩, notCancelled⟩ := meets
      exact .requeued row.standing working
        (standing_notCancelled notCancelled)
  | settlePause key token =>
      obtain ⟨_, _, meets⟩ := claimed_condition.mp taken
      simp only [Bool.and_eq_true] at meets
      obtain ⟨⟨early, _⟩, notCancelled⟩ := meets
      exact .paused row.standing
        (early_working (by simpa using early))
        (standing_notCancelled notCancelled)
  | acknowledgeCancel key token released requireActiveClaim =>
      obtain ⟨_, _, meets⟩ := claimed_condition.mp taken
      simp only [Bool.and_eq_true, beq_iff_eq] at meets
      obtain ⟨⟨_, cancelling⟩, _⟩ := meets
      exact .stopped row.standing
        (show row.status ∈ _ from cancelling ▸ by decide)
  | requestCancel key ownerId token queuedOnly =>
      have unfinished := (Bool.and_eq_true_iff.mp taken).2
      rcases unclaimed_or_claimed (by simpa using unfinished) with
        unclaimed | held
      · exact move_cancel_unclaimed unclaimed
      · exact move_cancel_claimed held
  | requestPause key ownerId kinds =>
      simp only [Step.statement, Call.statement, requestPause,
        Bool.and_eq_true, List.contains_iff_mem] at taken
      obtain ⟨⟨_, pausable⟩, notCancelled⟩ := taken
      by_cases queued : row.status = .queued
      · have held : Move none _ _ := Move.held row.standing
          queued (standing_notCancelled notCancelled)
        simpa [Step.statement, Call.statement, requestPause, Step.draws,
          Call.drawsToken, Row.standing,
          queued] using held
      · have early : row.status = .preparing ∨ row.status = .rendering := by
          revert queued pausable
          cases row.status <;> decide
        have asked : Move none _ _ := Move.pauseAsked row.standing
          early
        simpa [Step.statement, Call.statement, requestPause, Step.draws,
          Call.drawsToken, Row.standing,
          queued] using asked
  | resume key ownerId =>
      simp only [Step.statement, Call.statement, resume, Bool.and_eq_true,
        Bool.or_eq_true, beq_iff_eq, List.contains_iff_mem] at taken
      obtain ⟨⟨_, notCancelled⟩, paused | ⟨_, working⟩⟩ := taken
      · have resumed : Move none _ _ := Move.resumed row.standing
          paused (standing_notCancelled notCancelled)
        simpa [Step.statement, Call.statement, resume, Step.draws,
          Call.drawsToken, Row.standing,
          paused] using resumed
      · have notPaused : row.status ≠ .paused := by
          rintro paused
          exact absurd (paused ▸ working) (by decide)
        have withdrawn : Move none _ _ := Move.pauseWithdrawn row.standing
          working
        simpa [Step.statement, Call.statement, resume, Step.draws,
          Call.drawsToken, Row.standing,
          notPaused] using withdrawn
  | recoverPaused left =>
      obtain ⟨working, meets⟩ := expired_condition taken
      exact .paused row.standing working
        (standing_notCancelled (Bool.and_eq_true_iff.mp meets).2)
  | recoverRetried left failure =>
      obtain ⟨held, meets⟩ := expired_condition taken
      simp only [Bool.and_eq_true, decide_eq_true_eq] at meets
      obtain ⟨⟨_, budget⟩, none⟩ := meets
      have notCancelled := standing_notCancelled none
      have notStopping : row.status ≠ .cancelling := fun stopping =>
        cancelKept_of_not notCancelled (sound.cancelAsked stopping)
      exact .retried row.standing
        (working_iff.mpr ⟨held, notStopping⟩) notCancelled budget
  | recoverFailed left failure =>
      obtain ⟨held, meets⟩ := expired_condition taken
      exact .failed row.standing _ (not_terminal_of_claimed held)
  | recoverAbandonedCancels left =>
      obtain ⟨held, meets⟩ := expired_condition taken
      exact .stopped row.standing held

theorem exists_lookup_after
    (step : Step)
    (found : store.table.lookup id = some row) :
    ∃ after, (store.after step).table.lookup id = some after ∧
      (((step.statement store).condition id row = false ∧ after = row) ∨
        ((step.statement store).condition id row = true ∧
          after.standing = ((step.statement store).change row).standing)) := by
  have executed := lookup_updateWhere (step.statement store).condition
    (fun _ row => { (step.statement store).change row with
      updatedAt := step.instant.clock }) store.table id
  rw [found, Option.map_some] at executed
  have kept : (store.after step).table.lookup id =
      ((step.statement store).execute step.instant store.table).lookup id := by
    simp only [OperationStore.after, insertNew]
    split
    case h_1 => rfl
    case h_2 new newRow isNew =>
      split
      case isTrue => rfl
      case isFalse absent =>
        apply AList.lookup_insert_ne
        rintro rfl
        exact absent (AList.lookup_isSome.mp (Option.isSome_of_eq_some executed))
  refine ⟨_, kept.trans executed, ?_⟩
  cases taken : (step.statement store).condition id row with
  | false => exact .inl ⟨rfl, if_neg nofun⟩
  | true => exact .inr ⟨rfl, rfl⟩

theorem lookup_after_of_none
    {after : Row}
    (absent : store.table.lookup id = none)
    (found : (store.after step).table.lookup id = some after) :
    after.standing = Standing.new := by
  have executed := lookup_updateWhere (step.statement store).condition
    (fun _ row => { (step.statement store).change row with
      updatedAt := step.instant.clock }) store.table id
  rw [absent, Option.map_none] at executed
  simp only [OperationStore.after, insertNew] at found
  split at found
  case h_1 =>
    cases executed.symm.trans found
  case h_2 new newRow isNew =>
    split at found
    case isTrue =>
      cases executed.symm.trans found
    case isFalse =>
      by_cases same : id = new
      · subst same
        rw [AList.lookup_insert] at found
        obtain rfl := Option.some.inj found
        obtain ⟨instant, seen, call⟩ := step
        cases call with
        | create key operation =>
            obtain ⟨_, rfl⟩ := Prod.mk.inj (Option.some.inj isNew)
            rfl
        | _ => cases isNew
      · rw [AList.lookup_insert_ne same] at found
        cases executed.symm.trans found

theorem exists_move
    (step : Step)
    (found : store.table.lookup id = some row)
    (sound : row.standing.Sound) :
    ∃ after, (store.after step).table.lookup id = some after ∧
      Move (step.draws store) row.standing after.standing := by
  obtain ⟨after, isAfter, ⟨_, rfl⟩ | ⟨taken, standing⟩⟩ :=
    exists_lookup_after step found
  · exact ⟨after, isAfter, .kept _⟩
  · refine ⟨after, isAfter, ?_⟩
    rw [standing]
    exact move_of_taken found sound taken

theorem heldBy_of_taken
    (row : Row)
    (bears : step.call.bears = some (id, token))
    (taken : (step.statement store).condition key row = true) :
    key = id ∧ row.claimToken = some token := by
  obtain ⟨instant, seen, call⟩ := step
  cases call with
  | requestCancel asked ownerId asToken queuedOnly =>
      cases asToken with
      | none => cases bears
      | some asToken =>
          obtain ⟨rfl, rfl⟩ := Prod.mk.inj (Option.some.inj bears)
          simp only [Step.statement, Call.statement, requestCancel, Row.heldBy,
            Bool.and_eq_true, beq_iff_eq, Option.all_some] at taken
          exact ⟨taken.1.1.1.1, taken.1.1.2⟩
  | setRemoteJobId | heartbeat | reportProgress | setBulkResult
  | beginValidation | complete | failRetry | failReport | requeue | settlePause
  | acknowledgeCancel =>
      obtain ⟨rfl, rfl⟩ := Prod.mk.inj (Option.some.inj bears)
      obtain ⟨isKey, held, _⟩ := claimed_condition.mp taken
      exact ⟨isKey, held⟩
  | _ => cases bears

theorem pausedIfRequested_ne_completed
    (row : Row) :
    row.pausedIfRequested ≠ .completed := by
  unfold Row.pausedIfRequested
  split <;> decide

theorem cancel_ne_completed
    (row : Row)
    (instant : Instant) :
    (row.cancel instant).status ≠ .completed := by
  unfold Row.cancel
  split <;> nofun

theorem call_of_taken_completed
    (notEnded : row.status ≠ .completed)
    (taken : (step.statement store).condition id row = true)
    (completed : ((step.statement store).change row).status = .completed) :
    row.status = .validating ∧
      ∃ token result requireActiveClaim, row.claimToken = some token ∧
        step.call = .complete id token result requireActiveClaim := by
  obtain ⟨instant, seen, call⟩ := step
  cases call with
  | complete key token result requireActiveClaim =>
      obtain ⟨rfl, held, meets⟩ := claimed_condition.mp taken
      simp only [Bool.and_eq_true, beq_iff_eq] at meets
      exact ⟨meets.1.1, token, result, requireActiveClaim, held, rfl⟩
  | create => cases taken
  | reportProgress key token patch =>
      obtain ⟨_, _, meets⟩ := claimed_condition.mp taken
      have forward := (Bool.and_eq_true_iff.mp meets).1
      have isCompleted : patch.status = .completed := completed
      rw [isCompleted] at forward
      cases forward
  | requestCancel => exact absurd completed (cancel_ne_completed row instant)
  | failRetry | requeue | recoverRetried =>
      exact absurd completed (pausedIfRequested_ne_completed row)
  | requestPause | resume =>
      change (if _ then _ else row.status) = _ at completed
      split at completed
      · cases completed
      · exact absurd completed notEnded
  | claimJobQueueDispatch | releaseJobQueueDispatch | lapseStoppedJob
  | setRemoteJobId | recordRemoteJobId | heartbeat | setBulkResult =>
      exact absurd completed notEnded
  | claimNext | beginJobQueueRun | failUnconfirmedStop | beginValidation
  | failReport | settlePause | acknowledgeCancel | recoverPaused
  | recoverFailed | recoverAbandonedCancels =>
      cases completed

theorem call_of_completed
    (found : store.table.lookup id = some row)
    (sound : row.standing.Sound)
    (held : row.claimToken = some token)
    {after : Row}
    (foundAfter : (store.after step).table.lookup id = some after)
    (completed : after.status = .completed) :
    row.status = .validating ∧
      ∃ result requireActiveClaim,
        step.call = .complete id token result requireActiveClaim := by
  have claimed : row.status ∈ CLAIMED_MEDIA_OPERATION_STATUSES :=
    sound.claimHeld.mp (Option.isSome_of_eq_some held)
  have notEnded : row.status ≠ .completed := fun ended =>
    absurd (ended ▸ claimed) (by decide)
  obtain ⟨same, isSame, ⟨_, rfl⟩ | ⟨taken, standing⟩⟩ :=
    exists_lookup_after step found
  · obtain rfl := Option.some.inj (foundAfter.symm.trans isSame)
    exact absurd completed notEnded
  · obtain rfl := Option.some.inj (foundAfter.symm.trans isSame)
    obtain ⟨validating, other, result, requireActiveClaim, otherHeld, isCall⟩ :=
      call_of_taken_completed notEnded taken
        ((congrArg Standing.status standing).symm.trans completed)
    obtain rfl := Option.some.inj (held.symm.trans otherHeld)
    exact ⟨validating, result, requireActiveClaim, isCall⟩

end Frameleaf.MediaOperation
