import Frameleaf.MediaOperation.Row
import Mathlib.Data.List.Sort

namespace Frameleaf.MediaOperation

open Table

/-!
# The statements on media operations

Each write is one conditional update.  Those of a worker name the token that
the claim was given; those of the owner name the owner; those of recovery take
every row whose lease ran out.
-/

/-! ## Claims -/

/-- Kinds that are left queued for now where they name a destination. -/
structure HoldBack where
  kinds : List MediaOperationKind
  destinationIds : List String
deriving DecidableEq, Repr

/-- What a worker is ready to take. -/
structure ClaimOptions where
  kinds : List MediaOperationKind
  workerId : String
  leaseMs : ℤ
  holdBack : Option HoldBack
  snapshotKinds : Option (List String)
  snapshotWorkloads : Option (List String)
deriving DecidableEq, Repr

/-- A text is one of the allowed ones; no list or an empty one allows all. -/
def allowedText (allowed : Option (List String)) (text : Option String) : Bool :=
  match allowed with
  | none => true
  | some [] => true
  | some (first :: rest) => text.any (first :: rest).contains

/-- The operation is held back for now; an empty list holds nothing back. -/
def Row.isHeldBack (holdBack : HoldBack) (row : Row) : Bool :=
  !holdBack.kinds.isEmpty && !holdBack.destinationIds.isEmpty &&
    holdBack.kinds.contains row.kind &&
    holdBack.destinationIds.contains (row.snapshot.destinationId.getD "")

/-- The rows that a claim may take. -/
def Row.claimable
    (instant : Instant)
    (options : ClaimOptions)
    (row : Row) : Bool :=
  row.status == .queued &&
    options.kinds.contains row.kind &&
    row.cancelRequestedAt.isNone &&
    row.notJobQueueExecuted &&
    row.retryDue instant &&
    options.holdBack.all (fun holdBack => !row.isHeldBack holdBack) &&
    allowedText options.snapshotKinds row.snapshot.kind &&
    allowedText options.snapshotWorkloads row.snapshot.workload

/-- The oldest rows that meet a condition, without those others have locked. -/
def oldest
    (limit : ℕ)
    (locked : List OperationId)
    (condition : Row → Bool)
    (table : Rows OperationId Row) : List OperationId :=
  let candidates := table.entries.filter fun entry =>
    condition entry.2 && !locked.contains entry.1
  let ordered := candidates.mergeSort fun earlier later =>
    decide (earlier.2.createdAt ≤ later.2.createdAt)
  (ordered.take limit).map fun entry => entry.1

/-- A row as a new claim leaves it. -/
def Row.begin
    (instant : Instant)
    (token : Token)
    (claimant : String)
    (leaseMs : ℤ)
    (row : Row) : Row :=
  { row with
    status := .preparing
    claimToken := some token
    claimedBy := some claimant
    claimExpiresAt := some (instant.nowPlus leaseMs)
    heartbeatAt := some instant.now
    startedAt := some (row.startedAt.getD instant.now)
    attempt := row.attempt + 1
    retryAt := none }

/-- Take the oldest queued operation that the worker is ready for. -/
def claimNext
    (instant : Instant)
    (table : Rows OperationId Row)
    (locked : List OperationId)
    (token : Token)
    (options : ClaimOptions) : Statement where
  condition id _ :=
    (oldest 1 locked (Row.claimable instant options) table).contains id
  change := Row.begin instant token options.workerId options.leaseMs

/-- Claim an edit for the delivery of its job. -/
def beginJobQueueRun
    (instant : Instant)
    (token : Token)
    (id : OperationId)
    (leaseMs : ℤ) : Statement where
  condition key row :=
    key == id && row.status == .queued &&
      row.claimedBy == some JOB_QUEUE_CLAIMANT &&
      row.cancelRequestedAt.isNone &&
      row.snapshot.executor == some JOB_QUEUE_EXECUTOR
  change := Row.begin instant token JOB_QUEUE_CLAIMANT leaseMs

/-- The edits that have no job to run them. -/
def Row.awaitsDispatch
    (instant : Instant)
    (staleMs : ℤ)
    (row : Row) : Bool :=
  row.status == .queued && row.cancelRequestedAt.isNone &&
    row.snapshot.executor == some JOB_QUEUE_EXECUTOR &&
    ((row.claimedBy.isNone && row.retryDue instant) ||
      (row.claimedBy == some JOB_QUEUE_CLAIMANT &&
        decide (row.updatedAt < instant.nowPlus (-staleMs))))

/-- Mark edits without a job as held by the job queue, for dispatch. -/
def claimJobQueueDispatch
    (instant : Instant)
    (table : Rows OperationId Row)
    (locked : List OperationId)
    (limit : ℕ)
    (staleMs : ℤ) : Statement where
  condition id _ :=
    (oldest limit locked (Row.awaitsDispatch instant staleMs) table).contains id
  change row := { row with claimedBy := some JOB_QUEUE_CLAIMANT }

/-- A dispatch failed: its rows wait for the next pass. -/
def releaseJobQueueDispatch (ids : List OperationId) : Statement where
  condition id row :=
    ids.contains id && row.status == .queued &&
      row.claimedBy == some JOB_QUEUE_CLAIMANT
  change row := { row with claimedBy := none }

/-- A statement of the queue about a claim of its own run. -/
def ofStoppedJob
    (id : OperationId)
    (change : Row → Row) : Statement where
  condition key row :=
    key == id && row.claimedBy == some JOB_QUEUE_CLAIMANT &&
      row.claimToken.isSome
  change

/-- The queue's job stopped: recovery may take its claim. -/
def lapseStoppedJob (instant : Instant) (id : OperationId) : Statement :=
  ofStoppedJob id fun row => { row with claimExpiresAt := some instant.now }

/-- Nobody knows whether the queue's job stopped: its claim fails. -/
def failUnconfirmedStop
    (instant : Instant)
    (id : OperationId)
    (reason : String) : Statement :=
  ofStoppedJob id fun row =>
    { row.releaseClaim with
      status := .failed
      finishedAt := some instant.now
      errorCode := some "executor_stop_unconfirmed"
      error := some reason
      result := some { row.result.getD .blank with
        status := some "needs_attention" } }

/-! ## What a worker writes under its claim -/

/-- Record the remote job that a claimed operation started. -/
def setRemoteJobId
    (id : OperationId)
    (token : Token)
    (remoteJobId : String) : Statement :=
  claimed id token
    (fun row => CLAIMED_MEDIA_OPERATION_STATUSES.contains row.status &&
      row.remoteJobId.all (· == remoteJobId))
    fun row => { row with remoteJobId := some remoteJobId }

/-- Record the remote job of an operation whose claim is already gone. -/
def recordRemoteJobId (id : OperationId) (remoteJobId : String) : Statement where
  condition key row := key == id && row.remoteJobId.all (· == remoteJobId)
  change row := { row with remoteJobId := some remoteJobId }

/-- Extend the lease of a claim. -/
def heartbeat
    (instant : Instant)
    (id : OperationId)
    (token : Token)
    (leaseMs : ℤ)
    (requireActiveClaim : Bool) : Statement :=
  claimed id token
    (fun row => row.leaseLive instant &&
      (!requireActiveClaim || row.undisturbed) &&
      CLAIMED_MEDIA_OPERATION_STATUSES.contains row.status)
    fun row =>
      { row with
        heartbeatAt := some instant.now
        claimExpiresAt := some (instant.nowPlus leaseMs) }

/-- A report of progress. -/
structure ProgressPatch where
  status : MediaOperationStatus
  processedUnits : ℕ
  totalUnits : Option ℕ
  progress : ℚ
  studioRender : Option StudioRenderReport
deriving DecidableEq

/-- The result with the measurement that a Studio render's report adds. -/
def Row.measured
    (instant : Instant)
    (patch : ProgressPatch)
    (report : StudioRenderReport)
    (row : Row) : Option OperationResult :=
  if row.kind != .studioExport ||
      (patch.status == .preparing) != (report.stage == .preparing) then
    none
  else
    (advanceStudioRenderProgress (row.result.bind (·.studioRenderProgress))
      row.attempt report patch.processedUnits patch.totalUnits instant.clock).map
      fun measurement =>
        { row.result.getD .blank with
          studioRenderProgress := some measurement }

/-- Record progress; a stage never goes back. -/
def reportProgress
    (instant : Instant)
    (id : OperationId)
    (token : Token)
    (patch : ProgressPatch) : Statement :=
  claimed id token
    (fun row => (PROGRESS_FROM patch.status).any (·.contains row.status) &&
      patch.studioRender.all fun report =>
        (row.measured instant patch report).isSome &&
          row.leaseLive instant && row.undisturbed)
    fun row =>
      { row with
        result := (patch.studioRender.bind (row.measured instant patch)).or
          row.result
        status := patch.status
        processedUnits := patch.processedUnits
        totalUnits := patch.totalUnits
        progress := patch.progress
        heartbeatAt := some instant.now }

/-- Counts and outcomes that a runner records after a batch. -/
structure BulkPatch where
  result : OperationResult
  processedUnits : ℕ
  totalUnits : ℕ
  progress : ℚ
  leaseMs : ℤ
deriving DecidableEq

/-- Record what a runner has done so far, also while it is cancelling. -/
def setBulkResult
    (instant : Instant)
    (id : OperationId)
    (token : Token)
    (patch : BulkPatch)
    (requireActiveClaim : Bool) : Statement :=
  claimed id token
    (fun row => row.leaseLive instant &&
      CLAIMED_MEDIA_OPERATION_STATUSES.contains row.status &&
      (!requireActiveClaim || (row.status == .rendering && row.undisturbed)))
    fun row =>
      { row with
        result := some patch.result
        processedUnits := patch.processedUnits
        totalUnits := some patch.totalUnits
        progress := patch.progress
        heartbeatAt := some instant.now
        claimExpiresAt := some (instant.nowPlus patch.leaseMs) }

/-- Move a claimed operation to its last gate. -/
def beginValidation
    (instant : Instant)
    (id : OperationId)
    (token : Token)
    (requireActiveClaim : Bool) : Statement :=
  claimed id token
    (fun row => [.preparing, .rendering].contains row.status &&
      (!requireActiveClaim || (row.leaseLive instant && row.undisturbed)))
    fun row =>
      { row with status := .validating, heartbeatAt := some instant.now }

/-- What a validated operation publishes. -/
structure Completion where
  resultAssetId : Option AssetId
  progress : Option ℚ
  result : Option OperationResult
deriving DecidableEq

/-- Publish a validated result. -/
def complete
    (instant : Instant)
    (liveAssets : List (AssetId × OwnerId))
    (id : OperationId)
    (token : Token)
    (result : Completion)
    (requireActiveClaim : Bool) : Statement :=
  claimed id token
    (fun row => row.status == .validating &&
      (!requireActiveClaim || (row.leaseLive instant && row.undisturbed)) &&
      result.resultAssetId.all fun asset =>
        liveAssets.contains (asset, row.ownerId))
    fun row =>
      { row with
        status := .completed
        resultAssetId := result.resultAssetId
        result := result.result.or row.result
        progress := result.progress.getD 100
        finishedAt := some instant.now
        claimToken := none
        claimExpiresAt := none
        error := none
        errorCode := none
        pauseRequestedAt := none }

/-- Why an operation failed. -/
structure Failure where
  error : String
  errorCode : String
deriving DecidableEq, Repr

/-- A row as an automatic retry leaves it. -/
def Row.retry (instant : Instant) (failure : Failure) (row : Row) : Row :=
  { row.releaseClaim with
    status := row.pausedIfRequested
    error := some failure.error
    errorCode := some failure.errorCode
    autoRetries := row.autoRetries + 1
    retryAt := some (instant.nowPlus MEDIA_OPERATION_AUTO_RETRY_DELAY_MS) }

/-- The first write of a failure report: the automatic retry. -/
def failRetry
    (instant : Instant)
    (id : OperationId)
    (token : Token)
    (failure : Failure)
    (resumable : Bool)
    (requireActiveClaim : Bool) : Statement :=
  claimed id token
    (fun row =>
      (!requireActiveClaim ||
        (row.leaseLive instant && row.cancelRequestedAt.isNone)) &&
      WORKING_STATUSES.contains row.status &&
      row.cancelRequestedAt.isNone &&
      (resumable || row.safeAutomaticReplay) &&
      decide (row.autoRetries < MEDIA_OPERATION_AUTO_RETRIES))
    (Row.retry instant failure)

/-- The second write of a failure report: the failure itself. -/
def failReport
    (instant : Instant)
    (id : OperationId)
    (token : Token)
    (failure : Failure)
    (requireActiveClaim : Bool) : Statement :=
  claimed id token
    (fun row =>
      (!requireActiveClaim ||
        (row.leaseLive instant && row.cancelRequestedAt.isNone)) &&
      !TERMINAL_MEDIA_OPERATION_STATUSES.contains row.status)
    fun row =>
      { row with
        status := .failed
        error := some failure.error
        errorCode := some failure.errorCode
        finishedAt := some instant.now
        retryAt := none
        claimToken := none
        claimExpiresAt := none
        pauseRequestedAt := none }

/-- Hand a claimed operation back to the queue on purpose. -/
def requeue
    (instant : Instant)
    (id : OperationId)
    (token : Token)
    (delayMs : ℤ)
    (returnAttempt : Bool)
    (requireActiveClaim : Bool) : Statement :=
  claimed id token
    (fun row =>
      (!requireActiveClaim ||
        (row.leaseLive instant && row.cancelRequestedAt.isNone)) &&
      WORKING_STATUSES.contains row.status && row.cancelRequestedAt.isNone)
    fun row =>
      { row.releaseClaim with
        status := row.pausedIfRequested
        retryAt := some (instant.nowPlus delayMs)
        attempt := if returnAttempt then row.attempt - 1 else row.attempt }

/-- A worker at a checkpoint lets go of an operation that is to pause. -/
def settlePause (id : OperationId) (token : Token) : Statement :=
  claimed id token
    (fun row => [.preparing, .rendering].contains row.status &&
      row.pauseRequestedAt.isSome && row.cancelRequestedAt.isNone)
    fun row =>
      { row.releaseClaim with
        status := .paused
        attempt := row.attempt - 1 }

/-- The frame of a Studio preview. -/
structure PreviewFrame where
  id : String
  operationId : OperationId
  ownerId : OwnerId
  cacheKey : String
deriving DecidableEq, Repr

/-- The cache key belongs to a preview of one consumer. -/
def PreviewFrame.isScoped (frame : PreviewFrame) : Bool :=
  frame.cacheKey.startsWith "fl279c1:"

/-- The consumer that a scoped cache key names. -/
def PreviewFrame.consumer (frame : PreviewFrame) : String :=
  (frame.cacheKey.splitOn ":").getD 1 ""

/-- A cancel of the preview may be acknowledged when the row is written. -/
def Row.previewMayStop
    (instant : Instant)
    (frames : List PreviewFrame)
    (id : OperationId)
    (row : Row) : Bool :=
  row.kind != .studioPreview ||
    (row.snapshot.consumerRequestId.isNone &&
      !frames.any fun frame => frame.operationId == id && frame.isScoped) ||
    (row.leaseLive instant && frames.any fun frame =>
      frame.operationId == id && frame.ownerId == row.ownerId &&
        row.snapshot.previewFrameId == some frame.id && frame.isScoped &&
        row.snapshot.consumerRequestId.join == some frame.consumer)

/-- The worker confirms that the cancelled work stopped. -/
def acknowledgeCancel
    (instant : Instant)
    (frames : List PreviewFrame)
    (id : OperationId)
    (token : Token)
    (released : Bool)
    (requireActiveClaim : Bool) : Statement :=
  claimed id token
    (fun row => (!requireActiveClaim || row.leaseLive instant) &&
      row.status == .cancelling && row.previewMayStop instant frames id)
    fun row =>
      { row.releaseClaim with
        status := .cancelled
        cancelAcknowledgedAt := some instant.now
        remoteReleasedAt :=
          if released then some instant.now else row.remoteReleasedAt
        finishedAt := some (row.finishedAt.getD instant.now) }

/-! ## What the owner asks for -/

/-- A row as a request to cancel leaves it. -/
def Row.cancel (instant : Instant) (row : Row) : Row :=
  if UNCLAIMED_STATUSES.contains row.status then
    { row with
      status := .cancelled
      cancelRequestedAt := some (row.cancelRequestedAt.getD instant.now)
      cancelAcknowledgedAt := some instant.now
      finishedAt := some instant.now
      claimToken := none
      claimExpiresAt := none
      pauseRequestedAt := none }
  else
    { row with
      status := .cancelling
      cancelRequestedAt := some (row.cancelRequestedAt.getD instant.now)
      pauseRequestedAt := none }

/-- Record that the owner cancels, optionally only under a worker's claim. -/
def requestCancel
    (instant : Instant)
    (id : OperationId)
    (ownerId : OwnerId)
    (token : Option Token)
    (queuedOnly : Bool) : Statement where
  condition key row :=
    key == id && row.ownerId == ownerId && token.all row.heldBy &&
      (!queuedOnly || (row.status == .queued && row.claimToken.isNone)) &&
      !TERMINAL_MEDIA_OPERATION_STATUSES.contains row.status
  change := Row.cancel instant

/-- Record that the owner pauses. -/
def requestPause
    (instant : Instant)
    (id : OperationId)
    (ownerId : OwnerId)
    (kinds : List MediaOperationKind) : Statement where
  condition key row :=
    key == id && row.ownerId == ownerId && kinds.contains row.kind &&
      PAUSABLE_MEDIA_OPERATION_STATUSES.contains row.status &&
      row.cancelRequestedAt.isNone
  change row :=
    { row with
      status := if row.status = .queued then .paused else row.status
      pauseRequestedAt := some (row.pauseRequestedAt.getD instant.now) }

/-- Resume a paused operation, or withdraw a pause not reached yet. -/
def resume (id : OperationId) (ownerId : OwnerId) : Statement where
  condition key row :=
    key == id && row.ownerId == ownerId && row.cancelRequestedAt.isNone &&
      (row.status == .paused ||
        (row.pauseRequestedAt.isSome && WORKING_STATUSES.contains row.status))
  change row :=
    { row with
      status := if row.status = .paused then .queued else row.status
      pauseRequestedAt := none }

/-! ## Recovery of claims whose lease ran out -/

/--
A statement of recovery.  It writes its rows one after the other, so the rows
that it has not come to yet are left to a later step.
-/
def expired
    (instant : Instant)
    (activeJobs left : List OperationId)
    (statuses : List MediaOperationStatus)
    (condition : Row → Bool)
    (change : Row → Row) : Statement where
  condition id row :=
    statuses.contains row.status && !left.contains id &&
      row.leaseExpired instant && row.executionOwnerSettled activeJobs id &&
      condition row
  change

/-- First step of recovery: operations that were to pause are paused. -/
def recoverPaused
    (instant : Instant)
    (activeJobs left : List OperationId) : Statement :=
  expired instant activeJobs left WORKING_STATUSES
    (fun row => row.pauseRequestedAt.isSome && row.cancelRequestedAt.isNone)
    fun row => { row.releaseClaim with status := .paused }

/-- Second step of recovery: the automatic retry. -/
def recoverRetried
    (instant : Instant)
    (activeJobs left : List OperationId)
    (failure : Failure) : Statement :=
  expired instant activeJobs left CLAIMED_MEDIA_OPERATION_STATUSES
    (fun row => row.safeAutomaticReplay &&
      decide (row.autoRetries < MEDIA_OPERATION_AUTO_RETRIES) &&
      row.cancelRequestedAt.isNone)
    (Row.retry instant failure)

/-- Third step of recovery: what may not be retried fails. -/
def recoverFailed
    (instant : Instant)
    (activeJobs left : List OperationId)
    (failure : Failure) : Statement :=
  expired instant activeJobs left CLAIMED_MEDIA_OPERATION_STATUSES
    (fun row =>
      (decide (MEDIA_OPERATION_AUTO_RETRIES ≤ row.autoRetries) ||
        !row.safeAutomaticReplay) &&
      row.cancelRequestedAt.isNone)
    fun row =>
      { row.releaseClaim with
        status := .failed
        error := some failure.error
        errorCode := some failure.errorCode
        finishedAt := some instant.now }

/-- Fourth step of recovery: a cancel that nobody answered ends. -/
def recoverAbandonedCancels
    (instant : Instant)
    (activeJobs left : List OperationId) : Statement :=
  expired instant activeJobs left CLAIMED_MEDIA_OPERATION_STATUSES
    (fun row => row.cancelRequestedAt.isSome)
    fun row =>
      { row.releaseClaim with
        status := .cancelled
        finishedAt := some (row.finishedAt.getD instant.now) }

end Frameleaf.MediaOperation
