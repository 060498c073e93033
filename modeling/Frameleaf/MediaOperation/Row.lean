import Frameleaf.Lib.Table
import Frameleaf.MediaOperation.RenderProgress
import Mathlib.Data.Rat.Defs

namespace Frameleaf.MediaOperation

/-!
# Media operations: their kinds, places and statuses
-/

/-- What a media operation does. -/
inductive MediaOperationKind where
  | studioExport
  | studioPreview
  | studioReverseConform
  | studioTranscription
  | speechTranscription
  | studioMovie
  | studioPreviewStream
  | restoration
  | restorationPreview
  | quickEdit
  | bulk
  | studioBundleExport
  | studioBundleImport
  | enrichmentPlan
  | mediaHealth
  | iCloudSync
  | takeoutImport
  | physicalDeduplication
  | libraryScan
  | preservationExport
  | preservationVerify
  | preservationReview
  | preservationRestore
  | studioExportPublish
  | cloudDescriptionBatch
  | cloudLibraryBatch
  | cloudMlJob
  | cloudBackup
  | cloudRestore
  | buddyBackup
  | buddyRestore
deriving DecidableEq, Repr

/-- Where an operation runs. -/
inductive MediaOperationDestination where
  | localMachine
  | lan
  | frameleafCloud
deriving DecidableEq, Repr

/-- Where an operation is in its life. -/
inductive MediaOperationStatus where
  | queued
  | preparing
  | rendering
  | validating
  | completed
  | cancelling
  | cancelled
  | failed
  | paused
deriving DecidableEq, Repr

/-- The kinds that a remote render worker may ever claim. -/
def isRenderWorkerMediaOperationKind : MediaOperationKind → Bool
  | .studioExport => true
  | .studioPreview => true
  | .studioPreviewStream => true
  | .restoration => true
  | .restorationPreview => true
  | .quickEdit => true
  | _ => false

/-- Kinds of local work that may replay without anybody confirming it. -/
def SAFE_MEDIA_OPERATION_REPLAY_KINDS : List MediaOperationKind :=
  [.speechTranscription, .studioExportPublish, .quickEdit, .studioPreview,
    .studioExport, .studioReverseConform, .studioBundleExport, .mediaHealth,
    .preservationExport, .preservationVerify]

/-- Statuses that a worker's claim stands behind. -/
def CLAIMED_MEDIA_OPERATION_STATUSES : List MediaOperationStatus :=
  [.preparing, .rendering, .validating, .cancelling]

/-- Statuses that never change again. -/
def TERMINAL_MEDIA_OPERATION_STATUSES : List MediaOperationStatus :=
  [.completed, .cancelled, .failed]

/-- Statuses in which a pause may still be asked for. -/
def PAUSABLE_MEDIA_OPERATION_STATUSES : List MediaOperationStatus :=
  [.queued, .preparing, .rendering]

/-- How many automatic retries every operation has. -/
def MEDIA_OPERATION_AUTO_RETRIES : Nat := 1

/-- How long an operation waits before its automatic retry, in milliseconds. -/
def MEDIA_OPERATION_AUTO_RETRY_DELAY_MS : Int := 30000

open Table

/-!
## The row of a media operation

The row is the job.  Its claim is the token of the one worker that may write
to it, and every write names the token in the condition of its statement.
-/

/-- The name of an operation. -/
abbrev OperationId := ℕ

/-- The name of an account. -/
abbrev OwnerId := ℕ

/-- The name of an asset. -/
abbrev AssetId := ℕ

/-- A random token; no two draws are equal. -/
abbrev Token := ℕ

/-- A moment in milliseconds. -/
abbrev Moment := ℤ

/-- The executor of edits that the job queue runs. -/
def JOB_QUEUE_EXECUTOR : String := "job_queue"

/-- The holder of rows that the job queue runs. -/
def JOB_QUEUE_CLAIMANT : String := "job-queue"

/-- The fields of the frozen request that statements read, as texts. -/
structure Snapshot where
  executor : Option String
  kind : Option String
  workload : Option String
  destinationId : Option String
  consumerRequestId : Option (Option String)
  previewFrameId : Option String
deriving DecidableEq, Repr

/-- What an operation has done so far. -/
structure OperationResult where
  studioRenderProgress : Option StudioRenderMeasurement
  status : Option String
  rest : String
deriving DecidableEq, Repr

/-- The document before anything was recorded. -/
def OperationResult.blank : OperationResult where
  studioRenderProgress := none
  status := none
  rest := ""

/-- One operation, with the columns that its statements read or write. -/
structure Row where
  ownerId : OwnerId
  kind : MediaOperationKind
  status : MediaOperationStatus
  destination : MediaOperationDestination
  assetId : Option AssetId
  resultAssetId : Option AssetId
  snapshot : Snapshot
  result : Option OperationResult
  progress : ℚ
  processedUnits : ℕ
  totalUnits : Option ℕ
  attempt : ℕ
  autoRetries : ℕ
  retryAt : Option Moment
  claimToken : Option Token
  claimedBy : Option String
  claimExpiresAt : Option Moment
  heartbeatAt : Option Moment
  cancelRequestedAt : Option Moment
  pauseRequestedAt : Option Moment
  cancelAcknowledgedAt : Option Moment
  remoteJobId : Option String
  remoteReleasedAt : Option Moment
  error : Option String
  errorCode : Option String
  startedAt : Option Moment
  finishedAt : Option Moment
  createdAt : Moment
  updatedAt : Moment
deriving DecidableEq

/-- What a caller chooses for a new operation. -/
structure MediaOperationCreate where
  ownerId : OwnerId
  kind : MediaOperationKind
  destination : MediaOperationDestination
  assetId : Option AssetId
  snapshot : Snapshot
  result : Option OperationResult
  totalUnits : Option ℕ
  claimedBy : Option String
  remoteJobId : Option String
deriving DecidableEq

/-- A new row, with the defaults of the table. -/
def MediaOperationCreate.row
    (operation : MediaOperationCreate)
    (now : Moment) : Row where
  ownerId := operation.ownerId
  kind := operation.kind
  status := .queued
  destination := operation.destination
  assetId := operation.assetId
  resultAssetId := none
  snapshot := operation.snapshot
  result := operation.result
  progress := 0
  processedUnits := 0
  totalUnits := operation.totalUnits
  attempt := 0
  autoRetries := 0
  retryAt := none
  claimToken := none
  claimedBy := operation.claimedBy
  claimExpiresAt := none
  heartbeatAt := none
  cancelRequestedAt := none
  pauseRequestedAt := none
  cancelAcknowledgedAt := none
  remoteJobId := operation.remoteJobId
  remoteReleasedAt := none
  error := none
  errorCode := none
  startedAt := none
  finishedAt := none
  createdAt := now
  updatedAt := now

/-- The statuses that a live claim may report from; a cancel is left out. -/
def WORKING_STATUSES : List MediaOperationStatus :=
  [.preparing, .rendering, .validating]

/-- The statuses with no worker attached. -/
def UNCLAIMED_STATUSES : List MediaOperationStatus :=
  [.queued, .paused]

/-- The stages that a report of a stage may come from. -/
def PROGRESS_FROM :
    MediaOperationStatus → Option (List MediaOperationStatus)
  | .preparing => some [.preparing]
  | .rendering => some [.preparing, .rendering]
  | .validating => some [.preparing, .rendering, .validating]
  | _ => none

/-- The times that a statement sees. -/
structure Instant where
  /-- When its transaction began. -/
  now : Moment
  /-- The clock when the row is written. -/
  clock : Moment
deriving DecidableEq, Repr

/-- A moment after the beginning of the transaction. -/
def Instant.nowPlus (instant : Instant) (ms : Int) : Moment :=
  instant.now + ms

/-- Where an operation goes when its worker lets go of it unfinished. -/
def Row.pausedIfRequested (row : Row) : MediaOperationStatus :=
  if row.pauseRequestedAt.isSome then .paused else .queued

/-- Local work that may replay without anybody confirming it. -/
def Row.safeAutomaticReplay (row : Row) : Bool :=
  SAFE_MEDIA_OPERATION_REPLAY_KINDS.contains row.kind &&
    row.destination == .localMachine && row.remoteJobId.isNone

/-- The job queue has no active job for the operation, if it held it. -/
def Row.executionOwnerSettled
    (activeJobs : List OperationId)
    (id : OperationId)
    (row : Row) : Bool :=
  row.claimedBy != some JOB_QUEUE_CLAIMANT || !activeJobs.contains id

/-- The operation is not an edit that the job queue runs. -/
def Row.notJobQueueExecuted (row : Row) : Bool :=
  row.snapshot.executor.getD "" != JOB_QUEUE_EXECUTOR

/-- The row is held under the token. -/
def Row.heldBy (token : Token) (row : Row) : Bool :=
  row.claimToken == some token

/-- The lease of the claim has not run out when the row is written. -/
def Row.leaseLive (instant : Instant) (row : Row) : Bool :=
  row.claimExpiresAt.any fun expiry => decide (instant.clock < expiry)

/-- The lease of the claim ran out before the transaction began. -/
def Row.leaseExpired (instant : Instant) (row : Row) : Bool :=
  row.claimExpiresAt.any fun expiry => decide (expiry < instant.now)

/-- Nobody asked to cancel or to pause. -/
def Row.undisturbed (row : Row) : Bool :=
  row.cancelRequestedAt.isNone && row.pauseRequestedAt.isNone

/-- The retry time has come, if there is one. -/
def Row.retryDue (instant : Instant) (row : Row) : Bool :=
  row.retryAt.all fun retryAt => decide (retryAt ≤ instant.now)

/-- The claim is let go of altogether. -/
def Row.releaseClaim (row : Row) : Row :=
  { row with claimToken := none, claimedBy := none, claimExpiresAt := none }

/-- A conditional update: the rows it takes, and what it makes of each. -/
structure Statement where
  condition : OperationId → Row → Bool
  change : Row → Row

/-- Run a statement; the trigger of the table notes when a row was written. -/
def Statement.execute
    (statement : Statement)
    (instant : Instant)
    (table : Rows OperationId Row) : Rows OperationId Row :=
  updateWhere statement.condition
    (fun _ row => { statement.change row with updatedAt := instant.clock })
    table

/-- A statement about the row that a worker holds under its token. -/
def claimed
    (id : OperationId)
    (token : Token)
    (condition : Row → Bool)
    (change : Row → Row) : Statement where
  condition key row := key == id && row.heldBy token && condition row
  change

end Frameleaf.MediaOperation
