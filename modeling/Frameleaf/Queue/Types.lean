import Mathlib
import Frameleaf.Lib.Table

namespace Frameleaf.Queue

/-!
# The rows of the job queue

The tables behind the queue store, with the columns that its operations read or
write.  A row is active exactly when it has a claim token, so the token is part
of the active state, as the table's own check demands.  Times are microseconds.
-/

/-- The primary key of a job. -/
abbrev JobId := ℕ

/-- The fencing token of one claim. -/
abbrev Token := ℕ

/-- A worker process. -/
abbrev WorkerId := ℕ

/-- A run that jobs belong to. -/
abbrev RunId := ℕ

/-- Microseconds since the epoch. -/
abbrev Time := ℤ

/-- A number of milliseconds. -/
def milliseconds (count : ℤ) : Time :=
  count * 1000

/-- A number of seconds. -/
def seconds (count : ℤ) : Time :=
  milliseconds (count * 1000)

/-- The job names that the store treats specially, and all others. -/
inductive JobName where
  | lockedSeal
  | databaseBackup
  | other (code : ℕ)
  deriving Repr, DecidableEq

/-- The queue that restore treats specially, and all others. -/
inductive QueueName where
  | backupDatabase
  | other (code : ℕ)
  deriving Repr, DecidableEq

/--
A field of a job's data: null, a text, or any other value with its JSON text
and the text that `String` makes of it.
-/
inductive Value where
  | null
  | text (value : String)
  | other (json printed : String)
  deriving Repr, DecidableEq

/-- The data of a request: named fields. -/
abbrev Data := List (String × Value)

/-- One field of a request's data. -/
def Data.field
    (data : Data)
    (name : String) : Option Value :=
  (data.find? fun entry => entry.1 = name).map Prod.snd

/-- Whether a request's data has a field. -/
def Data.has
    (data : Data)
    (name : String) : Bool :=
  (Data.field data name).isSome

/-- A field as text; a missing field and a null have none. -/
def Data.textOf
    (data : Data)
    (name : String) : Option String :=
  match Data.field data name with
  | some (.text value) => some value
  | some (.other json _) => some json
  | _ => none

/-- What a running producer keeps in its own job's data. -/
inductive ProducerField where
  | checkpoints
  | selectionCursor
  | destinations
  deriving Repr, DecidableEq

/-- The field's name. -/
def ProducerField.name : ProducerField → String
  | .checkpoints => "_producerCheckpoints"
  | .selectionCursor => "_selectionCursor"
  | .destinations => "_queueDestinations"

/-- A request's data without what a running producer adds to it. -/
def Data.requested (data : Data) : Data :=
  data.filter fun entry =>
    entry.1 ≠ ProducerField.checkpoints.name &&
      entry.1 ≠ ProducerField.selectionCursor.name &&
        entry.1 ≠ ProducerField.destinations.name

/-- The names of the states a job can be in. -/
inductive QueueState where
  | pending
  | waiting
  | active
  | completed
  | failed
  | needsAttention
  | cancelled
  | blocked
  deriving Repr, DecidableEq

/-- The state of a job together with the token of its claim. -/
inductive JobState where
  | pending
  | waiting
  | active (token : Token)
  | completed
  | failed
  | needsAttention
  | cancelled
  | blocked
  deriving Repr, DecidableEq

/-- The state's name. -/
def JobState.name : JobState → QueueState
  | .pending => .pending
  | .waiting => .waiting
  | .active _ => .active
  | .completed => .completed
  | .failed => .failed
  | .needsAttention => .needsAttention
  | .cancelled => .cancelled
  | .blocked => .blocked

/-- Waiting to be claimed. -/
def JobState.isQueued : JobState → Bool
  | .pending | .waiting => true
  | _ => false

/-- Under a claim. -/
def JobState.isActive : JobState → Bool
  | .active _ => true
  | _ => false

/-- Queued or under a claim. -/
def JobState.isLive (state : JobState) : Bool :=
  state.isQueued || state.isActive

/-- Ended in a way that children must not run after. -/
def JobState.endedBadly : JobState → Bool
  | .failed | .needsAttention | .cancelled | .blocked => true
  | _ => false

/-- Why a stop was asked for. -/
inductive CancelReason where
  | deadline
  | request
  deriving Repr, DecidableEq

/-- Why a job was deferred. -/
inductive JobDependencyReason where
  | workloadDisabled
  | destinationUnavailable
  | destinationCapacity
  | destinationConfiguration
  | destinationConsent
  | destinationBudget
  | sourceUnavailable
  | localCapacity
  | lockedKeyUnavailable
  deriving Repr, DecidableEq

/-- When a job may be claimed: from a time on, or never while it is held. -/
inductive Availability where
  | at (time : Time)
  | held
  deriving Repr, DecidableEq

/-- The availability of a job started by hand. -/
def startedByHand : Availability :=
  .at 0

/-- Whether a job is available at a time. -/
def Availability.reached
    (now : Time) : Availability → Bool
  | .at time => time ≤ now
  | .held => false

/-- The order of availability: held jobs come last. -/
def Availability.before : Availability → Availability → Bool
  | .at first, .at second => first < second
  | .at _, .held => true
  | .held, _ => false

/-- How requests with one identity are combined. -/
structure Deduplication where
  id : String
  keepLastIfActive : Bool := false
  deriving Repr, DecidableEq

/-- The options of a request. -/
structure QueueOptions where
  jobId : Option String := none
  delay : ℤ := 0
  deduplication : Option Deduplication := none
  deriving Repr, DecidableEq

/-- A request to run a job. -/
structure QueueIntent where
  queue : QueueName
  name : JobName
  data : Data := []
  options : QueueOptions := {}
  safeToRetry : Bool
  sensitive : Bool := false
  deadlineMs : ℤ := 0
  runId : Option RunId := none
  itemKey : Option String := none
  rootItemKey : Option String := none
  parentId : Option JobId := none
  deriving Repr, DecidableEq

/-- The identity a request is combined under. -/
def QueueIntent.key (intent : QueueIntent) : Option String :=
  (intent.options.deduplication.map Deduplication.id).or intent.options.jobId

/-- Whether the request replaces an earlier one instead of joining it. -/
def QueueIntent.keepLastIfActive (intent : QueueIntent) : Bool :=
  (intent.options.deduplication.map Deduplication.keepLastIfActive).getD false

/-- A row of the job table. -/
structure Job where
  queue : QueueName
  name : JobName
  data : Data
  state : JobState
  dedupKey : Option String
  externalId : Option String
  latestPending : Option QueueIntent
  safeToRetry : Bool
  sensitive : Bool
  deadlineMs : ℤ
  attempt : ℕ
  retryBaseAttempt : ℕ
  runId : Option RunId
  itemKey : Option String
  rootItemKey : Option String
  parentId : Option JobId
  workerId : Option WorkerId
  availableAt : Availability
  createdAt : Time
  startedAt : Option Time
  finishedAt : Option Time
  leaseExpiresAt : Option Time
  progressAt : Option Time
  progressUnits : ℕ
  cancelRequestedAt : Option Time
  cancelReason : Option CancelReason
  dependencyReason : Option JobDependencyReason
  error : Option String
  deriving Repr, DecidableEq

/-- How an attempt ended. -/
inductive AttemptOutcome where
  | left (state : QueueState)
  | deferred
  | restoredDiscardedBackup
  | restoredCancelled
  | restoredNeedsAttention
  | restoredRetry
  deriving Repr, DecidableEq

/-- What is written about an attempt when it ends. -/
structure AttemptResult where
  outcome : Option AttemptOutcome := none
  finishedAt : Option Time := none
  error : Option String := none
  deriving Repr, DecidableEq

/-- One claim of a job, kept for good. -/
structure Attempt where
  token : Token
  workerId : WorkerId
  startedAt : Time
  result : AttemptResult := {}
  deriving Repr, DecidableEq

/-- A queue's settings. -/
structure QueueConfig where
  paused : Bool := false
  concurrency : ℕ := 1
  closedUntil : Option Time := none
  deriving Repr, DecidableEq

/-- The state of a worker process. -/
inductive WorkerState where
  | running
  | stopping
  | lost
  deriving Repr, DecidableEq

/-- A worker process. -/
structure Worker where
  heartbeatAt : Time
  state : WorkerState := .running
  deriving Repr, DecidableEq

/-- A run: the stages it holds and whether it has finished. -/
structure JobRun where
  holds : List JobName := []
  finishedAt : Option Time := none
  deriving Repr, DecidableEq

/-- The part of a media operation that the queue settles. -/
structure MediaOperation where
  status : String
  finishedAt : Option Time := none
  claimToken : Option Token := none
  claimExpiresAt : Option Time := none
  claimedBy : Option String := none
  errorCode : Option String := none
  error : Option String := none
  result : Data := []
  deriving Repr, DecidableEq

/-- A claim as it is handed to a worker. -/
structure QueueClaim where
  id : JobId
  queue : QueueName
  name : JobName
  data : Data
  token : Token
  workerId : WorkerId
  attempt : ℕ
  runId : Option RunId
  itemKey : Option String
  rootItemKey : Option String
  deadlineMs : ℤ
  startedAt : Time
  safeToRetry : Bool
  deriving Repr, DecidableEq

/-- Why a transaction was rolled back. -/
inductive QueueError where
  | uniqueViolation
  | foreignKeyViolation
  | publicationLeaseExpired
  | diagnosticLostClaim
  deriving Repr, DecidableEq

/-- The times a transaction reads: its start, then the running clock. -/
structure Clock where
  now : Time
  reading : ℕ → Time
  advances : Monotone reading
  started : now ≤ reading 0

/-- A clock that stands still during a transaction. -/
def Clock.still (time : Time) : Clock where
  now := time
  reading := fun _ => time
  advances := monotone_const
  started := le_refl time

end Frameleaf.Queue
