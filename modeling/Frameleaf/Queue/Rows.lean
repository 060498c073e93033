import Frameleaf.Queue.Types
import Frameleaf.Lib.Outcome

namespace Frameleaf.Queue

open Outcome Table

/-!
# What one statement writes to one job

Each operation of the store sets columns of the rows it selects.  Every such
list of columns is one definition here, so that the operations read as their
statements do and proofs go by the kind of change.
-/

/-- The row that a request inserts. -/
def QueueIntent.toJob
    (availableAt : Availability)
    (now : Time)
    (intent : QueueIntent) : Job where
  queue := intent.queue
  name := intent.name
  data := intent.data
  state := .pending
  dedupKey := intent.key
  externalId := intent.options.jobId
  latestPending := none
  safeToRetry := intent.safeToRetry
  sensitive := intent.sensitive
  deadlineMs := intent.deadlineMs
  attempt := 0
  retryBaseAttempt := 0
  runId := intent.runId
  itemKey := intent.itemKey
  rootItemKey := intent.rootItemKey
  parentId := intent.parentId
  workerId := none
  availableAt := availableAt
  createdAt := now
  startedAt := none
  finishedAt := none
  leaseExpiresAt := none
  progressAt := none
  progressUnits := 0
  cancelRequestedAt := none
  cancelReason := none
  dependencyReason := none
  error := none

namespace Job

/-- The data that is left when a job ends: sensitive data is dropped. -/
def wipedData (job : Job) : Data :=
  if job.sensitive then [] else job.data

/-- Remember the latest request until this job has settled. -/
def park
    (intent : QueueIntent)
    (job : Job) : Job :=
  { job with latestPending := some intent }

/-- Let a queued job serve a newer request. -/
def overwrite
    (availableAt : Availability)
    (intent : QueueIntent)
    (job : Job) : Job :=
  { job with
    data := intent.data
    safeToRetry := intent.safeToRetry
    sensitive := intent.sensitive
    deadlineMs := intent.deadlineMs
    runId := intent.runId
    itemKey := intent.itemKey
    rootItemKey := intent.rootItemKey
    availableAt := availableAt }

/-- Use a finished row of a run stage for a new request. -/
def rearm
    (availableAt : Availability)
    (intent : QueueIntent)
    (job : Job) : Job :=
  { job with
    state := .pending
    data := intent.data
    dedupKey := intent.key
    externalId := intent.options.jobId
    safeToRetry := intent.safeToRetry
    sensitive := intent.sensitive
    deadlineMs := intent.deadlineMs
    rootItemKey := intent.rootItemKey
    parentId := intent.parentId
    availableAt := availableAt
    retryBaseAttempt := job.attempt
    finishedAt := none
    error := none
    cancelRequestedAt := none
    cancelReason := none
    workerId := none
    latestPending := none
    dependencyReason := none }

/-- Put a queued job under a claim. -/
def claim
    (token : Token)
    (workerId : WorkerId)
    (now : Time)
    (job : Job) : Job :=
  { job with
    state := .active token
    workerId := some workerId
    attempt := job.attempt + 1
    startedAt := some now
    progressAt := some now
    progressUnits := 0
    leaseExpiresAt := some (now + seconds 60)
    cancelRequestedAt := none
    cancelReason := none
    dependencyReason := none }

/-- Change when a queued job may be claimed. -/
def makeAvailable
    (availableAt : Availability)
    (job : Job) : Job :=
  { job with availableAt := availableAt }

/-- Extend the lease of a claim. -/
def renew
    (now : Time)
    (job : Job) : Job :=
  { job with leaseExpiresAt := some (now + seconds 60) }

/-- Record progress under a claim. -/
def advance
    (now : Time)
    (units : ℕ)
    (job : Job) : Job :=
  { job with
    progressAt := some now
    progressUnits := units }

/-- Keep something with a claim: a checkpoint, a cursor or a destination. -/
def annotate
    (field : ProducerField)
    (value : Value)
    (job : Job) : Job :=
  { job with
    data :=
      (field.name, value) :: job.data.filter fun entry => entry.1 ≠ field.name }

/-- Give a producer outside of a run a run of its own. -/
def joinRun
    (runId : RunId)
    (itemKey : String)
    (job : Job) : Job :=
  { job with
    runId := some runId
    itemKey := some itemKey }

/-- Adopt the result of a claim. -/
def complete
    (finishedAt : Time)
    (job : Job) : Job :=
  { job with
    state := .completed
    finishedAt := some finishedAt
    leaseExpiresAt := none
    latestPending := none
    dependencyReason := none
    data := job.wipedData }

/-- Return a claim whose dependency is missing, and refund its attempt. -/
def defer
    (reason : JobDependencyReason)
    (availableAt : Time)
    (job : Job) : Job :=
  { job with
    state := .pending
    leaseExpiresAt := none
    workerId := none
    cancelRequestedAt := none
    cancelReason := none
    finishedAt := none
    error := none
    retryBaseAttempt := job.retryBaseAttempt + 1
    dependencyReason := some reason
    availableAt := .at availableAt }

/-- Ask for a stop, unless one was asked for before. -/
def requestStop
    (time : Time)
    (job : Job) : Job :=
  { job with
    cancelRequestedAt := job.cancelRequestedAt.or (some time)
    cancelReason :=
      if job.cancelRequestedAt.isNone then some .deadline
      else job.cancelReason }

/-- Ask for a stop by hand. -/
def requestCancellation
    (time : Time)
    (job : Job) : Job :=
  { job with
    cancelRequestedAt := some time
    cancelReason := some .request }

/-- Wait for the proof that the executor has stopped. -/
def awaitStop
    (time : Time)
    (job : Job) : Job :=
  { job.requestStop time with
    error := some "Waiting for confirmation that the executor has stopped" }

/-- End a claim, or a queued job, in the state chosen for it. -/
def fail
    (state : JobState)
    (now : Time)
    (reason : String)
    (job : Job) : Job :=
  { job with
    state := state
    availableAt := .at (now + seconds 30)
    dependencyReason := none
    leaseExpiresAt := none
    finishedAt := if state = .pending then none else some now
    error :=
      some (if job.sensitive then "Job failed; sensitive details omitted"
        else (reason.take 500).toString)
    data := job.wipedData }

/-- Forget the request that waited for this job. -/
def dropLatest (job : Job) : Job :=
  { job with latestPending := none }

/-- Run the request that arrived while this job ran, in the same row. -/
def runLatest
    (availableAt : Availability)
    (latest : QueueIntent)
    (job : Job) : Job :=
  { job with
    state := .pending
    data := latest.data
    rootItemKey := latest.rootItemKey
    safeToRetry := latest.safeToRetry
    sensitive := latest.sensitive
    deadlineMs := latest.deadlineMs
    availableAt := availableAt
    retryBaseAttempt := job.attempt
    finishedAt := none
    cancelRequestedAt := none
    cancelReason := none
    error := none
    workerId := none
    latestPending := none }

/-- Stop a request that must not follow a failure by itself. -/
def holdForAttention
    (now : Time)
    (job : Job) : Job :=
  { job with
    state := .needsAttention
    finishedAt := some now
    error :=
      some ("Previous execution did not settle safely; " ++
        "review this request before rerunning")
    data := job.wipedData }

/-- End a queued job whose dependency did not succeed. -/
def block
    (now : Time)
    (job : Job) : Job :=
  { job with
    state := .blocked
    error := some "Dependency did not succeed"
    finishedAt := some now }

/-- Clear a job: hide its data and cancel it. -/
def clear
    (now : Time)
    (job : Job) : Job :=
  { job with
    state := .cancelled
    data := []
    latestPending := none
    finishedAt := some now }

/-- Put a failed job back with its saved data. -/
def retry
    (availableAt : Availability)
    (job : Job) : Job :=
  { job with
    state := .pending
    availableAt := availableAt
    finishedAt := none
    error := none
    retryBaseAttempt := job.attempt }

/-- Put a job of a retried run back, whatever stop it was asked for. -/
def retryInRun
    (availableAt : Availability)
    (job : Job) : Job :=
  { job.retry availableAt with
    cancelRequestedAt := none
    cancelReason := none }

/-- A stop was asked for by someone, not by a deadline. -/
def stopWasRequested (job : Job) : Bool :=
  job.cancelRequestedAt.isSome && decide (job.cancelReason ≠ some .deadline)

/-- Whether an attempt is left: two, counted from the base. -/
def retryAvailable (job : Job) : Bool :=
  job.attempt < job.retryBaseAttempt + 2

/-- The job owns a checkpoint of its producer. -/
def ownsProducerState (job : Job) : Bool :=
  job.data.has ProducerField.checkpoints.name ||
    job.data.has ProducerField.selectionCursor.name

/-- The media operation that the job works for; none for an empty text. -/
def operationId (job : Job) : Option String :=
  job.data.textOf "operationId"

/-- The job is the database backup of the backup queue. -/
def isBackup (job : Job) : Bool :=
  job.name = .databaseBackup && job.queue = .backupDatabase

/-- Restore may run the job again. -/
def isRepeatable (job : Job) : Bool :=
  (job.safeToRetry || job.isBackup) && !job.data.has "operationId"

/-- A restored dump already fulfilled this invocation. -/
def isDiscardedBackup (job : Job) : Bool :=
  job.state.isActive && job.isBackup && !job.data.has "operationId"

/-- Restore revokes the job's claim, or reviews it while it is queued. -/
def isRestored (job : Job) : Bool :=
  job.state.isActive ||
    ((!job.safeToRetry || job.data.has "operationId" || job.stopWasRequested) &&
      job.state.isQueued)

/-- The state that restore leaves a job in. -/
def restoredState
    (stopped : Bool)
    (job : Job) : JobState :=
  if job.isDiscardedBackup then .cancelled
  else if job.stopWasRequested then
    if stopped then .cancelled else .needsAttention
  else if job.isRepeatable && job.retryAvailable then .pending
  else .needsAttention

/-- Why restore left the job in its state. -/
def restoredError
    (stopped : Bool)
    (job : Job) : String :=
  if job.isDiscardedBackup then
    "Restore discarded the snapshot backup invocation"
  else if job.stopWasRequested && !stopped then
    "Executor stop could not be confirmed; review the worker before retrying"
  else
    "Restore revoked the previous execution claim"

/-- What restore writes to a job. -/
def restore
    (now : Time)
    (stopped : Bool)
    (job : Job) : Job :=
  { job with
    state := job.restoredState stopped
    safeToRetry :=
      job.safeToRetry || (job.isBackup && !job.data.has "operationId")
    leaseExpiresAt := none
    workerId := none
    cancelRequestedAt := none
    cancelReason := none
    availableAt :=
      if !job.state.isActive && job.availableAt = .held then job.availableAt
      else .at (now + seconds 30)
    latestPending := none
    finishedAt :=
      if !job.isDiscardedBackup && !job.stopWasRequested &&
          job.isRepeatable && job.retryAvailable then
        none
      else
        some now
    error := some (job.restoredError stopped)
    data := job.wipedData }

end Job

/-! ## Tables that cannot break their unique indexes -/

/-- Live jobs of one queue have different deduplication keys. -/
def DedupLive (jobs : Rows JobId Job) : Prop :=
  ∀ first ∈ jobs.entries, ∀ second ∈ jobs.entries,
    first.2.state.isLive = true → second.2.state.isLive = true →
      first.2.dedupKey.isSome = true →
        first.2.queue = second.2.queue →
          first.2.dedupKey = second.2.dedupKey → first.1 = second.1

/-- A run has one job for each item and stage. -/
def RunStage (jobs : Rows JobId Job) : Prop :=
  ∀ first ∈ jobs.entries, ∀ second ∈ jobs.entries,
    first.2.runId.isSome = true → first.2.itemKey.isSome = true →
      first.2.runId = second.2.runId → first.2.itemKey = second.2.itemKey →
        first.2.name = second.2.name → first.1 = second.1

instance (jobs : Rows JobId Job) : Decidable (DedupLive jobs) := by
  unfold DedupLive
  infer_instance

instance (jobs : Rows JobId Job) : Decidable (RunStage jobs) := by
  unfold RunStage
  infer_instance

/-- The job table, with the unique indexes that the database enforces. -/
structure JobTable where
  rows : Rows JobId Job
  dedupLive : DedupLive rows
  runStage : RunStage rows

/-- Accept the rows that a statement leaves, if no index forbids them. -/
def JobTable.ofRows (rows : Rows JobId Job) : Except QueueError JobTable :=
  if valid : DedupLive rows ∧ RunStage rows then
    .ok { rows := rows, dedupLive := valid.1, runStage := valid.2 }
  else
    .error .uniqueViolation

/-- The attempts of all jobs: each token is used once. -/
structure AttemptTable where
  rows : Rows (JobId × ℕ) Attempt
  tokensDistinct : (rows.entries.map fun entry => entry.2.token).Nodup

/-- Record a new attempt. -/
def AttemptTable.insert
    (key : JobId × ℕ)
    (attempt : Attempt)
    (attempts : AttemptTable) : Except QueueError AttemptTable :=
  if fresh : key ∉ attempts.rows ∧
      attempt.token ∉ attempts.rows.entries.map fun entry => entry.2.token then
    .ok
      { rows := attempts.rows.insert key attempt
        tokensDistinct := by
          rw [AList.entries_insert_of_notMem fresh.1]
          exact List.nodup_cons.mpr ⟨fresh.2, attempts.tokensDistinct⟩ }
  else
    .error .uniqueViolation

/-- Write how some attempts ended. -/
def AttemptTable.settleWhere
    (condition : JobId × ℕ → Attempt → Bool)
    (change : JobId × ℕ → AttemptResult → AttemptResult)
    (attempts : AttemptTable) : AttemptTable where
  rows :=
    updateWhere condition
      (fun key attempt =>
        { attempt with result := change key attempt.result })
      attempts.rows
  tokensDistinct := by
    have sameTokens :
        ∀ entry : Sigma fun _ : JobId × ℕ => Attempt,
          (rewriteEntry condition
            (fun key attempt =>
              { attempt with result := change key attempt.result })
            entry).2.token = entry.2.token := by
      intro entry
      unfold rewriteEntry
      split <;> rfl
    simp only [updateWhere, List.map_map, Function.comp_def, sameTokens]
    exact attempts.tokensDistinct

/-- Everything the queue store reads and writes. -/
structure Store where
  queues : Rows QueueName QueueConfig
  workers : Rows WorkerId Worker
  runs : Rows RunId JobRun
  jobs : JobTable
  attempts : AttemptTable
  operations : Rows String MediaOperation
  /-- Claims whose executor is proved to have stopped. -/
  stoppedAttempts : List (Token × JobId)
  /-- Workers that are proved to have stopped. -/
  stoppedWorkers : List WorkerId

/-- A store in which nothing has happened. -/
def Store.empty : Store where
  queues := ∅
  workers := ∅
  runs := ∅
  jobs :=
    { rows := ∅
      dedupLive := by simp [DedupLive]
      runStage := by simp [RunStage] }
  attempts := { rows := ∅, tokensDistinct := by simp }
  operations := ∅
  stoppedAttempts := []
  stoppedWorkers := []

/-- The row of a job. -/
def Store.job
    (store : Store)
    (id : JobId) : Option Job :=
  store.jobs.rows.lookup id

theorem JobTable.rows_of_ofRows
    {rows : Rows JobId Job}
    {jobs : JobTable}
    (accepted : JobTable.ofRows rows = .ok jobs) :
    jobs.rows = rows := by
  unfold JobTable.ofRows at accepted
  split at accepted
  · cases accepted
    rfl
  · cases accepted

/-- An `update` of the job table. -/
def Store.updateJobs
    (store : Store)
    (condition : JobId → Job → Bool)
    (change : JobId → Job → Job) : Except QueueError Store := do
  let jobs ← JobTable.ofRows (updateWhere condition change store.jobs.rows)
  return { store with jobs := jobs }

/-- An `insert` into the job table. -/
def Store.insertJob
    (store : Store)
    (id : JobId)
    (job : Job) : Except QueueError Store := do
  let jobs ← JobTable.ofRows (store.jobs.rows.insert id job)
  return { store with jobs := jobs }

variable {store after : Store}

theorem Store.eq_of_updateJobs
    {condition : JobId → Job → Bool}
    {change : JobId → Job → Job}
    (updated : store.updateJobs condition change = .ok after) :
    after = { store with jobs := after.jobs } := by
  unfold Store.updateJobs at updated
  obtain ⟨jobs, _, result⟩ := bind_eq_ok.mp updated
  cases result
  rfl

theorem Store.job_of_updateJobs
    {condition : JobId → Job → Bool}
    {change : JobId → Job → Job}
    (updated : store.updateJobs condition change = .ok after)
    (id : JobId) :
    after.job id =
      (store.job id).map fun job =>
        if condition id job then change id job else job := by
  unfold Store.updateJobs at updated
  obtain ⟨jobs, accepted, result⟩ := bind_eq_ok.mp updated
  cases result
  simp only [Store.job, JobTable.rows_of_ofRows accepted,
    lookup_updateWhere]

theorem Store.eq_of_insertJob
    {id : JobId}
    {job : Job}
    (inserted : store.insertJob id job = .ok after) :
    after = { store with jobs := after.jobs } := by
  unfold Store.insertJob at inserted
  obtain ⟨jobs, _, result⟩ := bind_eq_ok.mp inserted
  cases result
  rfl

theorem Store.job_of_insertJob
    {id : JobId}
    {job : Job}
    (inserted : store.insertJob id job = .ok after)
    (other : JobId) :
    after.job other = if other = id then some job else store.job other := by
  unfold Store.insertJob at inserted
  obtain ⟨jobs, accepted, result⟩ := bind_eq_ok.mp inserted
  cases result
  simp only [Store.job, JobTable.rows_of_ofRows accepted]
  by_cases sameId : other = id
  · subst sameId
    simp
  · simp [sameId, AList.lookup_insert_ne]

end Frameleaf.Queue
