import Frameleaf.Queue.Execution

namespace Frameleaf.Queue

open Outcome Table

/-!
# Failing, recovering and cancelling

How a claim ends that did not complete, and how queued work is cancelled,
retried by hand or revoked by a restore.  A failure decides once between a
retry, a review by a person, a cancellation and a final failure.
-/

/-- An executor proved that it had stopped before this claim's end. -/
def Store.claimStopped
    (store : Store)
    (id : JobId)
    (job : Job) : Bool :=
  (match job.state with
    | .active token => decide ((token, id) ∈ store.stoppedAttempts)
    | _ => false) ||
    job.workerId.any fun workerId => decide (workerId ∈ store.stoppedWorkers)

/--
Every attempt of a job is proved to have stopped.  A row without a claim has no
token any more, so its retained attempts decide, not its state.
-/
def Store.attemptsStopped
    (store : Store)
    (id : JobId)
    (job : Job) : Bool :=
  (job.attempt = 0 || (store.attempts.rows.lookup (id, job.attempt)).isSome) &&
    (first
      (fun key attempt =>
        key.1 = id &&
          (attempt.result.outcome ≠ some (.left .completed) ||
            attempt.result.finishedAt.isNone) &&
          !decide ((attempt.token, id) ∈ store.stoppedAttempts) &&
          !decide (attempt.workerId ∈ store.stoppedWorkers))
      store.attempts.rows).isNone

/-- Which job a failure is about: its claim, or none for queued work. -/
structure FailedClaim where
  id : JobId
  queue : QueueName
  token : Option Token
  deriving Repr, DecidableEq

/-- How a failure was found. -/
structure FailOptions where
  expiredRecovery : Bool := false
  stopRequestedOnly : Bool := false
  queuedCancellation : Bool := false
  settlements : Bool := false
  diagnostic : Bool := false
  deriving Repr, DecidableEq

/-- The job still is what the failure is about. -/
def FailedClaim.owns
    (claim : FailedClaim)
    (options : FailOptions)
    (time : Time)
    (job : Job) : Bool :=
  if options.queuedCancellation then
    job.queue = claim.queue && job.state.isQueued && job.stopWasRequested
  else
    claim.token.any job.holdsToken &&
      (!options.expiredRecovery || job.leaseEndedBy time)

/-- What a failure reads about its job before it decides. -/
structure FailureFacts where
  stopped : Bool
  graceElapsed : Bool
  stopRequested : Bool
  cancelled : Bool
  safeToRetry : Bool
  retryAvailable : Bool
  operationId : Option String
  deriving Repr, DecidableEq

/-- The facts about a job at a time. -/
def Store.failureFacts
    (store : Store)
    (options : FailOptions)
    (time : Time)
    (id : JobId)
    (job : Job) : FailureFacts where
  stopped :=
    if options.queuedCancellation then store.attemptsStopped id job
    else store.claimStopped id job
  graceElapsed := job.leaseEndedBy (time - seconds 30)
  stopRequested := job.cancelRequestedAt.isSome
  cancelled := job.stopWasRequested
  safeToRetry := job.safeToRetry
  retryAvailable := job.retryAvailable
  operationId := job.operationId

namespace FailureFacts

/-- The executor may still run, so the failure waits for its proof. -/
def awaitsStop
    (options : FailOptions)
    (facts : FailureFacts) : Bool :=
  (options.expiredRecovery || facts.stopRequested) && !facts.stopped &&
    !facts.graceElapsed && !options.queuedCancellation

/-- Nothing proves that the executor has stopped. -/
def unconfirmedStop
    (options : FailOptions)
    (facts : FailureFacts) : Bool :=
  (options.expiredRecovery || facts.stopRequested) && !facts.stopped

/-- The job works for a media operation: an empty id names none. -/
def ownedByOperation (facts : FailureFacts) : Bool :=
  facts.operationId.any (· ≠ "")

/--
A person must look at the job: its executor may have had effects that are not
repeatable, and nothing proves that it stopped.
-/
def unconfirmedAttention
    (options : FailOptions)
    (facts : FailureFacts) : Bool :=
  facts.unconfirmedStop options &&
    (facts.cancelled || !facts.safeToRetry || facts.ownedByOperation)

/-- The state that a failure leaves its job in. -/
def endState
    (options : FailOptions)
    (facts : FailureFacts) : JobState :=
  if facts.unconfirmedAttention options then .needsAttention
  else if facts.cancelled then .cancelled
  else if !facts.safeToRetry then .needsAttention
  else if facts.retryAvailable then .pending
  else .failed

/-- The reason that is kept with the failure. -/
def endReason
    (options : FailOptions)
    (reason : String)
    (facts : FailureFacts) : String :=
  if facts.unconfirmedAttention options then
    "Executor stop could not be confirmed; " ++
      "review the worker before retrying"
  else if facts.unconfirmedStop options then
    if facts.retryAvailable then
      "Interrupted before it finished (for example by a restart); " ++
        "it is retried automatically"
    else
      "Interrupted before it finished (for example by a restart) and out of " ++
        "automatic retries; retry failed jobs to run it again"
  else if facts.cancelled then
    "Job cancellation requested"
  else
    reason

/-- The media operation that the failure settles. -/
def settledOperation
    (options : FailOptions)
    (facts : FailureFacts) : Option String :=
  if options.expiredRecovery ||
      (options.queuedCancellation && facts.unconfirmedStop options) then
    facts.operationId.filter (· ≠ "")
  else
    none

end FailureFacts

/-- The queue holds the claim of a media operation. -/
def MediaOperation.claimedByQueue (operation : MediaOperation) : Bool :=
  operation.claimedBy = some "job-queue" && operation.claimToken.isSome

/-- Settle the media operation that a failed job worked for. -/
def Store.settleOperation
    (store : Store)
    (now : Time)
    (unconfirmedStop : Bool)
    (reason : String)
    (operationId : Option String) : Store :=
  { store with
    operations :=
      updateWhere
        (fun id operation =>
          operationId = some id && operation.claimedByQueue)
        (fun _ operation =>
          if unconfirmedStop then
            -- The dispatcher must not replay an executor that may still run.
            { operation with
              status := "failed"
              finishedAt := some now
              claimToken := none
              claimExpiresAt := none
              claimedBy := none
              errorCode := some "executor_stop_unconfirmed"
              error := some reason
              result :=
                ("status", .text "needs_attention") ::
                  operation.result.filter fun entry => entry.1 ≠ "status" }
          else
            { operation with claimExpiresAt := some now })
        store.operations }

/-- The attempts whose end a failure records. -/
def FailedClaim.recordsEndOf
    (claim : FailedClaim)
    (options : FailOptions)
    (key : JobId × ℕ)
    (attempt : Attempt) : Bool :=
  key.1 = claim.id &&
    if options.queuedCancellation then attempt.result.finishedAt.isNone
    else claim.token = some attempt.token

/--
Schedule what waited for a failed job.  Work held for attention never replays
its deferred request.
-/
def Store.scheduleAfterFailure
    (store : Store)
    (now : Time)
    (id freshId : JobId)
    (unconfirmedAttention : Bool)
    (latest : Option QueueIntent) : Except QueueError (Store × List JobId) :=
  if unconfirmedAttention then .ok (store, [])
  else store.scheduleLatest now id freshId latest false

/-- What follows when a failure has ended its job for good. -/
def Store.settleTerminal
    (store : Store)
    (now : Time)
    (id freshId : JobId)
    (unconfirmedAttention : Bool)
    (latest : Option QueueIntent) : Except QueueError Store := do
  let store ←
    store.updateJobs (fun jobId _ => jobId = id) (fun _ => Job.dropLatest)
  let (store, stopped) ←
    store.scheduleAfterFailure now id freshId unconfirmedAttention latest
  store.settleDependencies now (id :: stopped)

/-- Write the failure to its job, its attempts and its media operation. -/
def Store.recordFailure
    (store : Store)
    (now : Time)
    (claim : FailedClaim)
    (reason : String)
    (options : FailOptions)
    (job : Job)
    (facts : FailureFacts) : Except QueueError Store := do
  let state := facts.endState options
  let reason := facts.endReason options reason
  let store ←
    store.updateJobs (fun id _ => id = claim.id)
      (fun _ => Job.fail state now reason)
  let store :=
    { store with
      attempts :=
        store.attempts.settleWhere (claim.recordsEndOf options) fun _ _ =>
          { outcome := some (.left state.name)
            finishedAt := some now
            error := (job.fail state now reason).error } }
  return store.settleOperation now (facts.unconfirmedStop options) reason
    (facts.settledOperation options)

/-- A job that is left with a retry settles nothing else. -/
def Store.followFailure
    (store : Store)
    (now : Time)
    (id freshId : JobId)
    (options : FailOptions)
    (latest : Option QueueIntent)
    (facts : FailureFacts) : Except QueueError Store :=
  if facts.endState options = .pending then
    .ok store
  else
    store.settleTerminal now id freshId (facts.unconfirmedAttention options)
      latest

/-- End a job that a failure owns in the state chosen for it. -/
def Store.endFailed
    (store : Store)
    (now : Time)
    (claim : FailedClaim)
    (reason : String)
    (options : FailOptions)
    (freshId : JobId)
    (job : Job)
    (facts : FailureFacts) :
    Except QueueError (Store × Option QueueState) := do
  let store ← store.recordFailure now claim reason options job facts
  let store ←
    store.followFailure now claim.id freshId options job.latestPending facts
  return (store, some (facts.endState options).name)

/--
Fail a claim, or cancel queued work.  The state that the job was left in is
returned when the failure was accepted, before a waiting request uses its row.
-/
def Store.fail
    (store : Store)
    (clock : Clock)
    (claim : FailedClaim)
    (reason : String)
    (options : FailOptions)
    (freshId : JobId) :
    Except QueueError (Store × Option QueueState) :=
  match store.job claim.id with
  | none =>
      .ok (store, none)
  | some job =>
      let facts :=
        store.failureFacts options (clock.reading 0) claim.id job
      if !claim.owns options (clock.reading 0) job then
        .ok (store, none)
      else if options.stopRequestedOnly && !facts.stopRequested then
        .ok (store, none)
      else if options.settlements && !facts.stopped then
        -- A domain retry may not outlive an executor that may still run.
        .ok (store, none)
      else if facts.awaitsStop options then do
        let store ←
          store.updateJobs (fun id _ => id = claim.id)
            (fun _ => Job.awaitStop (clock.reading 1))
        return (store, none)
      else if options.diagnostic && !facts.stopRequested &&
          !claim.token.any fun token =>
            job.mayPublish token (clock.reading 1) then
        .ok (store, none)
      else if options.diagnostic && !facts.stopRequested &&
          !claim.token.any fun token =>
            job.mayPublish token (clock.reading 2) then
        .error .diagnosticLostClaim
      else if !claim.owns options (clock.reading 3) job then
        .ok (store, none)
      else
        store.endFailed clock.now claim reason options freshId job facts

/-- Claims of a worker that have no progress for too long, or no lease. -/
def Job.isOverdue
    (now : Time)
    (noProgressDeadline : ℤ)
    (workerId : WorkerId)
    (job : Job) : Bool :=
  job.state.isActive && job.workerId = some workerId &&
    (job.cancelRequestedAt.isSome || job.leaseEndedBy now ||
      (job.progressUnits = 0 &&
        job.startedAt.any fun time =>
          time + milliseconds job.deadlineMs ≤ now) ||
      (job.progressUnits > 0 &&
        job.progressAt.any fun time =>
          time + milliseconds noProgressDeadline ≤ now))

/-- Ask the overdue claims of a worker to stop. -/
def Store.deadlines
    (store : Store)
    (now : Time)
    (noProgressDeadline : ℤ)
    (workerId : WorkerId) : Except QueueError Store :=
  store.updateJobs (fun _ job => job.isOverdue now noProgressDeadline workerId)
    (fun _ => Job.requestStop now)

/-- Give up the workers that have not been heard from for a minute. -/
def Store.loseWorkers
    (store : Store)
    (now : Time) : Store :=
  { store with
    workers :=
      updateWhere (fun _ worker => worker.heartbeatAt < now - seconds 60)
        (fun _ worker => { worker with state := .lost })
        store.workers }

/-! ## Changes by hand -/

/-- Ask for a stop of a live job, whatever it does. -/
def Store.requestCancellation
    (store : Store)
    (now : Time)
    (jobId : JobId) : Except QueueError Store :=
  store.updateJobs (fun id job => id = jobId && job.state.isLive)
    (fun _ => Job.requestCancellation now)

/-- Cancel jobs that are not active, and end what depends on them. -/
def Store.cancel
    (store : Store)
    (now : Time)
    (queue : QueueName)
    (states : List QueueState)
    (about : Job → Bool) : Except QueueError Store := do
  let matching := fun (_ : JobId) (job : Job) =>
    job.queue = queue && decide (job.state.name ∈ states) &&
      !job.state.isActive && about job
  let cancelled := select matching store.jobs.rows
  let store ← store.updateJobs matching (fun _ => Job.clear now)
  store.settleDependencies now cancelled

/-- An earlier row has precedence when several share an identity. -/
def precedes
    (firstId : JobId)
    (first : Job)
    (secondId : JobId)
    (second : Job) : Bool :=
  first.createdAt < second.createdAt ||
    (first.createdAt = second.createdAt && firstId < secondId)

/-- The failed job that a retry of a queue puts back. -/
def Store.retryFailedChooses
    (store : Store)
    (queue : QueueName)
    (jobId : Option JobId)
    (id : JobId)
    (job : Job) : Bool :=
  let isCandidate := fun (candidateId : JobId) (candidate : Job) =>
    candidate.queue = queue && candidate.state = .failed &&
      candidate.safeToRetry && jobId.all (· = candidateId)
  isCandidate id job &&
    (job.dedupKey.isNone ||
      (first
        (fun otherId other =>
          other.dedupKey = job.dedupKey &&
            ((isCandidate otherId other && precedes otherId other id job) ||
              (other.queue = queue && other.state.isLive)))
        store.jobs.rows).isNone)

/-- Put failed jobs back: every one of a queue, or only one. -/
def Store.retryFailed
    (store : Store)
    (now : Time)
    (queue : QueueName)
    (jobId : Option JobId) : Except QueueError Store :=
  store.updateJobs (store.retryFailedChooses queue jobId)
    (fun _ job =>
      job.retry (store.availability now job.runId job.name))

/-- Repeatable work of a run that its retry may put back. -/
def Store.retryRunEligible
    (store : Store)
    (runId : RunId)
    (id : JobId)
    (job : Job) : Bool :=
  job.runId = some runId && job.safeToRetry && job.operationId.isNone &&
    (job.state = .failed || job.state = .blocked) &&
    (job.dedupKey.isNone ||
      (first
        (fun otherId other =>
          other.queue = job.queue && other.dedupKey = job.dedupKey &&
            otherId ≠ id &&
            (other.state.isLive ||
              ((other.state = .failed || other.state = .blocked) &&
                precedes otherId other id job)))
        store.jobs.rows).isNone)

/-- The work of a run whose retry can run again. -/
def Store.recoverable
    (store : Store)
    (runId : RunId) : List JobId :=
  let eligible := select (store.retryRunEligible runId) store.jobs.rows
  let seeds :=
    eligible.filter fun id =>
      (store.job id).any fun job =>
        (job.state = .failed && job.parentId.isNone) ||
          job.parentId.any fun parentId =>
            (store.job parentId).any fun parent =>
              parent.state.isLive || parent.state = .completed
  let isChild := fun parentId id =>
    (store.job id).any fun job => job.parentId = some parentId
  Saturation.saturate isChild eligible.length seeds eligible

/-- Put a run's failed and blocked repeatable work back. -/
def Store.retryRun
    (store : Store)
    (now : Time)
    (runId : RunId) : Except QueueError Store :=
  let recoverable := store.recoverable runId
  store.updateJobs (fun id _ => id ∈ recoverable)
    (fun _ job =>
      job.retryInRun (store.availability now job.runId job.name))

/-- How restore ends the open attempts of a job. -/
def Job.restoredOutcome
    (stopped : Bool)
    (job : Job) : AttemptOutcome :=
  if job.isDiscardedBackup then .restoredDiscardedBackup
  else if job.stopWasRequested then
    if stopped then .restoredCancelled else .restoredNeedsAttention
  else if job.isRepeatable && job.retryAvailable then .restoredRetry
  else .restoredNeedsAttention

/--
Revoke every claim after a restore, with all workers stopped.  Only repeatable
work keeps its retry budget; held jobs stay held.
-/
def Store.resetQueueAfterRestore
    (store : Store)
    (now : Time) : Except QueueError Store := do
  let before := store
  let store :=
    { store with
      attempts :=
        store.attempts.settleWhere
          (fun key attempt =>
            attempt.result.finishedAt.isNone && (before.job key.1).isSome)
          (fun key result =>
            match before.job key.1 with
            | none => result
            | some job =>
                { result with
                  outcome :=
                    some (job.restoredOutcome
                      (before.attemptsStopped key.1 job))
                  finishedAt := some now }) }
  let audited := store
  let store ←
    store.updateJobs (fun _ job => job.isRestored)
      (fun id job => job.restore now (audited.attemptsStopped id job))
  let workers :=
    updateWhere (fun _ _ => true)
      (fun _ (worker : Worker) => { worker with state := .lost }) store.workers
  return { store with workers := workers }

end Frameleaf.Queue
