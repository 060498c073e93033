import Frameleaf.Queue.Failure
import Frameleaf.Lib.Trace

namespace Frameleaf.Queue

open Outcome Table Trace

/-!
# The queue as a machine

Every transaction on the queue is a step, and a run is any sequence of steps:
workers, the coordinator and users interleave freely.  A transaction that the
database rolls back leaves the store as it was.
-/

/-- One transaction on the queue. -/
inductive Step where
  /-- A worker registers. -/
  | startWorker (id : WorkerId) (now : Time)
  /-- A run is created with the stages it holds. -/
  | createRun (id : RunId) (holds : List JobName)
  /-- A run's holds are written. -/
  | setRunHolds (id : RunId) (holds : List JobName)
  /-- A page of a run's queued jobs is brought in line with its holds. -/
  | reconcileHolds (id : RunId) (page : List JobId) (now : Time)
  /-- A queue's settings are written. -/
  | configure (queue : QueueName) (config : QueueConfig)
  /-- A media operation is written by its own dispatcher. -/
  | setOperation (id : String) (operation : MediaOperation)
  /-- An executor proves that it stopped. -/
  | proveAttemptStopped (token : Token) (id : JobId)
  /-- A worker is proved to have stopped. -/
  | proveWorkerStopped (id : WorkerId)
  | enqueue (now : Time) (intents : List (JobId × QueueIntent))
      (liveRunId : Option RunId)
  | claim (now : Time) (queue : QueueName) (workerId : WorkerId)
      (maxClaims : ℕ) (locked : JobId → Bool) (tokens : JobId → Token)
  | startNow (queue : QueueName) (jobId : JobId)
  | heartbeat (clock : Clock) (workerId : WorkerId)
      (claims : List (JobId × Token)) (locked : JobId → Bool)
  | progress (clock : Clock) (id : JobId) (token : Token) (units : ℕ)
  | complete (dataDigest : Data → String) (clock : Clock) (claim : QueueClaim)
      (followups : List (JobId × QueueIntent)) (latestId : JobId)
  /-- A running producer keeps something in its job's data. -/
  | annotate (clock : Clock) (id : JobId) (token : Token)
      (field : ProducerField) (value : Value)
  /-- A running producer gets a run of its own. -/
  | joinRun (clock : Clock) (id : JobId) (token : Token) (runId : RunId)
      (itemKey : String)
  | wakeDeferred (now : Time) (ids : List JobId)
      (reason : JobDependencyReason)
  | defer (clock : Clock) (claim : QueueClaim) (reason : JobDependencyReason)
  | fail (clock : Clock) (claim : FailedClaim) (reason : String)
      (options : FailOptions) (freshId : JobId)
  | deadlines (now : Time) (noProgressDeadline : ℤ) (workerId : WorkerId)
  | loseWorkers (now : Time)
  /-- A stop is asked for by hand. -/
  | requestCancellation (now : Time) (jobId : JobId)
  | cancel (now : Time) (queue : QueueName) (states : List QueueState)
      (about : Job → Bool)
  | retryFailed (now : Time) (queue : QueueName) (jobId : Option JobId)
  | retryRun (now : Time) (runId : RunId)
  | resetQueueAfterRestore (now : Time)

/-- What a transaction answers. -/
inductive Response where
  | done
  | took (acceptances : List Acceptance)
  | claimed (claims : List QueueClaim)
  | accepted (result : Bool)
  | completed (result : Option (List Acceptance))
  | failed (result : Option QueueState)
  | rolledBack (error : QueueError)

/-- Bring a page of a run's queued jobs in line with the run's holds. -/
def Store.reconcileHolds
    (store : Store)
    (runId : RunId)
    (page : List JobId)
    (now : Time) : Except QueueError Store :=
  store.updateJobs
    (fun id job =>
      id ∈ page && job.runId = some runId && job.state.isQueued &&
        (store.stageHeld (some runId) job.name !=
          decide (job.availableAt = .held)))
    (fun _ job =>
      job.makeAvailable
        (if store.stageHeld (some runId) job.name then .held else .at now))

/-- The statements of one transaction. -/
def Store.transact
    (store : Store) :
    Step → Except QueueError (Store × Response)
  | .startWorker id now =>
      if id ∈ store.workers then
        .error .uniqueViolation
      else
        .ok
          ({ store with
              workers := store.workers.insert id { heartbeatAt := now } },
            .done)
  | .createRun id holds =>
      if id ∈ store.runs then
        .error .uniqueViolation
      else
        .ok ({ store with runs := store.runs.insert id { holds := holds } },
          .done)
  | .setRunHolds id holds =>
      .ok
        ({ store with
            runs :=
              updateWhere (fun runId _ => decide (runId = id))
                (fun _ run => { run with holds := holds }) store.runs },
          .done)
  | .reconcileHolds id page now => do
      return (← store.reconcileHolds id page now, .done)
  | .configure queue config =>
      .ok ({ store with queues := store.queues.insert queue config }, .done)
  | .setOperation id operation =>
      .ok
        ({ store with operations := store.operations.insert id operation },
          .done)
  | .proveAttemptStopped token id =>
      .ok
        ({ store with
            stoppedAttempts := (token, id) :: store.stoppedAttempts },
          .done)
  | .proveWorkerStopped id =>
      .ok ({ store with stoppedWorkers := id :: store.stoppedWorkers }, .done)
  | .enqueue now intents liveRunId => do
      let (store, acceptances) ← store.enqueue now intents liveRunId
      return (store, .took acceptances)
  | .claim now queue workerId maxClaims locked tokens => do
      let (store, claims) ←
        store.claim now queue workerId maxClaims locked tokens
      return (store, .claimed claims)
  | .startNow queue jobId => do
      let (store, result) ← store.startNow queue jobId
      return (store, .accepted result)
  | .heartbeat clock workerId claims locked => do
      return (← store.heartbeat clock workerId claims locked, .done)
  | .progress clock id token units => do
      return (← store.progress clock id token units, .done)
  | .complete dataDigest clock claim followups latestId => do
      let (store, result) ←
        store.complete dataDigest clock claim followups latestId
      return (store, .completed result)
  | .annotate clock id token field value => do
      return (← store.annotate clock id token field value, .done)
  | .joinRun clock id token runId itemKey => do
      return (← store.joinRun clock id token runId itemKey, .done)
  | .wakeDeferred now ids reason => do
      return (← store.wakeDeferred now ids reason, .done)
  | .defer clock claim reason => do
      let (store, result) ← store.defer clock claim reason
      return (store, .accepted result)
  | .fail clock claim reason options freshId => do
      let (store, result) ← store.fail clock claim reason options freshId
      return (store, .failed result)
  | .deadlines now noProgressDeadline workerId => do
      return (← store.deadlines now noProgressDeadline workerId, .done)
  | .loseWorkers now =>
      .ok (store.loseWorkers now, .done)
  | .requestCancellation now jobId => do
      return (← store.requestCancellation now jobId, .done)
  | .cancel now queue states about => do
      return (← store.cancel now queue states about, .done)
  | .retryFailed now queue jobId => do
      return (← store.retryFailed now queue jobId, .done)
  | .retryRun now runId => do
      return (← store.retryRun now runId, .done)
  | .resetQueueAfterRestore now => do
      return (← store.resetQueueAfterRestore now, .done)

/-- Perform one transaction; a failed one is rolled back. -/
def Store.perform
    (store : Store)
    (step : Step) : Store × Response :=
  match store.transact step with
  | .ok result => result
  | .error error => (store, .rolledBack error)

/-- Everything that happens in a run of the queue from its beginning. -/
abbrev history (steps : List Step) : List (Entry Store Step Response) :=
  trace Store.perform Store.empty steps

/-- The store after a run of the queue from its beginning. -/
abbrev reached (steps : List Step) : Store :=
  finalState Store.perform Store.empty steps

theorem Store.perform_cases
    (store : Store)
    (step : Step) :
    store.transact step = .ok (store.perform step) ∨
      (store.perform step).1 = store ∧
        ∃ error, (store.perform step).2 = .rolledBack error := by
  unfold Store.perform
  cases result : store.transact step with
  | error error =>
      exact Or.inr ⟨rfl, error, rfl⟩
  | ok after =>
      exact Or.inl rfl

end Frameleaf.Queue
