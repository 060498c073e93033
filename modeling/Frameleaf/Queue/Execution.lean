import Frameleaf.Queue.Enqueue
import Frameleaf.Lib.Saturation

namespace Frameleaf.Queue

open Outcome Saturation Table

/-!
# Claims and how they end

Claiming jobs, keeping a claim alive, and the ways in which one ends: completed,
deferred, failed, or recovered after its lease.  Each definition is one
transaction; a result is given together with the store that it leaves.
-/

/-- The largest number of rows that one statement handles. -/
def queueBatch : ℕ := 250

/-- The parent of a job, if it has one, has completed. -/
def Store.parentCompleted
    (store : Store)
    (job : Job) : Bool :=
  match job.parentId with
  | none => true
  | some parentId =>
      (store.job parentId).any fun parent => parent.state = .completed

/-- A job that a claim may take. -/
def Store.isClaimable
    (store : Store)
    (now : Time)
    (queue : QueueName)
    (byHand : Bool)
    (job : Job) : Bool :=
  job.queue = queue && job.state.isQueued &&
    (if byHand then job.availableAt = startedByHand
      else job.availableAt.reached now) &&
    (job.cancelRequestedAt.isNone || job.cancelReason = some .deadline) &&
    store.parentCompleted job

/-- The order in which jobs are claimed. -/
def claimedBefore
    (first second : Sigma fun _ : JobId => Job) : Bool :=
  if first.2.availableAt.before second.2.availableAt then true
  else if second.2.availableAt.before first.2.availableAt then false
  else if first.2.createdAt < second.2.createdAt then true
  else if second.2.createdAt < first.2.createdAt then false
  else first.1 ≤ second.1

/-- The jobs that a claim takes; rows locked by others are skipped. -/
def Store.chosenJobs
    (store : Store)
    (now : Time)
    (queue : QueueName)
    (byHand : Bool)
    (locked : JobId → Bool)
    (limit : ℕ) : List JobId :=
  (((store.jobs.rows.entries.filter fun entry =>
      store.isClaimable now queue byHand entry.2 && !locked entry.1).insertionSort
        fun first second => claimedBefore first second = true).take limit).map
    Sigma.fst

/-- The claim of a job that is active. -/
def Job.toClaim
    (id : JobId)
    (job : Job) : Option QueueClaim :=
  match job.state, job.workerId, job.startedAt with
  | .active token, some workerId, some startedAt =>
      some
        { id := id
          queue := job.queue
          name := job.name
          data := job.data
          token := token
          workerId := workerId
          attempt := job.attempt
          runId := job.runId
          itemKey := job.itemKey
          rootItemKey := job.rootItemKey
          deadlineMs := job.deadlineMs
          startedAt := startedAt
          safeToRetry := job.safeToRetry }
  | _, _, _ => none

/-- Record the attempts that claims begin. -/
def recordAttempts
    (now : Time) :
    AttemptTable → List QueueClaim → Except QueueError AttemptTable
  | attempts, [] =>
      .ok attempts
  | attempts, claim :: rest => do
      let attempts ←
        attempts.insert (claim.id, claim.attempt)
          { token := claim.token
            workerId := claim.workerId
            startedAt := now }
      recordAttempts now attempts rest

/--
Claim jobs of one queue in claim order.  The page is made active and audited
before any claim reaches an executor.  Tokens are inputs, as random numbers are.
-/
def Store.claimPending
    (store : Store)
    (now : Time)
    (queue : QueueName)
    (workerId : WorkerId)
    (byHand : Bool)
    (locked : JobId → Bool)
    (tokens : JobId → Token)
    (limit : ℕ) : Except QueueError (Store × List QueueClaim) :=
  let chosen := store.chosenJobs now queue byHand locked limit
  if chosen.isEmpty then
    .ok (store, [])
  else do
    requireReference (decide (workerId ∈ store.workers))
    let store ←
      store.updateJobs (fun id _ => id ∈ chosen)
        (fun id job => job.claim (tokens id) workerId now)
    let claims :=
      chosen.filterMap fun id => (store.job id).bind (Job.toClaim id)
    let attempts ← recordAttempts now store.attempts claims
    return ({ store with attempts := attempts }, claims)

/-- How many jobs of a queue are active. -/
def Store.activeCount
    (store : Store)
    (queue : QueueName) : ℕ :=
  (select (fun _ job => job.queue = queue && job.state.isActive)
    store.jobs.rows).length

/--
Claim jobs of a queue whose row could be locked.  Jobs started by hand come
first, even while the queue is paused, closed or full.
-/
def Store.claim
    (store : Store)
    (now : Time)
    (queue : QueueName)
    (workerId : WorkerId)
    (maxClaims : ℕ)
    (locked : JobId → Bool)
    (tokens : JobId → Token) : Except QueueError (Store × List QueueClaim) :=
  match store.queues.lookup queue with
  | none =>
      .ok (store, [])
  | some config => do
      let (store, byHand) ←
        store.claimPending now queue workerId true locked tokens
          (min queueBatch maxClaims)
      let closed := config.closedUntil.any fun time => now < time
      if config.paused || closed || byHand.length ≥ maxClaims then
        return (store, byHand)
      else do
        -- The ones started by hand already count as active.
        let capacity :=
          min (queueBatch - byHand.length)
            (min (maxClaims - byHand.length)
              (config.concurrency - store.activeCount queue))
        let (store, inTurn) ←
          store.claimPending now queue workerId false locked tokens capacity
        return (store, byHand ++ inTurn)

/-- A queued job that may be put to the front. -/
def Store.isStartable
    (store : Store)
    (queue : QueueName)
    (job : Job) : Bool :=
  job.queue = queue && job.state.isQueued && job.availableAt ≠ .held &&
    (job.cancelRequestedAt.isNone || job.cancelReason = some .deadline) &&
    store.parentCompleted job

/-- Start one queued job now. -/
def Store.startNow
    (store : Store)
    (queue : QueueName)
    (jobId : JobId) : Except QueueError (Store × Bool) := do
  let startable := (store.job jobId).any (store.isStartable queue)
  let store ←
    store.updateJobs
      (fun id job => id = jobId && store.isStartable queue job)
      (fun _ => Job.makeAvailable startedByHand)
  return (store, startable)

/-- The job is active under a token. -/
def Job.holdsToken
    (token : Token)
    (job : Job) : Bool :=
  job.state = .active token

/-- The lease lasts beyond a time. -/
def Job.leasedAfter
    (time : Time)
    (job : Job) : Bool :=
  job.leaseExpiresAt.any fun expires => time < expires

/-- The lease has run out by a time. -/
def Job.leaseEndedBy
    (time : Time)
    (job : Job) : Bool :=
  job.leaseExpiresAt.any fun expires => expires ≤ time

/-- Extend the leases of claims that a worker still holds. -/
def Store.heartbeat
    (store : Store)
    (clock : Clock)
    (workerId : WorkerId)
    (claims : List (JobId × Token))
    (locked : JobId → Bool) : Except QueueError Store := do
  let store :=
    { store with
      workers :=
        updateWhere (fun id _ => decide (id = workerId))
          (fun _ worker => { worker with heartbeatAt := clock.now })
          store.workers }
  store.updateJobs
    (fun id job =>
      claims.any (fun claim => claim.1 = id && job.holdsToken claim.2) &&
        job.workerId = some workerId &&
        job.leasedAfter (clock.reading 0) && !locked id &&
        job.leasedAfter (clock.reading 1))
    (fun _ => Job.renew clock.now)

/-- Record progress under a claim. -/
def Store.progress
    (store : Store)
    (clock : Clock)
    (id : JobId)
    (token : Token)
    (units : ℕ) : Except QueueError Store :=
  store.updateJobs
    (fun jobId job =>
      jobId = id && job.holdsToken token &&
        job.leasedAfter (clock.reading 0) && job.progressUnits < units)
    (fun _ => Job.advance clock.now units)

/-- End every queued descendant of parents that ended badly. -/
def Store.settleDependencies
    (store : Store)
    (now : Time)
    (parentIds : List JobId) : Except QueueError Store :=
  let queued := select (fun _ job => job.state.isQueued) store.jobs.rows
  let isChild := fun parentId id =>
    (store.job id).any fun job => job.parentId = some parentId
  let seeds :=
    queued.filter fun id =>
      parentIds.any fun parentId =>
        isChild parentId id &&
          (store.job parentId).any fun parent => parent.state.endedBadly
  let blocked := saturate isChild queued.length seeds queued
  store.updateJobs (fun id _ => id ∈ blocked) (fun _ => Job.block now)

/-- The request fits the row of the job it waited for. -/
def sameRunStage
    (latest : QueueIntent)
    (job : Job) : Bool :=
  latest.runId.isSome && job.runId = latest.runId &&
    latest.itemKey.isSome && job.itemKey = latest.itemKey &&
    job.name = latest.name

/-- The request with the job it waited for dropped as its parent. -/
def QueueIntent.withoutParent
    (previousId : JobId)
    (latest : QueueIntent) : QueueIntent :=
  if latest.parentId = some previousId then { latest with parentId := none }
  else latest

/--
Put the request that arrived while a job ran in the queue: in the same row when
it repeats the item and stage of its run, else as a request of its own.
-/
def Store.installLatest
    (store : Store)
    (now : Time)
    (previousId freshId : JobId)
    (latest : QueueIntent) : Except QueueError Store :=
  if (store.job previousId).any (sameRunStage latest) then do
    let store ←
      store.updateJobs (fun id _ => id = previousId)
        (fun _ =>
          Job.runLatest (store.intentAvailability now latest) latest)
    return store.reopenRuns [latest] none
  else do
    let (store, _) ←
      store.enqueue now [(freshId, latest.withoutParent previousId)]
    return store

/--
Run the request that arrived while a job ran.  An unsafe request is not
replayed after a failure; the ids of what it had to stop are returned.
-/
def Store.scheduleLatest
    (store : Store)
    (now : Time)
    (previousId freshId : JobId)
    (latest : Option QueueIntent)
    (predecessorSucceeded : Bool := true) :
    Except QueueError (Store × List JobId) :=
  match latest with
  | none =>
      .ok (store, [])
  | some latest => do
      let store ← store.installLatest now previousId freshId latest
      if predecessorSucceeded || latest.safeToRetry then
        return (store, [])
      else do
        let matching := fun (_ : JobId) (job : Job) =>
          job.queue = latest.queue && latest.key.isSome &&
            job.dedupKey = latest.key && job.state.isQueued
        let stopped := select matching store.jobs.rows
        let store ←
          store.updateJobs matching (fun _ => Job.holdForAttention now)
        return (store, stopped)

/-- Write how the attempt of a token ended. -/
def AttemptTable.settleToken
    (token : Token)
    (change : AttemptResult → AttemptResult)
    (attempts : AttemptTable) : AttemptTable :=
  attempts.settleWhere (fun _ attempt => attempt.token = token)
    (fun _ => change)

/-- A claim that may still publish: leased, and not asked to stop. -/
def Job.mayPublish
    (token : Token)
    (time : Time)
    (job : Job) : Bool :=
  job.holdsToken token && job.leasedAfter time && job.cancelRequestedAt.isNone

/-- Keep something with a claim that may still publish. -/
def Store.annotate
    (store : Store)
    (clock : Clock)
    (id : JobId)
    (token : Token)
    (field : ProducerField)
    (value : Value) : Except QueueError Store :=
  store.updateJobs
    (fun jobId job => jobId = id && job.mayPublish token (clock.reading 0))
    (fun _ => Job.annotate field value)

/-- Give a producer that may still publish a run of its own. -/
def Store.joinRun
    (store : Store)
    (clock : Clock)
    (id : JobId)
    (token : Token)
    (runId : RunId)
    (itemKey : String) : Except QueueError Store := do
  requireReference (decide (runId ∈ store.runs))
  store.updateJobs
    (fun jobId job => jobId = id && job.mayPublish token (clock.reading 0))
    (fun _ => Job.joinRun runId itemKey)

/--
Adopt the result of a claim.  The follow-ups, and then the request that waited
for the job, share the transaction; what became of the follow-ups is returned.
-/
def Store.complete
    (store : Store)
    (dataDigest : Data → String)
    (clock : Clock)
    (claim : QueueClaim)
    (followups : List (JobId × QueueIntent))
    (latestId : JobId) :
    Except QueueError (Store × Option (List Acceptance)) :=
  match store.job claim.id with
  | none =>
      .ok (store, none)
  | some job =>
      if !job.mayPublish claim.token (clock.reading 0) then
        .ok (store, none)
      else if !job.mayPublish claim.token (clock.reading 1) then
        .error .publicationLeaseExpired
      else do
        let store ←
          store.updateJobs (fun id _ => id = claim.id)
            (fun _ => Job.complete (clock.reading 1))
        let store :=
          { store with
            attempts :=
              store.attempts.settleToken claim.token fun result =>
                { result with
                  outcome := some (.left .completed)
                  finishedAt := some clock.now } }
        let (store, acceptances) ←
          store.enqueueFollowups dataDigest clock.now claim followups
        let (store, _) ←
          store.scheduleLatest clock.now claim.id latestId job.latestPending
        return (store, some acceptances)

/-- Wake deferred jobs that still wait for a reason. -/
def Store.wakeDeferred
    (store : Store)
    (now : Time)
    (ids : List JobId)
    (reason : JobDependencyReason) : Except QueueError Store :=
  store.updateJobs
    (fun id job =>
      id ∈ ids && job.state = .pending &&
        job.dependencyReason = some reason &&
        !job.availableAt.reached now && job.availableAt ≠ .held)
    (fun _ => Job.makeAvailable (.at now))

/--
How long a deferred job waits: capacity frees up within seconds, a missing key
takes an hour, and everything else waits longer on each claim.
-/
def deferralDelay
    (reason : JobDependencyReason)
    (attempt : ℕ) : Time :=
  match reason with
  | .localCapacity | .destinationCapacity => seconds 30
  | .lockedKeyUnavailable => seconds 3600
  | _ => min (seconds 30 * 2 ^ min (attempt - 1) 5) (seconds 600)

/-- The text of a deferral's reason, as the audit keeps it. -/
def JobDependencyReason.text : JobDependencyReason → String
  | .workloadDisabled => "workload-disabled"
  | .destinationUnavailable => "destination-unavailable"
  | .destinationCapacity => "destination-capacity"
  | .destinationConfiguration => "destination-configuration"
  | .destinationConsent => "destination-consent"
  | .destinationBudget => "destination-budget"
  | .sourceUnavailable => "source-unavailable"
  | .localCapacity => "local-capacity"
  | .lockedKeyUnavailable => "locked-key-unavailable"

/--
Return a claim whose dependency refuses.  That is not an execution failure: the
audit stays and the retry credit is refunded.
-/
def Store.defer
    (store : Store)
    (clock : Clock)
    (claim : QueueClaim)
    (reason : JobDependencyReason) : Except QueueError (Store × Bool) :=
  match store.job claim.id with
  | none =>
      .ok (store, false)
  | some job =>
      if !job.mayPublish claim.token (clock.reading 0) then
        .ok (store, false)
      else do
        let store ←
          store.updateJobs (fun id _ => id = claim.id)
            (fun _ job =>
              job.defer reason
                (clock.reading 0 + deferralDelay reason job.attempt))
        let store :=
          { store with
            attempts :=
              store.attempts.settleToken claim.token fun _ =>
                { outcome := some .deferred
                  finishedAt := some (clock.reading 1)
                  error := some reason.text } }
        return (store, true)

end Frameleaf.Queue
