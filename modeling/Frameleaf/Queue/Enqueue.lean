import Frameleaf.Queue.Rows

namespace Frameleaf.Queue

open Outcome Table

/-!
# Taking on requests

A request with an identity joins, replaces or waits behind the live job of that
identity.  Any other request becomes a new row, or uses the finished row of its
run stage again.  Ids of new rows are inputs, as random numbers are.
-/

/-- Whether a run holds a stage: its jobs are inserted or retried held. -/
def Store.stageHeld
    (store : Store)
    (runId : Option RunId)
    (name : JobName) : Bool :=
  match runId.bind store.runs.lookup with
  | some run => name ∈ run.holds
  | none => false

/-- When a job of a stage may be claimed: never, or after a delay. -/
def Store.availability
    (store : Store)
    (now : Time)
    (runId : Option RunId)
    (name : JobName)
    (delayMs : ℤ := 0) : Availability :=
  if store.stageHeld runId name then .held
  else .at (now + milliseconds delayMs)

/-- When a requested job may be claimed. -/
def Store.intentAvailability
    (store : Store)
    (now : Time)
    (intent : QueueIntent) : Availability :=
  store.availability now intent.runId intent.name intent.options.delay

/-- The live job of an identity; an empty identity is not looked up. -/
def Store.existing
    (store : Store)
    (intent : QueueIntent) : Option (JobId × Job) :=
  match intent.key with
  | none => none
  | some key =>
      if key = "" then
        none
      else
        first
          (fun _ job =>
            job.queue = intent.queue && job.dedupKey = some key &&
              job.state.isLive)
          store.jobs.rows

/--
A pending seal covers every later publication for its asset, so it keeps its
original request.
-/
def sharedSealing
    (intent : QueueIntent)
    (existing : Job) : Bool :=
  intent.name = .lockedSeal && existing.name = intent.name &&
    (match intent.data.field "id" with
      | some (.text id) => existing.data.field "id" = some (.text id)
      | _ => false) &&
    !existing.ownsProducerState

/-- What became of a request. -/
inductive Acceptance where
  | coalesced
  | parked (id : JobId)
  | overwrote (id : JobId)
  | inserted (id : JobId)
  | rearmed (id : JobId)
  deriving Repr, DecidableEq

/-- Whether a request was taken on. -/
def Acceptance.taken : Acceptance → Bool
  | .coalesced => false
  | _ => true

/-- The run that a request names exists. -/
def Store.runExists
    (store : Store)
    (intent : QueueIntent) : Bool :=
  intent.runId.all fun runId => decide (runId ∈ store.runs)

/-- The parent that a request names exists. -/
def Store.parentExists
    (store : Store)
    (intent : QueueIntent) : Bool :=
  intent.parentId.all fun parentId => decide (parentId ∈ store.jobs.rows)

/-- Go on only when what a row refers to exists. -/
def requireReference (known : Bool) : Except QueueError Unit :=
  if known then .ok () else .error .foreignKeyViolation

/-- A finished row of the request's run stage that the request may use. -/
def rearmable
    (intent : QueueIntent)
    (job : Job) : Bool :=
  intent.runId.isSome && job.runId = intent.runId &&
    intent.itemKey.isSome && job.itemKey = intent.itemKey &&
    job.name = intent.name && !job.state.isLive &&
    (job.state = .cancelled ||
      (intent.parentId.isSome && job.parentId = intent.parentId))

/--
Use the finished row that the run holds for this item and stage: one that was
cancelled, or that the same parent asks for again.
-/
def Store.rearmRunStage
    (store : Store)
    (now : Time)
    (intent : QueueIntent) : Except QueueError (Store × Acceptance) :=
  match first (fun _ job => rearmable intent job) store.jobs.rows with
  | none =>
      .ok (store, .coalesced)
  | some (id, _) => do
      requireReference (store.parentExists intent)
      let store ←
        store.updateJobs (fun _ job => rearmable intent job)
          (fun _ job =>
            job.rearm (store.intentAvailability now intent) intent)
      return (store, .rearmed id)

/-- An insertion would break the primary key or a unique index. -/
def Store.conflicts
    (store : Store)
    (id : JobId)
    (intent : QueueIntent) : Bool :=
  (store.job id).isSome ||
    (first
      (fun _ job =>
        intent.key.isSome && job.queue = intent.queue &&
          job.dedupKey = intent.key && job.state.isLive)
      store.jobs.rows).isSome ||
    (first
      (fun _ job =>
        intent.runId.isSome && job.runId = intent.runId &&
          intent.itemKey.isSome && job.itemKey = intent.itemKey &&
          job.name = intent.name)
      store.jobs.rows).isSome

/-- Insert a row; on a conflict, use the finished row of the run stage. -/
def Store.insertRow
    (store : Store)
    (now : Time)
    (id : JobId)
    (intent : QueueIntent) : Except QueueError (Store × Acceptance) :=
  if store.conflicts id intent then
    if intent.runId.isSome && intent.itemKey.any (· ≠ "") then
      store.rearmRunStage now intent
    else
      .ok (store, .coalesced)
  else do
    requireReference (store.runExists intent && store.parentExists intent)
    let store ←
      store.insertJob id
        (intent.toJob (store.intentAvailability now intent) now)
    return (store, .inserted id)

/-- Take on one request. -/
def Store.insertIntent
    (store : Store)
    (now : Time)
    (id : JobId)
    (intent : QueueIntent) : Except QueueError (Store × Acceptance) :=
  match store.existing intent with
  | some (existingId, existing) =>
      if !intent.keepLastIfActive then
        .ok (store, .coalesced)
      else if existing.state.isActive || existing.ownsProducerState then do
        -- A running job, or one that may own a checkpoint, settles first.
        let store ←
          store.updateJobs (fun id _ => id = existingId)
            (fun _ => Job.park intent)
        return (store, .parked existingId)
      else if sharedSealing intent existing then
        .ok (store, .coalesced)
      else do
        requireReference (store.runExists intent)
        let store ←
          store.updateJobs (fun id _ => id = existingId)
            (fun _ =>
              Job.overwrite (store.intentAvailability now intent) intent)
        return (store, .overwrote existingId)
  | none =>
      store.insertRow now id intent

/-- Take on requests one after the other. -/
def Store.insertIntents
    (now : Time) :
    Store → List (JobId × QueueIntent) →
      Except QueueError (Store × List Acceptance)
  | store, [] =>
      .ok (store, [])
  | store, (id, intent) :: rest => do
      let (store, acceptance) ← store.insertIntent now id intent
      let (store, acceptances) ← Store.insertIntents now store rest
      return (store, acceptance :: acceptances)

/-- Create the queues that requests name, open and with one job at a time. -/
def Store.createQueues
    (store : Store)
    (intents : List QueueIntent) : Store :=
  { store with
    queues :=
      intents.foldl
        (fun queues intent =>
          if intent.queue ∈ queues then queues
          else queues.insert intent.queue {})
        store.queues }

/-- Reopen the runs that requests name, apart from the caller's own live run. -/
def Store.reopenRuns
    (store : Store)
    (intents : List QueueIntent)
    (liveRunId : Option RunId) : Store :=
  { store with
    runs :=
      updateWhere
        (fun runId _ =>
          decide (some runId ∈ intents.map QueueIntent.runId) &&
            decide (liveRunId ≠ some runId))
        (fun _ run => { run with finishedAt := none })
        store.runs }

/--
Take on requests in one transaction, each with the id its row would get.  How
many of them were taken on is the number of the acceptances that were `taken`.
Larger lists go through in batches, which in one transaction act as one.
-/
def Store.enqueue
    (store : Store)
    (now : Time)
    (intents : List (JobId × QueueIntent))
    (liveRunId : Option RunId := none) :
    Except QueueError (Store × List Acceptance) :=
  let requests := intents.map Prod.snd
  Store.insertIntents now
    ((store.createQueues requests).reopenRuns requests liveRunId) intents

/-- The text that `String` makes of a value. -/
def Value.printed : Value → String
  | .null => "null"
  | .text value => value
  | .other _ printed => printed

/-- A field that is present and not null. -/
def Data.present
    (data : Data)
    (name : String) : Option Value :=
  (data.field name).filter fun value => value ≠ .null

/-- A follow-up without a run of its own joins the claim's run and root. -/
def QueueIntent.inherit
    (dataDigest : Data → String)
    (claim : QueueClaim)
    (intent : QueueIntent) : QueueIntent :=
  if intent.runId.isSome || claim.runId.isNone then
    intent
  else
    { intent with
      runId := claim.runId
      rootItemKey := intent.rootItemKey.or claim.rootItemKey
      itemKey :=
        intent.itemKey.or
          (some
            (match (intent.data.present "id").or
                (intent.data.present "assetId") with
              | some value => value.printed
              | none => dataDigest intent.data)) }

/-- Take on the follow-ups of a claim, in the claim's transaction. -/
def Store.enqueueFollowups
    (store : Store)
    (dataDigest : Data → String)
    (now : Time)
    (claim : QueueClaim)
    (followups : List (JobId × QueueIntent)) :
    Except QueueError (Store × List Acceptance) :=
  store.enqueue now
    (followups.map fun followup =>
      (followup.1, followup.2.inherit dataDigest claim))
    claim.runId

end Frameleaf.Queue
