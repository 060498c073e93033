import Frameleaf.Queue.Failure
import Frameleaf.Queue.Requests

namespace Frameleaf.Queue

open Outcome Table

/-!
# How a claim ends

One lemma for each of completing, deferring and failing says when the call is
refused and what it found and wrote when it was accepted.
-/

variable {store after : Store} {clock : Clock}

variable {job : Job} {token : Token}

theorem Job.isActive_of_holdsToken
    (holds : job.holdsToken token = true) :
    job.state.isActive = true := by
  rw [Job.holdsToken, decide_eq_true_eq] at holds
  rw [holds]
  rfl

variable {time now : Time}

theorem Job.mayPublish_iff :
    job.mayPublish token time = true ↔
      job.state = .active token ∧ job.leasedAfter time = true ∧
        job.cancelRequestedAt = none := by
  simp [Job.mayPublish, Job.holdsToken, and_assoc]

theorem Job.isActive_of_mayPublish
    (mayPublish : job.mayPublish token time = true) :
    job.state.isActive = true := by
  rw [(Job.mayPublish_iff.mp mayPublish).1]
  rfl

/-- The store with the attempt of a completed claim settled. -/
def Store.settleCompletion
    (store : Store)
    (now : Time)
    (token : Token) : Store :=
  { store with
    attempts :=
      store.attempts.settleToken token fun result =>
        { result with
          outcome := some (.left .completed)
          finishedAt := some now } }

/-- Everything that completing a claim can do. -/
inductive CompleteEffect
    (store : Store)
    (dataDigest : Data → String)
    (clock : Clock)
    (claim : QueueClaim)
    (followups : List (JobId × QueueIntent))
    (latestId : JobId) :
    Store → Option (List Acceptance) → Prop where
  | refused :
      CompleteEffect store dataDigest clock claim followups latestId store none
  | accepted {ended followed after : Store} {job : Job}
      {acceptances : List Acceptance} {stopped : List JobId}
      (begins : job.mayPublish claim.token (clock.reading 0) = true)
      (publishes : job.mayPublish claim.token (clock.reading 1) = true)
      (ends :
        Rewrites store ended claim.id job (job.complete (clock.reading 1)))
      (follow :
        (ended.settleCompletion clock.now claim.token).enqueueFollowups
            dataDigest clock.now claim followups =
          .ok (followed, acceptances))
      (schedule :
        followed.scheduleLatest clock.now claim.id latestId
            job.latestPending =
          .ok (after, stopped)) :
      CompleteEffect store dataDigest clock claim followups latestId after
        (some acceptances)

theorem completeEffect
    {dataDigest : Data → String}
    {claim : QueueClaim}
    {followups : List (JobId × QueueIntent)}
    {latestId : JobId}
    {result : Option (List Acceptance)}
    (completed :
      store.complete dataDigest clock claim followups latestId =
        .ok (after, result)) :
    CompleteEffect store dataDigest clock claim followups latestId after
      result := by
  unfold Store.complete at completed
  split at completed
  · cases completed
    exact CompleteEffect.refused
  rename_i job found
  split at completed
  · cases completed
    exact CompleteEffect.refused
  rename_i begins
  split at completed
  · cases completed
  rename_i publishes
  rw [Bool.not_eq_true, Bool.not_eq_false'] at begins publishes
  obtain ⟨ended, update, rest⟩ := bind_eq_ok.mp completed
  obtain ⟨⟨followed, acceptances⟩, follow, rest⟩ := bind_eq_ok.mp rest
  obtain ⟨⟨last, stopped⟩, schedule, done⟩ := bind_eq_ok.mp rest
  cases done
  exact CompleteEffect.accepted begins publishes
    (Rewrites.of_update found update) follow schedule

/-- The store with the attempt of a deferred claim settled. -/
def Store.settleDeferral
    (store : Store)
    (time : Time)
    (token : Token)
    (reason : JobDependencyReason) : Store :=
  { store with
    attempts :=
      store.attempts.settleToken token fun _ =>
        { outcome := some .deferred
          finishedAt := some time
          error := some reason.text } }

/-- Everything that deferring a claim can do. -/
inductive DeferEffect
    (store : Store)
    (clock : Clock)
    (claim : QueueClaim)
    (reason : JobDependencyReason) :
    Store → Bool → Prop where
  | refused : DeferEffect store clock claim reason store false
  | accepted {deferred : Store} {job : Job}
      (mayPublish : job.mayPublish claim.token (clock.reading 0) = true)
      (defers :
        Rewrites store deferred claim.id job
          (job.defer reason
            (clock.reading 0 + deferralDelay reason job.attempt))) :
      DeferEffect store clock claim reason
        (deferred.settleDeferral (clock.reading 1) claim.token reason) true

theorem deferEffect
    {claim : QueueClaim}
    {reason : JobDependencyReason}
    {result : Bool}
    (deferred : store.defer clock claim reason = .ok (after, result)) :
    DeferEffect store clock claim reason after result := by
  unfold Store.defer at deferred
  split at deferred
  · cases deferred
    exact DeferEffect.refused
  rename_i job found
  split at deferred
  · cases deferred
    exact DeferEffect.refused
  rename_i mayPublish
  rw [Bool.not_eq_true, Bool.not_eq_false'] at mayPublish
  obtain ⟨updated, update, done⟩ := bind_eq_ok.mp deferred
  cases done
  exact DeferEffect.accepted mayPublish (Rewrites.of_update found update)

/-- The queued jobs that carry a request's identity. -/
def carriesIdentity
    (latest : QueueIntent)
    (job : Job) : Bool :=
  job.queue = latest.queue && latest.key.isSome &&
    job.dedupKey = latest.key && job.state.isQueued

/-- Everything that scheduling what waited for a job can do. -/
inductive ScheduleEffect
    (store : Store)
    (now : Time)
    (previousId freshId : JobId)
    (predecessorSucceeded : Bool) :
    Option QueueIntent → Store → List JobId → Prop where
  | nothing :
      ScheduleEffect store now previousId freshId predecessorSucceeded none
        store []
  | ran {latest : QueueIntent} {after : Store}
      (mayRun : predecessorSucceeded = true ∨ latest.safeToRetry = true)
      (installed :
        LatestInstalled store now previousId freshId latest after) :
      ScheduleEffect store now previousId freshId predecessorSucceeded
        (some latest) after []
  | held {latest : QueueIntent} {middle after : Store}
      (failed : predecessorSucceeded = false)
      (notSafe : latest.safeToRetry = false)
      (installed :
        LatestInstalled store now previousId freshId latest middle)
      (holds :
        middle.updateJobs (fun _ => carriesIdentity latest)
            (fun _ => Job.holdForAttention now) =
          .ok after) :
      ScheduleEffect store now previousId freshId predecessorSucceeded
        (some latest) after
        (select (fun _ => carriesIdentity latest) middle.jobs.rows)

variable {freshId : JobId}

theorem scheduleEffect
    {previousId : JobId}
    {latest : Option QueueIntent}
    {predecessorSucceeded : Bool}
    {stopped : List JobId}
    (scheduled :
      store.scheduleLatest now previousId freshId latest predecessorSucceeded =
        .ok (after, stopped)) :
    ScheduleEffect store now previousId freshId predecessorSucceeded latest
      after stopped := by
  unfold Store.scheduleLatest at scheduled
  split at scheduled
  · cases scheduled
    exact ScheduleEffect.nothing
  · obtain ⟨installed, install, rest⟩ := bind_eq_ok.mp scheduled
    split at rest
    · rename_i mayRun
      cases rest
      exact ScheduleEffect.ran (by simpa using mayRun) (latestInstalled install)
    · rename_i mayNotRun
      simp only [Bool.or_eq_true, not_or, Bool.not_eq_true] at mayNotRun
      obtain ⟨updated, update, result⟩ := bind_eq_ok.mp rest
      cases result
      exact ScheduleEffect.held mayNotRun.1 mayNotRun.2
        (latestInstalled install) update

/-! ## Failing -/

variable {claim : FailedClaim} {options : FailOptions}

theorem FailedClaim.active_of_owns
    (byToken : options.queuedCancellation = false)
    (owns : claim.owns options time job = true) :
    ∃ token, claim.token = some token ∧ job.state = .active token := by
  unfold FailedClaim.owns at owns
  rw [if_neg (by simp [byToken]), Bool.and_eq_true, Option.any_eq_true] at owns
  obtain ⟨⟨token, sameToken, holds⟩, _⟩ := owns
  exact ⟨token, sameToken, of_decide_eq_true holds⟩

theorem FailedClaim.queued_of_owns
    (notByToken : options.queuedCancellation = true)
    (owns : claim.owns options time job = true) :
    job.state.isQueued = true ∧ job.stopWasRequested = true := by
  unfold FailedClaim.owns at owns
  rw [if_pos notByToken] at owns
  simp only [Bool.and_eq_true] at owns
  exact ⟨owns.1.2, owns.2⟩

theorem FailedClaim.isLive_of_owns
    (owns : claim.owns options time job = true) :
    job.state.isLive = true := by
  cases kind : options.queuedCancellation with
  | false =>
      obtain ⟨token, _, active⟩ := FailedClaim.active_of_owns kind owns
      rw [active]
      rfl
  | true =>
      simp [JobState.isLive, (FailedClaim.queued_of_owns kind owns).1]

theorem FailedClaim.active_or_stopWasRequested
    (owns : claim.owns options time job = true) :
    job.state.isActive = true ∨ job.stopWasRequested = true := by
  cases kind : options.queuedCancellation with
  | false =>
      obtain ⟨token, _, active⟩ := FailedClaim.active_of_owns kind owns
      rw [active]
      exact Or.inl rfl
  | true =>
      exact Or.inr (FailedClaim.queued_of_owns kind owns).2

variable {facts : FailureFacts}

theorem FailureFacts.endState_eq_pending_iff :
    facts.endState options = .pending ↔
      facts.unconfirmedAttention options = false ∧ facts.cancelled = false ∧
        facts.safeToRetry = true ∧ facts.retryAvailable = true := by
  unfold FailureFacts.endState
  repeat' split
  all_goals simp_all

theorem FailureFacts.endedBadly_of_ne_pending
    (notPending : facts.endState options ≠ .pending) :
    (facts.endState options).endedBadly = true := by
  unfold FailureFacts.endState at notPending ⊢
  repeat' split
  all_goals simp_all [JobState.endedBadly]

theorem FailureFacts.endState_ne_active :
    (facts.endState options).isActive = false := by
  unfold FailureFacts.endState
  repeat' split
  all_goals rfl

theorem FailureFacts.endState_ne_blocked :
    facts.endState options ≠ .blocked := by
  unfold FailureFacts.endState
  repeat' split
  all_goals exact JobState.noConfusion

/-- Everything that a failure can do. -/
inductive FailEffect
    (store : Store)
    (clock : Clock)
    (claim : FailedClaim)
    (reason : String)
    (options : FailOptions)
    (freshId : JobId) :
    Store → Option QueueState → Prop where
  | refused :
      FailEffect store clock claim reason options freshId store none
  | awaited {after : Store} {job : Job}
      (byToken : options.queuedCancellation = false)
      (owns : claim.owns options (clock.reading 0) job = true)
      (awaits :
        Rewrites store after claim.id job
          (job.awaitStop (clock.reading 1))) :
      FailEffect store clock claim reason options freshId after none
  | ended {recorded after : Store} {job : Job} {facts : FailureFacts}
      (found : store.job claim.id = some job)
      (owns : claim.owns options (clock.reading 0) job = true)
      (factsEq :
        facts = store.failureFacts options (clock.reading 0) claim.id job)
      (record :
        store.recordFailure clock.now claim reason options job facts =
          .ok recorded)
      (follow :
        recorded.followFailure clock.now claim.id freshId options
            job.latestPending facts =
          .ok after) :
      FailEffect store clock claim reason options freshId after
        (some (facts.endState options).name)

variable {reason : String}

/-- Failing does one of the listed things. -/
theorem failEffect
    {result : Option QueueState}
    (failed :
      store.fail clock claim reason options freshId = .ok (after, result)) :
    FailEffect store clock claim reason options freshId after result := by
  unfold Store.fail at failed
  split at failed
  · cases failed
    exact FailEffect.refused
  rename_i job found
  simp only at failed
  split at failed
  · cases failed
    exact FailEffect.refused
  rename_i notDisowned
  have owns : claim.owns options (clock.reading 0) job = true := by
    simpa using notDisowned
  split at failed
  · cases failed
    exact FailEffect.refused
  split at failed
  · cases failed
    exact FailEffect.refused
  split at failed
  · rename_i awaits
    obtain ⟨updated, update, done⟩ := bind_eq_ok.mp failed
    cases done
    have byToken : options.queuedCancellation = false := by
      simp only [FailureFacts.awaitsStop, Bool.and_eq_true,
        Bool.not_eq_true'] at awaits
      exact awaits.2
    exact FailEffect.awaited byToken owns (Rewrites.of_update found update)
  split at failed
  · cases failed
    exact FailEffect.refused
  split at failed
  · cases failed
  split at failed
  · cases failed
    exact FailEffect.refused
  obtain ⟨recorded, record, rest⟩ := bind_eq_ok.mp failed
  obtain ⟨followed, follow, done⟩ := bind_eq_ok.mp rest
  cases done
  exact FailEffect.ended found owns rfl record follow

theorem job_of_recordFailure
    (recorded :
      store.recordFailure now claim reason options job facts = .ok after)
    (id : JobId) :
    after.job id =
      (store.job id).map fun job =>
        if id = claim.id then
          job.fail (facts.endState options) now (facts.endReason options reason)
        else
          job := by
  unfold Store.recordFailure at recorded
  obtain ⟨failed, update, done⟩ := bind_eq_ok.mp recorded
  cases done
  have rows := Store.job_of_updateJobs update id
  simp only [decide_eq_true_eq] at rows
  exact rows

/-- What follows a failure that ended its job, statement by statement. -/
structure TerminalEffect
    (store : Store)
    (now : Time)
    (id freshId : JobId)
    (unconfirmedAttention : Bool)
    (latest : Option QueueIntent)
    (dropped scheduled after : Store)
    (stopped : List JobId) : Prop where
  drop :
    store.updateJobs (fun jobId _ => jobId = id) (fun _ => Job.dropLatest) =
      .ok dropped
  schedule :
    unconfirmedAttention = true ∧ scheduled = dropped ∧ stopped = [] ∨
      unconfirmedAttention = false ∧
        ScheduleEffect dropped now id freshId false latest scheduled stopped
  settle : scheduled.settleDependencies now (id :: stopped) = .ok after

theorem terminalEffect
    {id : JobId}
    {unconfirmedAttention : Bool}
    {latest : Option QueueIntent}
    (settled :
      store.settleTerminal now id freshId unconfirmedAttention latest =
        .ok after) :
    ∃ dropped scheduled stopped,
      TerminalEffect store now id freshId unconfirmedAttention latest dropped
        scheduled after stopped := by
  obtain ⟨dropped, drop, rest⟩ := bind_eq_ok.mp settled
  obtain ⟨⟨scheduled, stopped⟩, schedule, settle⟩ := bind_eq_ok.mp rest
  refine ⟨dropped, scheduled, stopped,
    { drop := drop, schedule := ?_, settle := settle }⟩
  unfold Store.scheduleAfterFailure at schedule
  split at schedule
  · rename_i attention
    cases schedule
    exact Or.inl ⟨attention, rfl, rfl⟩
  · rename_i noAttention
    exact Or.inr ⟨by simpa using noAttention, scheduleEffect schedule⟩

/-- The rows after a failure, before anything that waited is scheduled. -/
structure FailedRow
    (store dropped : Store)
    (id : JobId)
    (job ended : Job) : Prop where
  found : store.job id = some job
  row : dropped.job id = some ended
  endedBadly : ended.state.endedBadly = true
  notBlocked : ended.state ≠ .blocked
  sameParent : ended.parentId = job.parentId
  sameStage : ended.runId = job.runId ∧ ended.itemKey = job.itemKey ∧
    ended.name = job.name
  others : ∀ other, other ≠ id → dropped.job other = store.job other

theorem failedRow_of_terminal
    {recorded dropped scheduled : Store}
    {stopped : List JobId}
    (found : store.job claim.id = some job)
    (record :
      store.recordFailure now claim reason options job facts = .ok recorded)
    (notPending : facts.endState options ≠ .pending)
    (terminal :
      TerminalEffect recorded now claim.id freshId
        (facts.unconfirmedAttention options) job.latestPending dropped scheduled
        after stopped) :
    ∃ ended, FailedRow store dropped claim.id job ended := by
  have droppedRow := Store.job_of_updateJobs terminal.drop
  have recordedRow := job_of_recordFailure record
  refine ⟨(job.fail (facts.endState options) now
    (facts.endReason options reason)).dropLatest, ?_⟩
  refine
    { found := found
      row := ?_
      endedBadly := FailureFacts.endedBadly_of_ne_pending notPending
      notBlocked := FailureFacts.endState_ne_blocked
      sameParent := rfl
      sameStage := ⟨rfl, rfl, rfl⟩
      others := fun other apart => ?_ }
  · rw [droppedRow, recordedRow, found]
    simp
  · rw [droppedRow, recordedRow]
    simp [apart]

end Frameleaf.Queue
