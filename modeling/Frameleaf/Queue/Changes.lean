import Frameleaf.Queue.Endings
import Frameleaf.Queue.Steps

namespace Frameleaf.Queue

open Outcome Saturation Table Trace

/-!
# What a transaction can do to a job

Every statement but a claim changes a job in one of the ways listed here, each
with what the job was before.  A transaction is a sequence of such statements.
An invariant of single jobs is proved once for each kind of change and then
holds along every transaction.
-/

/-- One change of a job by a statement that does not claim it. -/
inductive RowChange : Option Job → Job → Prop where
  | inserted (intent : QueueIntent) (availableAt : Availability) (now : Time) :
      RowChange none (intent.toJob availableAt now)
  | parked {job : Job} (intent : QueueIntent)
      (live : job.state.isLive = true) :
      RowChange (some job) (job.park intent)
  | overwritten {job : Job} (availableAt : Availability) (intent : QueueIntent)
      (queued : job.state.isQueued = true) :
      RowChange (some job) (job.overwrite availableAt intent)
  | rearmed {job : Job} (availableAt : Availability) (intent : QueueIntent)
      (finished : job.state.isLive = false) :
      RowChange (some job) (job.rearm availableAt intent)
  | madeAvailable {job : Job} (availableAt : Availability)
      (queued : job.state.isQueued = true) :
      RowChange (some job) (job.makeAvailable availableAt)
  | renewed {job : Job} (now : Time) (active : job.state.isActive = true) :
      RowChange (some job) (job.renew now)
  | advanced {job : Job} (now : Time) (units : ℕ)
      (active : job.state.isActive = true) :
      RowChange (some job) (job.advance now units)
  | annotated {job : Job} (field : ProducerField) (value : Value)
      (active : job.state.isActive = true) :
      RowChange (some job) (job.annotate field value)
  | joinedRun {job : Job} (runId : RunId) (itemKey : String)
      (active : job.state.isActive = true) :
      RowChange (some job) (job.joinRun runId itemKey)
  | completed {job : Job} (finishedAt : Time)
      (active : job.state.isActive = true) :
      RowChange (some job) (job.complete finishedAt)
  | deferred {job : Job} (reason : JobDependencyReason) (availableAt : Time)
      (active : job.state.isActive = true) :
      RowChange (some job) (job.defer reason availableAt)
  | stopRequested {job : Job} (time : Time)
      (active : job.state.isActive = true) :
      RowChange (some job) (job.requestStop time)
  | stopAwaited {job : Job} (time : Time)
      (active : job.state.isActive = true) :
      RowChange (some job) (job.awaitStop time)
  | cancellationRequested {job : Job} (now : Time)
      (live : job.state.isLive = true) :
      RowChange (some job) (job.requestCancellation now)
  | retriedAfterFailure {job : Job} (now : Time) (reason : String)
      (active : job.state.isActive = true)
      (safe : job.safeToRetry = true)
      (budget : job.retryAvailable = true) :
      RowChange (some job) (job.fail .pending now reason)
  | endedBadly {job : Job} (state : JobState) (now : Time) (reason : String)
      (live : job.state.isLive = true)
      (ended : state.endedBadly = true) :
      RowChange (some job) (job.fail state now reason)
  | latestDropped {job : Job} (notActive : job.state.isActive = false) :
      RowChange (some job) job.dropLatest
  | latestRun {job : Job} (availableAt : Availability) (latest : QueueIntent)
      (notActive : job.state.isActive = false) :
      RowChange (some job) (job.runLatest availableAt latest)
  | heldForAttention {job : Job} (now : Time)
      (queued : job.state.isQueued = true) :
      RowChange (some job) (job.holdForAttention now)
  | blocked {job : Job} (now : Time) (queued : job.state.isQueued = true) :
      RowChange (some job) (job.block now)
  | cleared {job : Job} (now : Time) (notActive : job.state.isActive = false) :
      RowChange (some job) (job.clear now)
  | retried {job : Job} (availableAt : Availability)
      (failed : job.state = .failed) :
      RowChange (some job) (job.retry availableAt)
  | retriedInRun {job : Job} (availableAt : Availability)
      (ended : job.state = .failed ∨ job.state = .blocked) :
      RowChange (some job) (job.retryInRun availableAt)
  | restored {job : Job} (now : Time) (stopped : Bool)
      (isRestored : job.isRestored = true) :
      RowChange (some job) (job.restore now stopped)

/-- The token of an attempt. -/
def AttemptTable.tokenOf
    (attempts : AttemptTable)
    (key : JobId × ℕ) : Option Token :=
  (attempts.rows.lookup key).map Attempt.token

/-- One statement: each job changes in a listed way or stays as it is. -/
structure Statement (before after : Store) : Prop where
  rows : ∀ id, after.job id = before.job id ∨
    ∃ job, after.job id = some job ∧ RowChange (before.job id) job
  tokens : ∀ key, after.attempts.tokenOf key = before.attempts.tokenOf key

/-- A sequence of statements. -/
abbrev Changes : Store → Store → Prop :=
  Relation.ReflTransGen Statement

theorem Job.restoredState_ne_active
    (job : Job)
    (stopped : Bool)
    (token : Token) :
    job.restoredState stopped ≠ .active token := by
  unfold Job.restoredState
  repeat' split
  all_goals exact JobState.noConfusion

variable {job previous : Job}

theorem RowChange.active_before
    {row : Option Job}
    {token : Token}
    (change : RowChange row job)
    (active : job.state = .active token) :
    ∃ old, row = some old ∧ old.state = .active token := by
  cases change with
  | renewed _ _ | advanced _ _ _ | annotated _ _ _ | joinedRun _ _ _
  | stopRequested _ _ | stopAwaited _ _ =>
      exact ⟨_, rfl, active⟩
  | parked _ _ | overwritten _ _ _ | madeAvailable _ _
  | cancellationRequested _ _ | latestDropped _ =>
      exact ⟨_, rfl, active⟩
  | endedBadly state _ _ _ ended =>
      change state = _ at active
      rw [active] at ended
      cases ended
  | restored now stopped _ =>
      exact absurd active (Job.restoredState_ne_active _ _ _)
  | inserted _ _ _ | rearmed _ _ _ | completed _ _ | deferred _ _ _
  | retriedAfterFailure _ _ _ _ _ | latestRun _ _ _ | heldForAttention _ _
  | blocked _ _ | cleared _ _ | retried _ _ | retriedInRun _ _ =>
      cases active

variable {store before middle after : Store}

variable {id freshId previousId : JobId}

theorem Changes.active_before
    (changes : Changes before after)
    {token : Token}
    (found : after.job id = some job)
    (active : job.state = .active token) :
    ∃ old, before.job id = some old ∧ old.state = .active token := by
  induction changes generalizing job with
  | refl =>
      exact ⟨job, found, active⟩
  | tail _ statement inductionHypothesis =>
      rcases statement.rows id with same | ⟨changed, changedFound, change⟩
      · rw [same] at found
        exact inductionHypothesis found active
      · rw [changedFound] at found
        cases found
        obtain ⟨old, oldFound, oldActive⟩ := change.active_before active
        exact inductionHypothesis oldFound oldActive

theorem Changes.exists_after
    (changes : Changes before after)
    (found : before.job id = some job) :
    ∃ now, after.job id = some now := by
  induction changes with
  | refl =>
      exact ⟨job, found⟩
  | tail _ statement inductionHypothesis =>
      obtain ⟨middle, middleFound⟩ := inductionHypothesis
      rcases statement.rows id with same | ⟨changed, changedFound, _⟩
      · exact ⟨middle, same.trans middleFound⟩
      · exact ⟨changed, changedFound⟩

theorem Changes.notActive_after
    (changes : Changes before after)
    (found : before.job id = some job)
    (notActive : job.state.isActive = false) :
    ∃ now, after.job id = some now ∧ now.state.isActive = false := by
  obtain ⟨now, nowFound⟩ := changes.exists_after found
  refine ⟨now, nowFound, ?_⟩
  cases stateEq : now.state with
  | active token =>
      obtain ⟨old, oldFound, oldActive⟩ :=
        changes.active_before nowFound stateEq
      rw [found] at oldFound
      cases oldFound
      rw [oldActive] at notActive
      cases notActive
  | _ =>
      rfl

theorem changes_of_same
    (sameJobs : after.jobs = before.jobs)
    (sameAttempts : after.attempts = before.attempts) :
    Changes before after :=
  Relation.ReflTransGen.single
    { rows := fun id => by
        left
        rw [Store.job, sameJobs, Store.job]
      tokens := fun key => by rw [sameAttempts] }

theorem changes_of_settleWhere
    (condition : JobId × ℕ → Attempt → Bool)
    (change : JobId × ℕ → AttemptResult → AttemptResult) :
    Changes store
      { store with
        attempts := store.attempts.settleWhere condition change } :=
  Relation.ReflTransGen.single
    { rows := fun _ => Or.inl rfl
      tokens := fun key => by
        simp only [AttemptTable.tokenOf, AttemptTable.settleWhere,
          lookup_updateWhere, Option.map_map]
        congr 1
        funext attempt
        simp only [Function.comp_apply]
        split <;> rfl }

theorem changes_of_updateJobs
    {condition : JobId → Job → Bool}
    {change : JobId → Job → Job}
    (updated : store.updateJobs condition change = .ok after)
    (listed : ∀ id job, store.job id = some job → condition id job = true →
      RowChange (some job) (change id job)) :
    Changes store after := by
  refine Relation.ReflTransGen.single { rows := fun id => ?_, tokens := ?_ }
  · rw [Store.job_of_updateJobs updated]
    cases found : store.job id with
    | none =>
        exact Or.inl rfl
    | some job =>
        by_cases touched : condition id job = true
        · refine Or.inr ⟨change id job, by simp [touched], ?_⟩
          exact listed id job found touched
        · simp [touched]
  · intro key
    rw [Store.eq_of_updateJobs updated]

variable {now time : Time}

theorem changes_of_insertJob
    {intent : QueueIntent}
    {availableAt : Availability}
    (inserted :
      store.insertJob id (intent.toJob availableAt now) = .ok after)
    (fresh : store.job id = none) :
    Changes store after := by
  refine Relation.ReflTransGen.single
    { rows := fun other => ?_, tokens := ?_ }
  · rw [Store.job_of_insertJob inserted]
    by_cases sameId : other = id
    · subst sameId
      rw [if_pos rfl, fresh]
      exact Or.inr ⟨_, rfl, RowChange.inserted intent availableAt now⟩
    · exact Or.inl (if_neg sameId)
  · intro key
    rw [Store.eq_of_insertJob inserted]

/-! ## Taking on requests -/

theorem changes_of_rewrites
    {old new : Job}
    (rewrites : Rewrites store after id old new)
    (listed : RowChange (some old) new) :
    Changes store after := by
  refine Relation.ReflTransGen.single { rows := fun other => ?_, tokens := ?_ }
  · by_cases sameId : other = id
    · subst sameId
      rw [rewrites.found]
      exact Or.inr ⟨new, rewrites.row, listed⟩
    · exact Or.inl (rewrites.others other sameId)
  · intro key
    rw [rewrites.tables]

theorem changes_of_insertIntent
    {intent : QueueIntent}
    {acceptance : Acceptance}
    (taken : store.insertIntent now id intent = .ok (after, acceptance)) :
    Changes store after := by
  cases takenOn_of_insertIntent taken with
  | joined found _ =>
      exact Relation.ReflTransGen.refl
  | dropped _ =>
      exact Relation.ReflTransGen.refl
  | parked found _ _ rewrites =>
      exact changes_of_rewrites rewrites
        (RowChange.parked intent (Store.existing_eq_some found).2.1.live)
  | overwrote found _ queued rewrites =>
      exact changes_of_rewrites rewrites
        (RowChange.overwritten _ intent queued)
  | inserted _ noConflict insertion =>
      exact changes_of_insertJob insertion
        (Store.job_of_not_conflicts noConflict)
  | rearmed _ finished rewrites =>
      exact changes_of_rewrites rewrites
        (RowChange.rearmed _ intent (rearmable_iff.mp finished).2.2.2.2.2.1)

theorem changes_of_insertIntents
    {intents : List (JobId × QueueIntent)}
    {acceptances : List Acceptance}
    (taken :
      Store.insertIntents now store intents = .ok (after, acceptances)) :
    Changes store after := by
  induction intents generalizing store acceptances with
  | nil =>
      cases taken
      exact Relation.ReflTransGen.refl
  | cons request rest inductionHypothesis =>
      obtain ⟨id, intent⟩ := request
      obtain ⟨⟨middle, acceptance⟩, first, remaining⟩ := bind_eq_ok.mp taken
      obtain ⟨⟨last, others⟩, tail, result⟩ := bind_eq_ok.mp remaining
      cases result
      exact (changes_of_insertIntent first).trans (inductionHypothesis tail)

theorem changes_of_enqueue
    {intents : List (JobId × QueueIntent)}
    {liveRunId : Option RunId}
    {acceptances : List Acceptance}
    (taken :
      store.enqueue now intents liveRunId = .ok (after, acceptances)) :
    Changes store after := by
  have prepared :
      Changes store
        ((store.createQueues (intents.map Prod.snd)).reopenRuns
          (intents.map Prod.snd) liveRunId) :=
    changes_of_same rfl rfl
  exact prepared.trans (changes_of_insertIntents taken)

/-! ## Ending claims -/

theorem isQueued_of_reached
    {related : JobId → JobId → Bool}
    {parentSeeds : JobId → Bool}
    (reached :
      Reached related
        ((select (fun _ job => job.state.isQueued) store.jobs.rows).filter
          parentSeeds)
        (select (fun _ job => job.state.isQueued) store.jobs.rows) id) :
    ∃ job, store.job id = some job ∧ job.state.isQueued = true := by
  cases reached with
  | seed member =>
      exact mem_select.mp (List.mem_filter.mp member).1
  | next _ member _ =>
      exact mem_select.mp member

theorem changes_of_settleDependencies
    {parentIds : List JobId}
    (settled : store.settleDependencies now parentIds = .ok after) :
    Changes store after := by
  refine changes_of_updateJobs settled fun id job jobFound touched => ?_
  have reached := reached_of_mem_saturate (of_decide_eq_true touched)
  obtain ⟨found, foundJob, queued⟩ := isQueued_of_reached reached
  rw [jobFound] at foundJob
  cases foundJob
  exact RowChange.blocked now queued

theorem changes_of_installLatest
    {latest : QueueIntent}
    (found : store.job previousId = some previous)
    (notActive : previous.state.isActive = false)
    (installed :
      store.installLatest now previousId freshId latest = .ok after) :
    Changes store after := by
  unfold Store.installLatest at installed
  split at installed
  · obtain ⟨updated, update, result⟩ := bind_eq_ok.mp installed
    cases result
    have ran : Changes store updated := by
      refine changes_of_updateJobs update fun id job jobFound touched => ?_
      obtain rfl := of_decide_eq_true touched
      rw [found] at jobFound
      cases jobFound
      exact RowChange.latestRun _ latest notActive
    exact ran.trans (changes_of_same rfl rfl)
  · obtain ⟨⟨updated, _⟩, enqueued, result⟩ := bind_eq_ok.mp installed
    cases result
    exact changes_of_enqueue enqueued

variable {latest : Option QueueIntent}

theorem changes_of_scheduleLatest
    {predecessorSucceeded : Bool}
    {stopped : List JobId}
    (found : store.job previousId = some previous)
    (notActive : previous.state.isActive = false)
    (scheduled :
      store.scheduleLatest now previousId freshId latest predecessorSucceeded =
        .ok (after, stopped)) :
    Changes store after := by
  unfold Store.scheduleLatest at scheduled
  split at scheduled
  · cases scheduled
    exact Relation.ReflTransGen.refl
  · obtain ⟨installed, install, rest⟩ := bind_eq_ok.mp scheduled
    have first := changes_of_installLatest found notActive install
    split at rest
    · cases rest
      exact first
    · obtain ⟨updated, update, result⟩ := bind_eq_ok.mp rest
      cases result
      refine first.trans (changes_of_updateJobs update
        fun id job _ touched => ?_)
      simp only [Bool.and_eq_true] at touched
      exact RowChange.heldForAttention now touched.2

variable {clock : Clock}

theorem changes_of_complete
    {dataDigest : Data → String}
    {claim : QueueClaim}
    {followups : List (JobId × QueueIntent)}
    {latestId : JobId}
    {result : Option (List Acceptance)}
    (completed :
      store.complete dataDigest clock claim followups latestId =
        .ok (after, result)) :
    Changes store after := by
  cases completeEffect completed with
  | refused =>
      exact Relation.ReflTransGen.refl
  | accepted begins _ ends follow schedule =>
      have follows := (changes_of_settleWhere _ _).trans
        (changes_of_enqueue follow)
      obtain ⟨now, nowFound, notActive⟩ :=
        Changes.notActive_after follows ends.row rfl
      have completes :=
        changes_of_rewrites ends
          (RowChange.completed _ (Job.isActive_of_mayPublish begins))
      exact completes.trans
        (follows.trans (changes_of_scheduleLatest nowFound notActive schedule))

theorem changes_of_defer
    {claim : QueueClaim}
    {reason : JobDependencyReason}
    {result : Bool}
    (deferred : store.defer clock claim reason = .ok (after, result)) :
    Changes store after := by
  cases deferEffect deferred with
  | refused =>
      exact Relation.ReflTransGen.refl
  | accepted mayPublish defers =>
      exact (changes_of_rewrites defers
        (RowChange.deferred reason _
          (Job.isActive_of_mayPublish mayPublish))).trans
        (changes_of_settleWhere _ _)

/-! ## Failing -/

variable {claim : FailedClaim} {options : FailOptions} {reason : String}

theorem rowChange_of_fail
    (owns : claim.owns options time job = true) :
    RowChange (some job)
      (job.fail
        ((store.failureFacts options time claim.id job).endState options)
        now reason) := by
  by_cases pending :
      (store.failureFacts options time claim.id job).endState options = .pending
  · rw [pending]
    obtain ⟨_, notCancelled, safe, budget⟩ :=
      FailureFacts.endState_eq_pending_iff.mp pending
    rcases FailedClaim.active_or_stopWasRequested owns with active | requested
    · exact RowChange.retriedAfterFailure now reason active safe budget
    · have cancelled : job.stopWasRequested = false := notCancelled
      rw [requested] at cancelled
      cases cancelled
  · exact RowChange.endedBadly _ now reason (FailedClaim.isLive_of_owns owns)
      (FailureFacts.endedBadly_of_ne_pending pending)

theorem changes_of_settleTerminal
    {unconfirmedAttention : Bool}
    (found : store.job id = some job)
    (notActive : job.state.isActive = false)
    (settled :
      store.settleTerminal now id freshId unconfirmedAttention latest =
        .ok after) :
    Changes store after := by
  unfold Store.settleTerminal at settled
  obtain ⟨dropped, update, rest⟩ := bind_eq_ok.mp settled
  obtain ⟨⟨scheduled, stopped⟩, schedule, settle⟩ := bind_eq_ok.mp rest
  have drops : Changes store dropped := by
    refine changes_of_updateJobs update fun id _ jobFound touched => ?_
    obtain rfl := of_decide_eq_true touched
    rw [found] at jobFound
    cases jobFound
    exact RowChange.latestDropped notActive
  obtain ⟨droppedJob, droppedFound, droppedNotActive⟩ :=
    Changes.notActive_after drops found notActive
  have settles : Changes scheduled after :=
    changes_of_settleDependencies settle
  unfold Store.scheduleAfterFailure at schedule
  split at schedule
  · cases schedule
    exact drops.trans settles
  · exact drops.trans
      ((changes_of_scheduleLatest droppedFound droppedNotActive schedule).trans
        settles)

theorem changes_of_settleOperation
    (now : Time)
    (unconfirmedStop : Bool)
    (reason : String)
    (operationId : Option String) :
    Changes store
      (store.settleOperation now unconfirmedStop reason operationId) :=
  changes_of_same rfl rfl

theorem changes_of_recordFailure
    (found : store.job claim.id = some job)
    (owns : claim.owns options time job = true)
    (recorded :
      store.recordFailure now claim reason options job
          (store.failureFacts options time claim.id job) =
        .ok after) :
    Changes store after := by
  unfold Store.recordFailure at recorded
  obtain ⟨failed, update, done⟩ := bind_eq_ok.mp recorded
  cases done
  have fails : Changes store failed := by
    refine changes_of_updateJobs update fun id _ jobFound touched => ?_
    obtain rfl := of_decide_eq_true touched
    rw [found] at jobFound
    cases jobFound
    exact rowChange_of_fail owns
  refine Relation.ReflTransGen.trans ?_ (changes_of_settleOperation _ _ _ _)
  exact fails.trans (changes_of_settleWhere _ _)

theorem changes_of_followFailure
    {facts : FailureFacts}
    (found : store.job id = some job)
    (notActive : job.state.isActive = false)
    (followed :
      store.followFailure now id freshId options latest facts = .ok after) :
    Changes store after := by
  unfold Store.followFailure at followed
  split at followed
  · cases followed
    exact Relation.ReflTransGen.refl
  · exact changes_of_settleTerminal found notActive followed

theorem changes_of_fail
    {result : Option QueueState}
    (failed :
      store.fail clock claim reason options freshId = .ok (after, result)) :
    Changes store after := by
  cases failEffect failed with
  | refused =>
      exact Relation.ReflTransGen.refl
  | awaited byToken owns awaits =>
      obtain ⟨token, _, active⟩ := FailedClaim.active_of_owns byToken owns
      exact changes_of_rewrites awaits
        (RowChange.stopAwaited _ (by rw [active]; rfl))
  | ended found owns factsEq record follow =>
      subst factsEq
      have recordedJob := job_of_recordFailure record claim.id
      rw [found, Option.map_some, if_pos rfl] at recordedJob
      exact (changes_of_recordFailure found owns record).trans
        (changes_of_followFailure recordedJob FailureFacts.endState_ne_active
          follow)

/-! ## All transactions but claims -/

theorem changes_of_cancel
    {queue : QueueName}
    {states : List QueueState}
    {about : Job → Bool}
    (cancelled : store.cancel now queue states about = .ok after) :
    Changes store after := by
  unfold Store.cancel at cancelled
  obtain ⟨cleared, update, settle⟩ := bind_eq_ok.mp cancelled
  have clears : Changes store cleared := by
    refine changes_of_updateJobs update fun id job _ touched => ?_
    simp only [Bool.and_eq_true, Bool.not_eq_true'] at touched
    exact RowChange.cleared now touched.1.2
  exact clears.trans (changes_of_settleDependencies settle)

theorem changes_of_retryRun
    {runId : RunId}
    (retried : store.retryRun now runId = .ok after) :
    Changes store after := by
  refine changes_of_updateJobs retried fun id job jobFound touched => ?_
  have reached := reached_of_mem_saturate (of_decide_eq_true touched)
  have eligible : id ∈ select (store.retryRunEligible runId) store.jobs.rows := by
    cases reached with
    | seed member =>
        exact (List.mem_filter.mp member).1
    | next _ member _ =>
        exact member
  obtain ⟨row, rowFound, isEligible⟩ := mem_select.mp eligible
  rw [Store.job, rowFound] at jobFound
  cases jobFound
  simp only [Store.retryRunEligible, Bool.and_eq_true, Bool.or_eq_true,
    decide_eq_true_eq] at isEligible
  exact RowChange.retriedInRun _ isEligible.1.2

theorem changes_of_resetQueueAfterRestore
    (restored : store.resetQueueAfterRestore now = .ok after) :
    Changes store after := by
  unfold Store.resetQueueAfterRestore at restored
  obtain ⟨updated, update, done⟩ := bind_eq_ok.mp restored
  cases done
  have restores :=
    changes_of_updateJobs update fun id job _ touched =>
      RowChange.restored now _ touched
  exact (changes_of_settleWhere _ _).trans
    (restores.trans (changes_of_same rfl rfl))

/-- Whether a step claims jobs. -/
def Step.isClaim : Step → Bool
  | .claim .. => true
  | _ => false

/-- Every transaction but a claim is a sequence of statements. -/
theorem changes_of_transact
    {step : Step}
    {response : Response}
    (notClaim : step.isClaim = false)
    (transacted : store.transact step = .ok (after, response)) :
    Changes store after := by
  cases step with
  | startWorker id now | createRun id holds =>
      simp only [Store.transact] at transacted
      split at transacted
      · cases transacted
      · cases transacted
        exact changes_of_same rfl rfl
  | setRunHolds id holds | configure queue config | setOperation id operation
  | proveAttemptStopped token id | proveWorkerStopped id | loseWorkers now =>
      cases transacted
      exact changes_of_same rfl rfl
  | reconcileHolds id page now =>
      obtain ⟨updated, update, done⟩ := bind_eq_ok.mp transacted
      cases done
      refine changes_of_updateJobs update fun id job _ touched => ?_
      simp only [Bool.and_eq_true] at touched
      exact RowChange.madeAvailable _ touched.1.2
  | enqueue now intents liveRunId =>
      obtain ⟨⟨updated, _⟩, update, done⟩ := bind_eq_ok.mp transacted
      cases done
      exact changes_of_enqueue update
  | claim now queue workerId maxClaims locked tokens =>
      cases notClaim
  | startNow queue jobId =>
      obtain ⟨⟨updated, _⟩, started, done⟩ := bind_eq_ok.mp transacted
      cases done
      obtain ⟨changed, update, result⟩ := bind_eq_ok.mp started
      cases result
      refine changes_of_updateJobs update fun id job _ touched => ?_
      simp only [Store.isStartable, Bool.and_eq_true] at touched
      exact RowChange.madeAvailable _ touched.2.1.1.1.2
  | heartbeat clock workerId claims locked =>
      obtain ⟨updated, update, done⟩ := bind_eq_ok.mp transacted
      cases done
      unfold Store.heartbeat at update
      refine Relation.ReflTransGen.trans ?_
        (changes_of_updateJobs update fun id job _ touched => ?_)
      · exact changes_of_same rfl rfl
      · simp only [Bool.and_eq_true, List.any_eq_true] at touched
        obtain ⟨⟨⟨⟨⟨claim, _, _, holds⟩, _⟩, _⟩, _⟩, _⟩ := touched
        exact RowChange.renewed _ (Job.isActive_of_holdsToken holds)
  | progress clock id token units =>
      obtain ⟨updated, update, done⟩ := bind_eq_ok.mp transacted
      cases done
      refine changes_of_updateJobs update fun id job _ touched => ?_
      simp only [Bool.and_eq_true] at touched
      exact RowChange.advanced _ _
        (Job.isActive_of_holdsToken touched.1.1.2)
  | complete dataDigest clock claim followups latestId =>
      obtain ⟨⟨updated, _⟩, completed, done⟩ := bind_eq_ok.mp transacted
      cases done
      exact changes_of_complete completed
  | annotate clock id token field value =>
      obtain ⟨updated, update, done⟩ := bind_eq_ok.mp transacted
      cases done
      refine changes_of_updateJobs update fun id job _ touched => ?_
      simp only [Bool.and_eq_true] at touched
      exact RowChange.annotated _ _
        (Job.isActive_of_mayPublish touched.2)
  | joinRun clock id token runId itemKey =>
      obtain ⟨updated, joined, done⟩ := bind_eq_ok.mp transacted
      cases done
      obtain ⟨_, _, update⟩ := bind_eq_ok.mp joined
      refine changes_of_updateJobs update fun id job _ touched => ?_
      simp only [Bool.and_eq_true] at touched
      exact RowChange.joinedRun _ _
        (Job.isActive_of_mayPublish touched.2)
  | wakeDeferred now ids reason =>
      obtain ⟨updated, update, done⟩ := bind_eq_ok.mp transacted
      cases done
      refine changes_of_updateJobs update fun id job _ touched => ?_
      simp only [Bool.and_eq_true, decide_eq_true_eq] at touched
      refine RowChange.madeAvailable _ ?_
      rw [touched.1.1.1.2]
      rfl
  | defer clock claim reason =>
      obtain ⟨⟨updated, _⟩, deferred, done⟩ := bind_eq_ok.mp transacted
      cases done
      exact changes_of_defer deferred
  | fail clock claim reason options freshId =>
      obtain ⟨⟨updated, _⟩, failed, done⟩ := bind_eq_ok.mp transacted
      cases done
      exact changes_of_fail failed
  | deadlines now noProgressDeadline workerId =>
      obtain ⟨updated, update, done⟩ := bind_eq_ok.mp transacted
      cases done
      refine changes_of_updateJobs update fun id job _ touched => ?_
      simp only [Job.isOverdue, Bool.and_eq_true] at touched
      exact RowChange.stopRequested _ touched.1.1
  | requestCancellation now jobId =>
      obtain ⟨updated, update, done⟩ := bind_eq_ok.mp transacted
      cases done
      refine changes_of_updateJobs update fun id job _ touched => ?_
      simp only [Bool.and_eq_true] at touched
      exact RowChange.cancellationRequested _ touched.2
  | cancel now queue states about =>
      obtain ⟨updated, cancelled, done⟩ := bind_eq_ok.mp transacted
      cases done
      exact changes_of_cancel cancelled
  | retryFailed now queue jobId =>
      obtain ⟨updated, update, done⟩ := bind_eq_ok.mp transacted
      cases done
      refine changes_of_updateJobs update fun id job _ touched => ?_
      simp only [Store.retryFailedChooses, Bool.and_eq_true,
        decide_eq_true_eq] at touched
      exact RowChange.retried _ touched.1.1.1.2
  | retryRun now runId =>
      obtain ⟨updated, retried, done⟩ := bind_eq_ok.mp transacted
      cases done
      exact changes_of_retryRun retried
  | resetQueueAfterRestore now =>
      obtain ⟨updated, restored, done⟩ := bind_eq_ok.mp transacted
      cases done
      exact changes_of_resetQueueAfterRestore restored

end Frameleaf.Queue
