import Frameleaf.Queue.Dependencies

namespace Frameleaf.Queue

open Outcome Table Trace

/-!
# When no job waits in vain

Failing and cancelling settle what depends on the jobs that they end; restore
does not.  The steps are told apart by the state before them: a run whose steps
put no job in the queue under a parent that has ended badly, and end no parent
of a job that stays there without settling it, never has an orphan.
-/

variable {store before middle after cleared : Store}

/-! ## The condition on a step -/

/-- Restore puts the job back in the queue. -/
def Job.isPutBack (job : Job) : Bool :=
  !job.isDiscardedBackup && !job.stopWasRequested && job.isRepeatable &&
    job.retryAvailable

/-- The job is in the queue after a restore. -/
def Job.isQueuedAfterRestore (job : Job) : Bool :=
  if job.isRestored then job.isPutBack else job.state.isQueued

/-- The job has ended badly after a restore. -/
def Job.isEndedAfterRestore (job : Job) : Bool :=
  if job.isRestored then !job.isPutBack else job.state.endedBadly

/-- Every parent of a job meets a condition. -/
def Store.parentAll
    (store : Store)
    (condition : JobId → Job → Bool)
    (job : Job) : Bool :=
  job.parentId.all fun parentId =>
    (store.job parentId).all fun parent => condition parentId parent

/-- Neither the job nor the request that waits for it has an ended parent. -/
def Store.latestMayQueue
    (store : Store)
    (id : JobId)
    (job : Job) : Bool :=
  job.latestPending.all fun latest =>
    !store.parentEnded job.parentId &&
      !store.parentEnded (latest.withoutParent id).parentId

/-- A follow-up joins a live job, or its parent has not ended badly. -/
def Store.followupMayQueue
    (store : Store)
    (claimId : JobId)
    (intent : QueueIntent) : Bool :=
  (store.existing intent).any (fun existing => existing.1 ≠ claimId) ||
    !store.parentEnded intent.parentId

/-- A failure that owns its job leaves nothing queued under an ended parent. -/
def Store.failureMayQueue
    (store : Store)
    (options : FailOptions)
    (id : JobId)
    (job : Job)
    (facts : FailureFacts) : Bool :=
  if facts.endState options = .pending then !store.parentEnded job.parentId
  else facts.unconfirmedAttention options || store.latestMayQueue id job

/-- No job is left in the queue, or put there, under a badly ended parent. -/
def parentsAllow (store : Store) : Step → Bool
  | .enqueue _ intents _ =>
      intents.all fun request =>
        (store.existing request.2).isSome ||
          !store.parentEnded request.2.parentId
  | .complete dataDigest clock claim followups _ =>
      (store.job claim.id).all fun job =>
        !job.mayPublish claim.token (clock.reading 0) ||
          (followups.all fun followup =>
            store.followupMayQueue claim.id
              (followup.2.inherit dataDigest claim)) &&
            store.latestMayQueue claim.id job
  | .defer clock claim _ =>
      (store.job claim.id).all fun job =>
        !job.mayPublish claim.token (clock.reading 0) ||
          !store.parentEnded job.parentId
  | .fail clock claim _ options _ =>
      (store.job claim.id).all fun job =>
        !claim.owns options (clock.reading 0) job ||
          store.failureMayQueue options claim.id job
            (store.failureFacts options (clock.reading 0) claim.id job)
  | .retryFailed _ queue jobId =>
      store.jobs.rows.entries.all fun entry =>
        !store.retryFailedChooses queue jobId entry.1 entry.2 ||
          store.parentAll
            (fun parentId parent =>
              !parent.state.endedBadly ||
                store.retryFailedChooses queue jobId parentId parent)
            entry.2
  | .resetQueueAfterRestore _ =>
      store.jobs.rows.entries.all fun entry =>
        !entry.2.isQueuedAfterRestore ||
          store.parentAll (fun _ parent => !parent.isEndedAfterRestore) entry.2
  | _ => true

/-- Whether a step ends jobs and should end what depends on them. -/
def Step.endsJobs : Step → Bool
  | .fail .. | .cancel .. | .resetQueueAfterRestore .. => true
  | _ => false

/-- A step ends a queued job by itself, not for its parent. -/
def endsItself
    (store : Store)
    (step : Step)
    (id : JobId)
    (job : Job) : Bool :=
  match step with
  | .fail _ claim _ _ _ =>
      decide (id = claim.id) ||
        (store.job claim.id).any fun failed =>
          failed.latestPending.any fun latest => carriesIdentity latest job
  | .cancel _ queue states about =>
      job.queue = queue && decide (job.state.name ∈ states) && about job
  | .resetQueueAfterRestore _ => job.isRestored
  | _ => false

variable {job new old : Job}

theorem Store.parentAll_iff
    {condition : JobId → Job → Bool} :
    store.parentAll condition job = true ↔
      ∀ parentId parent, job.parentId = some parentId →
        store.job parentId = some parent →
          condition parentId parent = true := by
  simp only [Store.parentAll, Option.all_eq_true]
  constructor
  · intro holds parentId parent isParent found
    exact holds parentId isParent parent found
  · intro holds parentId isParent parent found
    exact holds parentId parent isParent found

theorem Store.all_entries_iff
    (store : Store)
    (condition : JobId → Job → Bool) :
    (store.jobs.rows.entries.all fun entry => condition entry.1 entry.2) =
        true ↔
      ∀ id job, store.job id = some job → condition id job = true := by
  rw [List.all_eq_true]
  constructor
  · intro holds id job found
    exact holds ⟨id, job⟩ (AList.mem_lookup_iff.mp found)
  · rintro holds ⟨id, job⟩ member
    exact holds id job (AList.mem_lookup_iff.mpr member)

/-! ## Restore -/

theorem Job.restoredState_cases
    (job : Job)
    (stopped : Bool) :
    (job.restoredState stopped).isQueued = job.isPutBack ∧
      (job.restoredState stopped).endedBadly = !job.isPutBack := by
  unfold Job.restoredState Job.isPutBack
  cases job.isDiscardedBackup <;> cases job.stopWasRequested <;>
    cases job.isRepeatable <;> cases job.retryAvailable <;> cases stopped <;>
    exact ⟨rfl, rfl⟩

theorem Job.restoredState_ne_blocked
    (job : Job)
    (stopped : Bool) :
    job.restoredState stopped ≠ .blocked := by
  unfold Job.restoredState
  repeat' split
  all_goals exact JobState.noConfusion

variable {now : Time}

theorem job_of_restore
    (restored : store.resetQueueAfterRestore now = .ok after)
    (id : JobId) :
    ∃ stopped : JobId → Job → Bool,
      after.job id = (store.job id).map fun job =>
        if job.isRestored then job.restore now (stopped id job) else job := by
  unfold Store.resetQueueAfterRestore at restored
  obtain ⟨updated, update, done⟩ := bind_eq_ok.mp restored
  cases done
  exact ⟨_, Store.job_of_updateJobs update id⟩

variable {id : JobId}

theorem row_of_restore
    (restored : store.resetQueueAfterRestore now = .ok after)
    (found : after.job id = some new) :
    ∃ old, store.job id = some old ∧
      new.state.isQueued = old.isQueuedAfterRestore ∧
        new.state.endedBadly = old.isEndedAfterRestore ∧
          new.parentId = old.parentId := by
  obtain ⟨stopped, row⟩ := job_of_restore restored id
  rw [found] at row
  obtain ⟨old, oldFound, newEq⟩ := Option.map_eq_some_iff.mp row.symm
  refine ⟨old, oldFound, ?_⟩
  subst newEq
  unfold Job.isQueuedAfterRestore Job.isEndedAfterRestore
  split
  · exact ⟨(old.restoredState_cases _).1, (old.restoredState_cases _).2, rfl⟩
  · exact ⟨rfl, rfl, rfl⟩

/-- A restore leaves no orphan exactly when its condition is met. -/
theorem noOrphan_restore_iff
    (restored : store.resetQueueAfterRestore now = .ok after) :
    NoOrphan after ↔
      parentsAllow store (.resetQueueAfterRestore now) = true := by
  have rowAfter :
      ∀ {id old}, store.job id = some old → ∃ new, after.job id = some new := by
    intro id old found
    obtain ⟨stopped, row⟩ := job_of_restore restored id
    rw [found, Option.map_some] at row
    exact ⟨_, row⟩
  have allowed : parentsAllow store (.resetQueueAfterRestore now) = true ↔
      ∀ id job, store.job id = some job →
        (!job.isQueuedAfterRestore ||
          store.parentAll (fun _ parent => !parent.isEndedAfterRestore) job) =
            true :=
    store.all_entries_iff fun _ job =>
      !job.isQueuedAfterRestore ||
        store.parentAll (fun _ parent => !parent.isEndedAfterRestore) job
  rw [allowed]
  constructor
  · intro none id job found
    obtain ⟨new, newFound⟩ := rowAfter found
    obtain ⟨old, oldFound, isQueued, _, sameParent⟩ :=
      row_of_restore restored newFound
    rw [found] at oldFound
    cases oldFound
    rw [Bool.or_eq_true, Bool.not_eq_true', ← isQueued]
    by_cases queued : new.state.isQueued = true
    · refine Or.inr (Store.parentAll_iff.mpr fun parentId parent isParent
        parentFound => ?_)
      obtain ⟨newParent, newParentFound⟩ := rowAfter parentFound
      obtain ⟨oldParent, oldParentFound, _, isEnded, _⟩ :=
        row_of_restore restored newParentFound
      rw [parentFound] at oldParentFound
      cases oldParentFound
      rw [Bool.not_eq_true', ← isEnded, Bool.eq_false_iff]
      intro ended
      have inNone := none id new parentId newParent newFound queued
        (sameParent.trans isParent) newParentFound ended
      cases inNone
    · exact Or.inl (by simpa using queued)
  · intro holds id new parentId newParent newFound queued isParent
      newParentFound ended
    obtain ⟨old, oldFound, isQueued, _, sameParent⟩ :=
      row_of_restore restored newFound
    obtain ⟨oldParent, oldParentFound, _, isEnded, _⟩ :=
      row_of_restore restored newParentFound
    have met := holds id old oldFound
    rw [Bool.or_eq_true, Bool.not_eq_true', ← isQueued, queued] at met
    have parentMet :=
      Store.parentAll_iff.mp (met.resolve_left Bool.noConfusion) parentId
        oldParent (sameParent.symm.trans isParent) oldParentFound
    rw [Bool.not_eq_true', ← isEnded, ended] at parentMet
    cases parentMet

/-! ## Retries by hand -/

theorem noOrphan_of_retryFailed
    {queue : QueueName}
    {jobId : Option JobId}
    (none : NoOrphan store)
    (allow : parentsAllow store (.retryFailed now queue jobId) = true)
    (retried : store.retryFailed now queue jobId = .ok after) :
    NoOrphan after := by
  have allowed := (store.all_entries_iff fun id job =>
    !store.retryFailedChooses queue jobId id job ||
      store.parentAll
        (fun parentId parent =>
          !parent.state.endedBadly ||
            store.retryFailedChooses queue jobId parentId parent)
        job).mp allow
  have rows := Store.job_of_updateJobs retried
  intro id new parentId newParent found queued isParent parentFound ended
  rw [rows] at found parentFound
  obtain ⟨job, jobFound, rfl⟩ := Option.map_eq_some_iff.mp found
  obtain ⟨parent, oldParentFound, rfl⟩ := Option.map_eq_some_iff.mp parentFound
  have parentNotChosen :
      store.retryFailedChooses queue jobId parentId parent = false := by
    by_contra chosen
    rw [Bool.not_eq_false] at chosen
    rw [if_pos chosen] at ended
    cases ended
  rw [if_neg (by simp [parentNotChosen])] at ended
  by_cases chosen : store.retryFailedChooses queue jobId id job = true
  · rw [if_pos chosen] at isParent
    have met := allowed id job jobFound
    rw [chosen, Bool.not_true, Bool.false_or, Store.parentAll_iff] at met
    have parentMet := met parentId parent isParent oldParentFound
    rw [ended, parentNotChosen] at parentMet
    cases parentMet
  · rw [if_neg chosen] at isParent queued
    exact none id job parentId parent jobFound queued isParent oldParentFound
      ended

theorem parent_of_recoverable
    {runId : RunId}
    {parentId : JobId}
    {parent : Job}
    (found : store.job id = some job)
    (isParent : job.parentId = some parentId)
    (parentFound : store.job parentId = some parent)
    (recovered : id ∈ store.recoverable runId) :
    parentId ∈ store.recoverable runId ∨ parent.state.endedBadly = false := by
  have reached := Saturation.reached_of_mem_saturate recovered
  cases reached with
  | seed isSeed =>
      have seeded := (List.mem_filter.mp isSeed).2
      rw [found] at seeded
      simp only [Option.any_some, isParent, parentFound, Option.isNone_some,
        Bool.and_false, Bool.false_or, Bool.or_eq_true,
        decide_eq_true_eq] at seeded
      right
      rcases seeded with live | completed
      · cases stateEq : parent.state <;>
          simp_all [JobState.isLive, JobState.isQueued, JobState.isActive,
            JobState.endedBadly]
      · rw [completed]
        rfl
  | next sourceReached _ isChild =>
      obtain ⟨child, childFound, childParent⟩ := isChild_iff.mp isChild
      rw [found] at childFound
      cases childFound
      rw [isParent] at childParent
      cases childParent
      exact Or.inl ((Saturation.mem_saturate_iff (le_refl _)).mpr sourceReached)

theorem noOrphan_of_retryRun
    {runId : RunId}
    (none : NoOrphan store)
    (retried : store.retryRun now runId = .ok after) :
    NoOrphan after := by
  have rows := Store.job_of_updateJobs retried
  intro id new parentId newParent found queued isParent parentFound ended
  rw [rows] at found parentFound
  obtain ⟨job, jobFound, rfl⟩ := Option.map_eq_some_iff.mp found
  obtain ⟨parent, oldParentFound, rfl⟩ := Option.map_eq_some_iff.mp parentFound
  have parentNot : parentId ∉ store.recoverable runId := by
    intro recovered
    rw [if_pos (decide_eq_true recovered)] at ended
    cases ended
  rw [if_neg (by simpa using parentNot)] at ended
  by_cases recovered : id ∈ store.recoverable runId
  · rw [if_pos (decide_eq_true recovered)] at isParent
    rcases parent_of_recoverable jobFound isParent oldParentFound recovered with
      parentRecovered | notEnded
    · exact (parentNot parentRecovered).elim
    · exact Bool.noConfusion (notEnded.symm.trans ended)
  · rw [if_neg (by simpa using recovered)] at isParent queued
    exact none id job parentId parent jobFound queued isParent oldParentFound
      ended

/-! ## Cancelling -/

/-- What cancelling does: it clears jobs, and then settles under them. -/
structure Cancelled
    (before cleared after : Store)
    (now : Time)
    (matching : JobId → Job → Bool)
    (blocked : List JobId) : Prop where
  rows : ∀ id, cleared.job id =
    (before.job id).map fun job =>
      if matching id job then job.clear now else job
  settled :
    Settled cleared after now (select matching before.jobs.rows) blocked

/-- The jobs that a cancellation is about. -/
def cancels
    (queue : QueueName)
    (states : List QueueState)
    (about : Job → Bool)
    (job : Job) : Bool :=
  job.queue = queue && decide (job.state.name ∈ states) &&
    !job.state.isActive && about job

theorem cancelled_of_cancel
    {queue : QueueName}
    {states : List QueueState}
    {about : Job → Bool}
    (cancelled : store.cancel now queue states about = .ok after) :
    ∃ cleared blocked,
      Cancelled store cleared after now
        (fun _ => cancels queue states about) blocked := by
  obtain ⟨cleared, update, settle⟩ := bind_eq_ok.mp cancelled
  obtain ⟨blocked, settled⟩ := settled_of_settleDependencies settle
  exact ⟨cleared, blocked,
    { rows := Store.job_of_updateJobs update, settled := settled }⟩

theorem Cancelled.row
    {matching : JobId → Job → Bool}
    {blocked : List JobId}
    (cancelled : Cancelled before cleared after now matching blocked)
    (found : cleared.job id = some new) :
    ∃ old, before.job id = some old ∧
      (matching id old = true ∧ new = old.clear now ∨
        matching id old = false ∧ new = old) := by
  rw [cancelled.rows] at found
  obtain ⟨old, oldFound, rfl⟩ := Option.map_eq_some_iff.mp found
  refine ⟨old, oldFound, ?_⟩
  by_cases isMatch : matching id old = true
  · exact Or.inl ⟨isMatch, if_pos isMatch⟩
  · exact Or.inr ⟨by simpa using isMatch, if_neg isMatch⟩

theorem Cancelled.noOrphan
    {matching : JobId → Job → Bool}
    {blocked : List JobId}
    (cancelled : Cancelled before cleared after now matching blocked)
    (none : NoOrphan before) :
    NoOrphan after := by
  refine cancelled.settled.noOrphan ?_
  intro id job parentId parent found queued isParent parentFound ended
  obtain ⟨oldParent, oldParentFound, ⟨isMatch, _⟩ | ⟨_, sameParent⟩⟩ :=
    cancelled.row parentFound
  · exact mem_select.mpr ⟨oldParent, oldParentFound, isMatch⟩
  · subst sameParent
    obtain ⟨old, oldFound, ⟨_, isCleared⟩ | ⟨_, same⟩⟩ := cancelled.row found
    · subst isCleared
      cases queued
    · subst same
      have inNone := none id job parentId parent oldFound queued isParent
        oldParentFound ended
      cases inNone

/-! ## Completing and deferring -/

theorem latestMayQueue_iff
    {latest : QueueIntent}
    (waits : job.latestPending = some latest) :
    store.latestMayQueue id job = true ↔
      store.parentEnded job.parentId = false ∧
        store.parentEnded (latest.withoutParent id).parentId = false := by
  simp [Store.latestMayQueue, waits]

theorem TakenOn.sameParent
    {other : JobId}
    {intent : QueueIntent}
    {acceptance : Acceptance}
    (taken : TakenOn before now id intent after acceptance)
    (found : before.job other = some old)
    (notEnded : old.state.endedBadly = false) :
    ∃ new, after.job other = some new ∧ new.parentId = old.parentId ∧
      new.state.endedBadly = false := by
  obtain ⟨new, newFound, row⟩ := taken.row found
  refine ⟨new, newFound, ?_⟩
  cases row with
  | same | parked _ | overwritten _ _ _ =>
      exact ⟨rfl, notEnded⟩
  | rearmed _ finished =>
      refine ⟨?_, rfl⟩
      rcases (rearmable_iff.mp finished).2.2.2.2.2.2 with
        cancelled | ⟨_, sameParent⟩
      · rw [cancelled] at notEnded
        cases notEnded
      · exact sameParent.symm

theorem sameParent_of_insertIntents
    {intents : List (JobId × QueueIntent)}
    {acceptances : List Acceptance}
    (taken : Store.insertIntents now store intents = .ok (after, acceptances))
    (found : store.job id = some old)
    (notEnded : old.state.endedBadly = false) :
    ∃ new, after.job id = some new ∧ new.parentId = old.parentId ∧
      new.state.endedBadly = false := by
  induction intents generalizing store acceptances old with
  | nil =>
      cases taken
      exact ⟨old, found, rfl, notEnded⟩
  | cons request rest inductionHypothesis =>
      obtain ⟨⟨middle, acceptance⟩, first, remaining⟩ := bind_eq_ok.mp taken
      obtain ⟨⟨last, others⟩, tail, result⟩ := bind_eq_ok.mp remaining
      cases result
      obtain ⟨row, rowFound, rowParent, rowNot⟩ :=
        (takenOn_of_insertIntent first).sameParent found notEnded
      obtain ⟨new, newFound, newParent, newNot⟩ :=
        inductionHypothesis tail rowFound rowNot
      exact ⟨new, newFound, newParent.trans rowParent, newNot⟩

theorem LatestInstalled.addsNoOrphans
    {previousId freshId : JobId}
    {latest : QueueIntent}
    {parents : List JobId}
    (installed :
      LatestInstalled before now previousId freshId latest after)
    (ownMayQueue : ∀ previous, before.job previousId = some previous →
      MayQueue before parents previous.parentId)
    (latestMayQueue :
      MayQueue before parents (latest.withoutParent previousId).parentId) :
    AddsNoOrphans parents before after := by
  cases installed with
  | @ran updated previous _ rewrites =>
      have ran : AddsNoOrphans parents before updated :=
        addsNoOrphans_of_rewrites rewrites (fun ended => by cases ended)
          fun _ => Or.inr (ownMayQueue previous rewrites.found)
      exact { endsNone := ran.endsNone, queues := ran.queues }
  | took _ taken =>
      have took := taken.addsNoOrphans fun _ => latestMayQueue
      exact { endsNone := took.endsNone, queues := took.queues }

/-- Completing a claim leaves no orphan when the parents allow it. -/
theorem noOrphan_of_complete
    {dataDigest : Data → String}
    {clock : Clock}
    {claim : QueueClaim}
    {followups : List (JobId × QueueIntent)}
    {latestId : JobId}
    {result : Option (List Acceptance)}
    (none : NoOrphan store)
    (allow :
      parentsAllow store
          (.complete dataDigest clock claim followups latestId) = true)
    (completed :
      store.complete dataDigest clock claim followups latestId =
        .ok (after, result)) :
    NoOrphan after := by
  cases completeEffect completed with
  | refused =>
      exact none
  | @accepted ended followed _ job acceptances stopped begins _ ends follow
      schedule =>
      simp only [parentsAllow, ends.found, Option.all_some, begins,
        Bool.not_true, Bool.false_or, Bool.and_eq_true] at allow
      obtain ⟨followupsMay, latestMay⟩ := allow
      have completes : AddsNoOrphans [] store ended :=
        addsNoOrphans_of_rewrites ends (fun bad => by cases bad)
          fun queued => by cases queued
      -- A follow-up that found another live job than this one still finds it.
      have followupsQueue :
          ∀ request ∈ followups.map (fun followup =>
              (followup.1, followup.2.inherit dataDigest claim)),
            ended.existing request.2 = Option.none →
              ended.parentEnded request.2.parentId = false := by
        intro request member absent
        obtain ⟨followup, followupMember, rfl⟩ := List.mem_map.mp member
        have may := List.all_eq_true.mp followupsMay followup followupMember
        rw [Store.followupMayQueue, Bool.or_eq_true,
          Bool.not_eq_true'] at may
        rcases may with joins | notEnded
        · obtain ⟨⟨otherId, other⟩, existing, apart⟩ :=
            (Option.any_eq_true _ _).mp joins
          obtain ⟨otherFound, has, hasIdentity⟩ :=
            Store.existing_eq_some existing
          have stillThere :=
            (ends.others otherId (by simpa using apart)).trans otherFound
          exact ((Store.existing_eq_none_iff.mp absent) hasIdentity otherId
            other stillThere has).elim
        · exact completes.parentEnded notEnded
      have follows :
          (OrphansUnder [] (ended.settleCompletion clock.now claim.token) →
            OrphansUnder [] followed) ∧ _ :=
        orphansUnder_of_enqueue followupsQueue follow
      have followedNone : NoOrphan followed :=
        follows.1 (completes.orphansUnder none)
      generalize waits : job.latestPending = latest at schedule
      cases scheduleEffect schedule with
      | nothing =>
          exact followedNone
      | @ran latest _ _ installed =>
          obtain ⟨ownNot, latestNot⟩ := (latestMayQueue_iff waits).mp latestMay
          have stillNot :
              ∀ parentId, store.parentEnded parentId = false →
                followed.parentEnded parentId = false :=
            fun parentId notEnded =>
              follows.2 parentId (completes.parentEnded notEnded)
          obtain ⟨row, rowFound, rowParent, _⟩ :=
            sameParent_of_insertIntents follow ends.row rfl
          refine (installed.addsNoOrphans (fun previous found => ?_)
            (MayQueue.of_not_parentEnded
              (stillNot _ latestNot))).orphansUnder followedNone
          rw [rowFound] at found
          cases found
          rw [rowParent]
          exact MayQueue.of_not_parentEnded (stillNot _ ownNot)
      | held failed _ _ _ =>
          cases failed

theorem noOrphan_of_defer
    {clock : Clock}
    {claim : QueueClaim}
    {reason : JobDependencyReason}
    {result : Bool}
    (none : NoOrphan store)
    (allow : parentsAllow store (.defer clock claim reason) = true)
    (deferred : store.defer clock claim reason = .ok (after, result)) :
    NoOrphan after := by
  cases deferEffect deferred with
  | refused =>
      exact none
  | @accepted middle job mayPublish defers =>
      simp only [parentsAllow, defers.found, Option.all_some, mayPublish,
        Bool.not_true, Bool.false_or, Bool.not_eq_true'] at allow
      have adds : AddsNoOrphans [] store middle :=
        addsNoOrphans_of_rewrites defers (fun bad => by cases bad)
          fun _ => Or.inr (MayQueue.of_not_parentEnded allow)
      exact adds.orphansUnder none

end Frameleaf.Queue
