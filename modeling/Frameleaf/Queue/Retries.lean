import Frameleaf.Queue.Budget

namespace Frameleaf.Queue

open Outcome Table Trace

/-!
# What is put back in the queue

What is not repeatable is never run again for the request it was claimed for:
a failure, a recovery or a restore ends it.  Its row can only serve a request
that waited for the failed job, with a budget of its own.
-/

variable {store before middle after : Store}

/-- A job serves a request, with a budget of its own. -/
structure Job.Serves
    (job : Job)
    (intent : QueueIntent) : Prop where
  data : job.data = intent.data
  safeToRetry : job.safeToRetry = intent.safeToRetry
  anew : job.retryBaseAttempt = job.attempt

/-- A job that is in the queue only for a request. -/
def InQueueFor
    (store : Store)
    (id : JobId)
    (latest : QueueIntent) : Prop :=
  ∃ job, store.job id = some job ∧
    (job.state.isQueued = true → job.Serves latest)

variable {id previousId freshId other : JobId} {latest : QueueIntent}
  {job new old : Job}

theorem InQueueFor.of_notQueued
    (found : store.job id = some job)
    (notQueued : job.state.isQueued = false) :
    InQueueFor store id latest :=
  ⟨job, found, fun queued => Bool.noConfusion (notQueued.symm.trans queued)⟩

theorem InQueueFor.update
    {condition : JobId → Job → Bool}
    {change : JobId → Job → Job}
    (forLatest : InQueueFor before id latest)
    (updated : before.updateJobs condition change = .ok after)
    (takesOut : ∀ id job, (change id job).state.isQueued = false) :
    InQueueFor after id latest := by
  obtain ⟨job, found, serves⟩ := forLatest
  refine ⟨if condition id job then change id job else job, ?_, ?_⟩
  · rw [Store.job_of_updateJobs updated, found]
    rfl
  · split
    · intro queued
      exact Bool.noConfusion ((takesOut id job).symm.trans queued)
    · exact serves

theorem InQueueFor.of_rewrites
    {row : Job}
    (rewrites : Rewrites before after id row new)
    (found : before.job other = some old)
    (notQueued : old.state.isQueued = false)
    (newServes : row.state.isQueued = false → new.state.isQueued = true →
      new.Serves latest) :
    InQueueFor after other latest := by
  by_cases sameId : other = id
  · subst sameId
    rw [rewrites.found] at found
    cases found
    exact ⟨new, rewrites.row, newServes notQueued⟩
  · exact InQueueFor.of_notQueued
      ((rewrites.others other sameId).trans found) notQueued

variable {now : Time}

theorem TakenOn.inQueueFor
    {intent : QueueIntent}
    {acceptance : Acceptance}
    (taken : TakenOn before now id intent after acceptance)
    (found : before.job other = some old)
    (notQueued : old.state.isQueued = false) :
    InQueueFor after other intent := by
  obtain ⟨new, newFound, row⟩ := taken.row found
  refine ⟨new, newFound, fun queued => ?_⟩
  cases row with
  | same | parked _ | overwritten _ _ _ =>
      exact Bool.noConfusion (notQueued.symm.trans queued)
  | rearmed _ _ =>
      exact { data := rfl, safeToRetry := rfl, anew := rfl }

theorem Job.Serves.of_withoutParent
    (serves : job.Serves (latest.withoutParent previousId)) :
    job.Serves latest := by
  unfold QueueIntent.withoutParent at serves
  split at serves
  · exact { data := serves.data, safeToRetry := serves.safeToRetry
            anew := serves.anew }
  · exact serves

theorem LatestInstalled.inQueueFor
    (installed :
      LatestInstalled before now previousId freshId latest after)
    (found : before.job id = some old)
    (notQueued : old.state.isQueued = false) :
    InQueueFor after id latest := by
  cases installed with
  | @ran updated _ _ rewrites =>
      have ran : InQueueFor updated id latest :=
        InQueueFor.of_rewrites rewrites found notQueued
          fun _ _ => { data := rfl, safeToRetry := rfl, anew := rfl }
      exact ran
  | took _ taken =>
      obtain ⟨job, jobFound, serves⟩ := taken.inQueueFor found notQueued
      exact ⟨job, jobFound, fun queued => (serves queued).of_withoutParent⟩

theorem ScheduleEffect.inQueueFor
    {stopped : List JobId}
    {succeeded : Bool}
    (scheduled :
      ScheduleEffect before now previousId freshId succeeded (some latest)
        after stopped)
    (found : before.job id = some old)
    (notQueued : old.state.isQueued = false) :
    InQueueFor after id latest := by
  cases scheduled with
  | ran _ installed =>
      exact installed.inQueueFor found notQueued
  | held _ _ installed holds =>
      exact (installed.inQueueFor found notQueued).update holds fun _ _ => rfl

variable {clock : Clock} {claim : FailedClaim} {reason : String}
  {options : FailOptions}

/-- A failure puts what is not repeatable in the queue only anew. -/
theorem inQueueFor_of_fail
    {result : Option QueueState}
    {failedJob : Job}
    (failedFound : store.job claim.id = some failedJob)
    (waits : failedJob.latestPending = some latest)
    (found : store.job id = some old)
    (notSafe : old.safeToRetry = false)
    (notQueued : old.state.isQueued = false)
    (failed :
      store.fail clock claim reason options freshId = .ok (after, result)) :
    InQueueFor after id latest := by
  cases failEffect failed with
  | refused =>
      exact InQueueFor.of_notQueued found notQueued
  | awaited _ _ awaits =>
      exact InQueueFor.of_rewrites awaits found notQueued
        fun rowOut queued => Bool.noConfusion (rowOut.symm.trans queued)
  | ended jobFound _ factsEq record follow =>
      subst factsEq
      rw [failedFound] at jobFound
      cases jobFound
      obtain ⟨recorded, recordedFound, kept⟩ :=
        keepsJobs_of_recordFailure failedFound record id old found
      have stillOut := kept.staysOut notSafe notQueued
      rw [waits] at follow
      unfold Store.followFailure at follow
      split at follow
      · cases follow
        exact InQueueFor.of_notQueued recordedFound stillOut
      obtain ⟨dropped, drop, rest⟩ := bind_eq_ok.mp follow
      obtain ⟨⟨scheduled, stopped⟩, schedule, settle⟩ := bind_eq_ok.mp rest
      have droppedRow := Store.job_of_updateJobs drop id
      rw [recordedFound, Option.map_some] at droppedRow
      have droppedOut :
          (if decide (id = claim.id) then recorded.dropLatest
            else recorded).state.isQueued = false := by
        split <;> exact stillOut
      have forLatest : InQueueFor scheduled id latest := by
        unfold Store.scheduleAfterFailure at schedule
        split at schedule
        · cases schedule
          exact InQueueFor.of_notQueued droppedRow droppedOut
        · exact (scheduleEffect schedule).inQueueFor droppedRow droppedOut
      exact forLatest.update settle fun _ _ => rfl

/-! ## The laws of retries along runs -/

theorem job_of_settleDependencies
    {parentIds : List JobId}
    (settled : store.settleDependencies now parentIds = .ok after)
    (found : store.job id = some job)
    (notQueued : job.state.isQueued = false) :
    after.job id = some job := by
  unfold Store.settleDependencies at settled
  rw [Store.job_of_updateJobs settled, found, Option.map_some, if_neg]
  intro blocked
  have reached := Saturation.reached_of_mem_saturate (of_decide_eq_true blocked)
  obtain ⟨queuedJob, queuedFound, queued⟩ := isQueued_of_reached reached
  rw [found] at queuedFound
  cases queuedFound
  exact Bool.noConfusion (notQueued.symm.trans queued)

theorem job_of_fail
    {facts : FailureFacts}
    {recorded : Store}
    (found : store.job claim.id = some job)
    (nothingWaits : job.latestPending = none)
    (record :
      store.recordFailure clock.now claim reason options job facts =
        .ok recorded)
    (follow :
      recorded.followFailure clock.now claim.id freshId options
          job.latestPending facts =
        .ok after) :
    ∃ new, after.job claim.id = some new ∧
      new.state = facts.endState options := by
  have recordedRow := job_of_recordFailure record claim.id
  rw [found, Option.map_some, if_pos rfl] at recordedRow
  unfold Store.followFailure at follow
  split at follow
  · cases follow
    exact ⟨_, recordedRow, rfl⟩
  rename_i notPending
  obtain ⟨dropped, drop, rest⟩ := bind_eq_ok.mp follow
  obtain ⟨⟨scheduled, stopped⟩, schedule, settle⟩ := bind_eq_ok.mp rest
  have droppedRow := Store.job_of_updateJobs drop claim.id
  rw [recordedRow, Option.map_some, if_pos (by simp)] at droppedRow
  have nothingScheduled : scheduled = dropped := by
    rw [nothingWaits] at schedule
    unfold Store.scheduleAfterFailure Store.scheduleLatest at schedule
    split at schedule <;> cases schedule <;> rfl
  rw [nothingScheduled] at settle
  refine ⟨_, job_of_settleDependencies settle droppedRow ?_, rfl⟩
  exact (JobState.not_live_of_endedBadly
    (FailureFacts.endedBadly_of_ne_pending notPending)).1

theorem FailureFacts.endState_of_exhausted
    (options : FailOptions)
    {facts : FailureFacts}
    (exhausted : facts.retryAvailable = false) :
    facts.endState options ≠ .pending ∧
      (facts.safeToRetry = true → facts.cancelled = false →
        facts.ownedByOperation = false → facts.endState options = .failed) := by
  unfold FailureFacts.endState FailureFacts.unconfirmedAttention
  constructor
  · repeat' split
    all_goals simp_all
  · intro safe notCancelled noOperation
    simp [safe, notCancelled, noOperation, exhausted]

/-- A job that works for a media operation. -/
def Job.ownedByOperation (job : Job) : Bool :=
  job.operationId.any (· ≠ "")

/-- Steps that return no claim to the queue on purpose, and add no request. -/
def returnsNothing : Step → Bool
  | .enqueue .. | .complete .. | .retryFailed .. | .retryRun ..
  | .defer .. => false
  | _ => true

/--
What holds of retries in every run of the queue, and in every run that goes on
from there without a new request or a retry by hand.
-/
structure RetryLaws (steps between : List Step) : Prop where
  /-- A claim is the first or second since its request was taken on. -/
  twice :
    ∀ happened ∈ history steps,
      ∀ now queue workerId maxClaims locked tokens claims,
        happened.step = .claim now queue workerId maxClaims locked tokens →
          happened.response = .claimed claims →
            ∀ claim ∈ claims, ∃ job,
              happened.after.job claim.id = some job ∧
                claim.attempt = job.attempt ∧
                  job.retryBaseAttempt < claim.attempt ∧
                    claim.attempt ≤ job.retryBaseAttempt + 2
  /-- Deferred claims apart, a job runs twice however the run goes on. -/
  budget :
    AllMeet Store.perform (fun store step => takesRequest store step = false)
        (reached steps) between →
      ∀ id job, (reached steps).job id = some job →
        executions id (trace Store.perform (reached steps) between) +
            job.attempt ≤
          job.retryBaseAttempt + 2 +
            deferrals id (trace Store.perform (reached steps) between)
  /-- What is not repeatable is put back only for a request that waited. -/
  notReplayed :
    ∀ happened ∈ history steps, returnsNothing happened.step = true →
      ∀ id old new, happened.before.job id = some old →
        happened.after.job id = some new → old.safeToRetry = false →
          old.state.isQueued = false → new.state.isQueued = true →
            ∃ clock claim reason options freshId failed latest,
              happened.step = .fail clock claim reason options freshId ∧
                happened.before.job claim.id = some failed ∧
                  failed.latestPending = some latest ∧ new.Serves latest
  /-- Restore keeps in the queue what is not repeatable only if audited. -/
  restored :
    ∀ happened ∈ history steps, ∀ now,
      happened.step = .resetQueueAfterRestore now →
        happened.response = .done →
          ∀ id old new, happened.before.job id = some old →
            happened.after.job id = some new → old.safeToRetry = false →
              new.state.isQueued = true →
                old.isBackup = true ∧ old.data.has "operationId" = false ∧
                  new.safeToRetry = true
  /-- The failure of the last attempt ends the job. -/
  exhausted :
    ∀ happened ∈ history steps, ∀ clock claim reason options freshId state job,
      happened.step = .fail clock claim reason options freshId →
        happened.response = .failed (some state) →
          happened.before.job claim.id = some job →
            job.attempt = job.retryBaseAttempt + 2 →
              state ≠ .pending ∧
                (job.safeToRetry = true → job.stopWasRequested = false →
                  job.ownedByOperation = false → state = .failed) ∧
                (job.latestPending = none → ∃ new,
                  happened.after.job claim.id = some new ∧
                    new.state.name = state)


theorem Claims.staysOut
    {workerId : WorkerId}
    {claims : List QueueClaim}
    (claimed : Claims before after now workerId claims)
    (found : before.job id = some old)
    (notQueued : old.state.isQueued = false) :
    ∃ new, after.job id = some new ∧ new.state.isQueued = false := by
  by_cases isClaimed : id ∈ claims.map QueueClaim.id
  · obtain ⟨claim, member, rfl⟩ := List.mem_map.mp isClaimed
    obtain ⟨_, claimedJob⟩ := claimed.claimed claim member
    exact ⟨_, claimedJob.row, rfl⟩
  · exact ⟨old, (claimed.others id isClaimed).trans found, notQueued⟩

/-- A step that returns nothing on purpose puts back only for a request. -/
theorem notReplayed_perform
    {step : Step}
    (returnsNone : returnsNothing step = true)
    (found : store.job id = some old)
    (newFound : (store.perform step).1.job id = some new)
    (notSafe : old.safeToRetry = false)
    (notQueued : old.state.isQueued = false)
    (queued : new.state.isQueued = true) :
    ∃ clock claim reason options freshId failed latest,
      step = .fail clock claim reason options freshId ∧
        store.job claim.id = some failed ∧
          failed.latestPending = some latest ∧ new.Serves latest := by
  have stays :
      ∀ row, (store.perform step).1.job id = some row →
        row.state.isQueued = false → False := by
    intro row rowFound rowOut
    rw [newFound] at rowFound
    cases rowFound
    exact Bool.noConfusion (rowOut.symm.trans queued)
  rcases store.perform_cases step with transacted | ⟨same, _⟩
  · cases takesNone : takesRequest store step with
    | false =>
        cases moves : step.movesCount with
        | false =>
            obtain ⟨row, rowFound, kept⟩ :=
              keepsJobs_of_transact moves takesNone transacted id old found
            exact (stays row rowFound (kept.staysOut notSafe notQueued)).elim
        | true =>
            generalize store.perform step = performed at *
            obtain ⟨after, response⟩ := performed
            cases step with
            | claim now queue workerId maxClaims locked tokens =>
                obtain ⟨⟨claimedStore, claims⟩, claimed, done⟩ :=
                  bind_eq_ok.mp transacted
                cases done
                obtain ⟨row, rowFound, rowOut⟩ :=
                  (claims_of_claim claimed).staysOut found notQueued
                exact (stays row rowFound rowOut).elim
            | defer _ _ _ =>
                cases returnsNone
            | _ =>
                cases moves
    | true =>
        generalize store.perform step = performed at *
        obtain ⟨after, response⟩ := performed
        cases step with
        | fail clock claim reason options freshId =>
            obtain ⟨⟨updated, result⟩, failed, done⟩ :=
              bind_eq_ok.mp transacted
            cases done
            obtain ⟨failedJob, failedFound, waits⟩ :=
              (Option.any_eq_true _ _).mp takesNone
            obtain ⟨latest, latestEq⟩ := Option.isSome_iff_exists.mp waits
            obtain ⟨row, rowFound, serves⟩ :=
              inQueueFor_of_fail failedFound latestEq found notSafe notQueued
                failed
            rw [newFound] at rowFound
            cases rowFound
            exact ⟨clock, claim, reason, options, freshId, failedJob, latest,
              rfl, failedFound, latestEq, serves queued⟩
        | enqueue _ _ _ | complete _ _ _ _ _ | retryFailed _ _ _
        | retryRun _ _ =>
            cases returnsNone
        | _ =>
            cases takesNone
  · exact (stays old (by rw [same, found]) notQueued).elim

theorem restored_perform
    (done : (store.perform (.resetQueueAfterRestore now)).2 = .done)
    (found : store.job id = some old)
    (newFound :
      (store.perform (.resetQueueAfterRestore now)).1.job id = some new)
    (notSafe : old.safeToRetry = false)
    (queued : new.state.isQueued = true) :
    old.isBackup = true ∧ old.data.has "operationId" = false ∧
      new.safeToRetry = true := by
  rcases store.perform_cases (.resetQueueAfterRestore now) with
    transacted | ⟨_, error, answer⟩
  · generalize store.perform (.resetQueueAfterRestore now) = performed at *
    obtain ⟨after, response⟩ := performed
    obtain ⟨restoredStore, restored, result⟩ := bind_eq_ok.mp transacted
    cases result
    obtain ⟨updated, update, result⟩ := bind_eq_ok.mp restored
    cases result
    have row := Store.job_of_updateJobs update id
    simp only [Store.job] at row found newFound
    rw [newFound, found, Option.map_some, Option.some.injEq] at row
    subst row
    split at queued
    · rename_i isRestored
      obtain ⟨_, _, repeatable, _⟩ := Job.restoredState_queued queued
      rw [if_pos isRestored]
      simp_all [Job.isRepeatable, Job.restore]
    · rename_i notRestored
      simp_all [Job.isRestored]
  · rw [answer] at done
    cases done

/-- The failure of the last attempt ends the job. -/
theorem exhausted_perform
    {state : QueueState}
    (failed :
      (store.perform (.fail clock claim reason options freshId)).2 =
        .failed (some state))
    (found : store.job claim.id = some job)
    (exhausted : job.attempt = job.retryBaseAttempt + 2) :
    state ≠ .pending ∧
      (job.safeToRetry = true → job.stopWasRequested = false →
        job.ownedByOperation = false → state = .failed) ∧
      (job.latestPending = none → ∃ new,
        (store.perform (.fail clock claim reason options freshId)).1.job
            claim.id = some new ∧
          new.state.name = state) := by
  rcases store.perform_cases (.fail clock claim reason options freshId) with
    transacted | ⟨_, error, answer⟩
  · generalize store.perform (.fail clock claim reason options freshId) =
      performed at *
    obtain ⟨after, response⟩ := performed
    obtain ⟨⟨updated, result⟩, failure, done⟩ := bind_eq_ok.mp transacted
    cases done
    obtain rfl : result = some state := by simpa using failed
    cases failEffect failure with
    | ended jobFound _ factsEq record follow =>
        subst factsEq
        rw [found] at jobFound
        cases jobFound
        have noRetry :
            (store.failureFacts options (clock.reading 0) claim.id
              job).retryAvailable = false := by
          simp [Store.failureFacts, Job.retryAvailable, exhausted]
        obtain ⟨notPending, ends⟩ :=
          FailureFacts.endState_of_exhausted options noRetry
        refine ⟨?_, ?_, ?_⟩
        · intro isPending
          cases stateEq :
              (store.failureFacts options (clock.reading 0) claim.id
                job).endState options <;>
            simp_all [JobState.name]
        · intro safe notRequested noOperation
          rw [ends safe notRequested noOperation]
          rfl
        · intro nothingWaits
          obtain ⟨new, newFound, newState⟩ :=
            job_of_fail found nothingWaits record follow
          exact ⟨new, newFound, by rw [newState]⟩
  · rw [answer] at failed
    cases failed

/-- Every claim handed out is within the budget of its job. -/
theorem twice_perform
    {queue : QueueName}
    {workerId : WorkerId}
    {maxClaims : ℕ}
    {locked : JobId → Bool}
    {tokens : JobId → Token}
    {claims : List QueueClaim}
    (within : WithinBudgets store)
    (answered :
      (store.perform (.claim now queue workerId maxClaims locked tokens)).2 =
        .claimed claims) :
    ∀ claim ∈ claims, ∃ job,
      (store.perform (.claim now queue workerId maxClaims locked tokens)).1.job
          claim.id = some job ∧
        claim.attempt = job.attempt ∧
          job.retryBaseAttempt < claim.attempt ∧
            claim.attempt ≤ job.retryBaseAttempt + 2 := by
  have withinAfter := withinBudgets_perform store
    (.claim now queue workerId maxClaims locked tokens) within
  rcases store.perform_cases
      (.claim now queue workerId maxClaims locked tokens) with
    transacted | ⟨_, error, answer⟩
  · generalize store.perform
      (.claim now queue workerId maxClaims locked tokens) = performed at *
    obtain ⟨after, response⟩ := performed
    obtain ⟨⟨claimedStore, claimsMade⟩, claimed, done⟩ :=
      bind_eq_ok.mp transacted
    cases done
    obtain rfl : claimsMade = claims := by simpa using answered
    intro claim member
    obtain ⟨job, claimedJob⟩ := (claims_of_claim claimed).claimed claim member
    have inBudget := withinAfter _ _ claimedJob.row
    have sameAttempt : claim.attempt = job.attempt + 1 := by
      rw [claimedJob.handedOut]
      rfl
    refine ⟨_, claimedJob.row, sameAttempt, ?_, ?_⟩
    · rw [sameAttempt]
      exact inBudget.active rfl
    · rw [sameAttempt]
      exact inBudget.used
  · rw [answer] at answered
    cases answered

/-- Every run of the queue keeps the laws of retries. -/
theorem retryLaws
    (steps between : List Step) :
    RetryLaws steps between where
  twice := by
    intro happened member now queue workerId maxClaims locked tokens claims
      isClaim answered claim claimMember
    obtain ⟨earlier, step, _, _, rfl⟩ := exists_split_of_mem_trace member
    obtain rfl : step = _ := isClaim
    exact twice_perform (withinBudgets_reached earlier) answered claim
      claimMember
  budget := by
    intro takesNone id job found
    obtain ⟨new, newFound, counts⟩ := counts_trace takesNone found
    have within : WithinBudgets
        (finalState Store.perform (reached steps) between) :=
      invariant_of_kept withinBudgets_perform (withinBudgets_reached steps)
    have used := (within id new newFound).used
    rw [counts.attempt, counts.base] at used
    omega
  notReplayed := by
    intro happened member returnsNone id old new found newFound
    obtain ⟨earlier, step, _, _, rfl⟩ := exists_split_of_mem_trace member
    exact notReplayed_perform returnsNone found newFound
  restored := by
    intro happened member now isRestore done id old new found newFound
    obtain ⟨earlier, step, _, _, rfl⟩ := exists_split_of_mem_trace member
    obtain rfl : step = _ := isRestore
    exact restored_perform done found newFound
  exhausted := by
    intro happened member clock claim reason options freshId state job isFail
      failed found
    obtain ⟨earlier, step, _, _, rfl⟩ := exists_split_of_mem_trace member
    obtain rfl : step = _ := isFail
    exact exhausted_perform failed found

end Frameleaf.Queue
