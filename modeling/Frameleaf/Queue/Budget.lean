import Frameleaf.Queue.Claims

namespace Frameleaf.Queue

open Outcome Table Trace

/-!
# The retry budget

A job may be claimed twice, counted from the attempt at which its request was
taken on, and a deferral refunds its claim.  What is not repeatable leaves a
claim only to end, or to be deferred.
-/

variable {store before middle after : Store}

/-! ## Two claims for each request -/

/-- A job's attempts are within its budget. -/
structure Job.WithinBudget (job : Job) : Prop where
  counted : job.retryBaseAttempt ≤ job.attempt
  used : job.attempt ≤ job.retryBaseAttempt + 2
  queued : job.state.isQueued = true → job.attempt < job.retryBaseAttempt + 2
  active : job.state.isActive = true → job.retryBaseAttempt < job.attempt

variable {job old : Job}

theorem Job.WithinBudget.of_anew
    (anew : job.retryBaseAttempt = job.attempt)
    (notActive : job.state.isActive = false) :
    job.WithinBudget where
  counted := by omega
  used := by omega
  queued := by
    intro _
    omega
  active := by
    intro active
    rw [notActive] at active
    cases active

theorem Job.WithinBudget.of_sameCount
    (within : old.WithinBudget)
    (sameAttempt : job.attempt = old.attempt)
    (sameBase : job.retryBaseAttempt = old.retryBaseAttempt)
    (queued : job.state.isQueued = true → old.retryAvailable = true)
    (active : job.state.isActive = true → old.state.isActive = true) :
    job.WithinBudget where
  counted := by
    rw [sameAttempt, sameBase]
    exact within.counted
  used := by
    rw [sameAttempt, sameBase]
    exact within.used
  queued := by
    intro isQueued
    rw [sameAttempt, sameBase]
    exact of_decide_eq_true (queued isQueued)
  active := by
    intro isActive
    rw [sameAttempt, sameBase]
    exact within.active (active isActive)

theorem Job.WithinBudget.retryAvailable
    (within : job.WithinBudget)
    (queued : job.state.isQueued = true) :
    job.retryAvailable = true :=
  decide_eq_true (within.queued queued)

theorem Job.restoredState_queued
    {stopped : Bool}
    (queued : (job.restoredState stopped).isQueued = true) :
    job.isDiscardedBackup = false ∧ job.stopWasRequested = false ∧
      job.isRepeatable = true ∧ job.retryAvailable = true := by
  unfold Job.restoredState at queued
  repeat' split at queued
  all_goals simp_all [JobState.isQueued]

theorem Job.restoredState_isActive
    (job : Job)
    (stopped : Bool) :
    (job.restoredState stopped).isActive = false := by
  unfold Job.restoredState
  repeat' split
  all_goals rfl

/-- Every listed change of a job keeps it within its budget. -/
theorem RowChange.withinBudget
    {row : Option Job}
    (change : RowChange row job)
    (within : ∀ old, row = some old → old.WithinBudget) :
    job.WithinBudget := by
  cases change with
  | inserted _ _ _ | latestRun _ _ _ | rearmed _ _ _ | retried _ _
  | retriedInRun _ _ =>
      exact Job.WithinBudget.of_anew rfl rfl
  | parked _ _ | overwritten _ _ _ | madeAvailable _ _ | renewed _ _
  | advanced _ _ _ | annotated _ _ _ | joinedRun _ _ _ | stopRequested _ _
  | stopAwaited _ _ | cancellationRequested _ _ | latestDropped _ =>
      have old := within _ rfl
      exact old.of_sameCount rfl rfl old.retryAvailable id
  | completed _ _ | heldForAttention _ _ | blocked _ _ | cleared _ _ =>
      exact (within _ rfl).of_sameCount rfl rfl
        (fun queued => by cases queued) (fun active => by cases active)
  | retriedAfterFailure now reason active safe budget =>
      exact (within _ rfl).of_sameCount rfl rfl (fun _ => budget)
        (fun active => by cases active)
  | endedBadly state now reason live ended =>
      obtain ⟨notQueued, notActive⟩ := JobState.not_live_of_endedBadly ended
      refine (within _ rfl).of_sameCount rfl rfl
        (fun queued => ?_) (fun active => ?_)
      · exact Bool.noConfusion (notQueued.symm.trans queued)
      · exact Bool.noConfusion (notActive.symm.trans active)
  | @restored job now stopped isRestored =>
      refine (within _ rfl).of_sameCount rfl rfl
        (fun queued => (Job.restoredState_queued queued).2.2.2)
        (fun active => ?_)
      exact Bool.noConfusion
        ((job.restoredState_isActive stopped).symm.trans active)
  | @deferred job reason availableAt active =>
      -- The claim is refunded: the base moves up by the attempt it made.
      have old := within job rfl
      have counts := old.active active
      have used := old.used
      exact
        { counted := by
            change job.retryBaseAttempt + 1 ≤ job.attempt
            omega
          used := by
            change job.attempt ≤ job.retryBaseAttempt + 1 + 2
            omega
          queued := by
            intro _
            change job.attempt < job.retryBaseAttempt + 1 + 2
            omega
          active := by
            intro isActive
            cases isActive }

theorem Job.WithinBudget.claim
    (within : job.WithinBudget)
    (queued : job.state.isQueued = true)
    (token : Token)
    (workerId : WorkerId)
    (now : Time) :
    (job.claim token workerId now).WithinBudget where
  counted := by
    change job.retryBaseAttempt ≤ job.attempt + 1
    have := within.counted
    omega
  used := by
    change job.attempt + 1 ≤ job.retryBaseAttempt + 2
    have := within.queued queued
    omega
  queued := by
    intro isQueued
    cases isQueued
  active := by
    intro _
    change job.retryBaseAttempt < job.attempt + 1
    have := within.counted
    omega

/-- Every job is within its budget. -/
def WithinBudgets (store : Store) : Prop :=
  ∀ id job, store.job id = some job → job.WithinBudget

theorem Changes.withinBudgets
    (changes : Changes before after)
    (within : WithinBudgets before) :
    WithinBudgets after := by
  induction changes with
  | refl =>
      exact within
  | tail _ statement inductionHypothesis =>
      intro id job found
      rcases statement.rows id with same | ⟨changed, changedFound, change⟩
      · exact inductionHypothesis id job (same.symm.trans found)
      · rw [changedFound] at found
        cases found
        exact change.withinBudget fun old oldFound =>
          inductionHypothesis id old oldFound

variable {now : Time}

theorem Claims.withinBudgets
    {workerId : WorkerId}
    {claims : List QueueClaim}
    (claimed : Claims before after now workerId claims)
    (within : WithinBudgets before) :
    WithinBudgets after := by
  intro id job found
  by_cases isClaimed : id ∈ claims.map QueueClaim.id
  · obtain ⟨claim, member, rfl⟩ := List.mem_map.mp isClaimed
    obtain ⟨old, claimedJob⟩ := claimed.claimed claim member
    rw [claimedJob.row] at found
    cases found
    exact (within _ old claimedJob.found).claim claimedJob.queued _ _ _
  · exact within id job ((claimed.others id isClaimed).symm.trans found)

theorem withinBudgets_perform
    (store : Store)
    (step : Step)
    (within : WithinBudgets store) :
    WithinBudgets (store.perform step).1 := by
  rcases store.perform_effect step with changes | ⟨_, _, _, claimed, _⟩
  · exact changes.withinBudgets within
  · exact claimed.withinBudgets within

theorem withinBudgets_reached
    (steps : List Step) :
    WithinBudgets (reached steps) := by
  refine invariant_of_kept withinBudgets_perform fun id job found => ?_
  cases found

/-! ## Steps that put no request in the queue -/

/-- A job keeps its counts, and stays out of the queue unless repeatable. -/
structure Job.Keeps (old new : Job) : Prop where
  sameAttempt : new.attempt = old.attempt
  sameBase : new.retryBaseAttempt = old.retryBaseAttempt
  staysOut : old.safeToRetry = false → old.state.isQueued = false →
    new.state.isQueued = false

/-- Every job keeps its counts, and stays out unless repeatable. -/
def KeepsJobs (before after : Store) : Prop :=
  ∀ id old, before.job id = some old →
    ∃ new, after.job id = some new ∧ old.Keeps new

theorem KeepsJobs.of_same
    (same : ∀ id, after.job id = before.job id) :
    KeepsJobs before after :=
  fun id old found =>
    ⟨old, (same id).trans found, ⟨rfl, rfl, fun _ notQueued => notQueued⟩⟩

theorem KeepsJobs.update
    {condition : JobId → Job → Bool}
    {change : JobId → Job → Job}
    (keeps : KeepsJobs before middle)
    (updated : middle.updateJobs condition change = .ok after)
    (changes : ∀ id job, condition id job = true →
      (change id job).attempt = job.attempt ∧
        (change id job).retryBaseAttempt = job.retryBaseAttempt ∧
          (job.state.isQueued = false →
            (change id job).state.isQueued = false)) :
    KeepsJobs before after := by
  intro id old found
  obtain ⟨job, jobFound, kept⟩ := keeps id old found
  refine ⟨if condition id job then change id job else job, ?_, ?_⟩
  · rw [Store.job_of_updateJobs updated, jobFound]
    rfl
  · split
    · rename_i touched
      obtain ⟨sameAttempt, sameBase, staysOut⟩ := changes id job touched
      exact
        { sameAttempt := sameAttempt.trans kept.sameAttempt
          sameBase := sameBase.trans kept.sameBase
          staysOut := fun notSafe notQueued =>
            staysOut (kept.staysOut notSafe notQueued) }
    · exact kept

theorem keepsJobs_of_update
    {condition : JobId → Job → Bool}
    {change : JobId → Job → Job}
    (updated : store.updateJobs condition change = .ok after)
    (changes : ∀ id job, condition id job = true →
      (change id job).attempt = job.attempt ∧
        (change id job).retryBaseAttempt = job.retryBaseAttempt ∧
          (job.state.isQueued = false →
            (change id job).state.isQueued = false)) :
    KeepsJobs store after :=
  KeepsJobs.update (KeepsJobs.of_same fun _ => rfl) updated changes

theorem KeepsJobs.settleDependencies
    {parentIds : List JobId}
    (keeps : KeepsJobs before middle)
    (settled : middle.settleDependencies now parentIds = .ok after) :
    KeepsJobs before after :=
  keeps.update settled fun _ _ _ => ⟨rfl, rfl, fun _ => rfl⟩

variable {id : JobId}

theorem keepsJobs_of_rewrites
    {new : Job}
    (rewrites : Rewrites store after id old new)
    (kept : old.Keeps new) :
    KeepsJobs store after := by
  intro other job found
  by_cases sameId : other = id
  · subst sameId
    rw [rewrites.found] at found
    cases found
    exact ⟨new, rewrites.row, kept⟩
  · exact ⟨job, (rewrites.others other sameId).trans found,
      ⟨rfl, rfl, fun _ notQueued => notQueued⟩⟩

/-- Whether a step puts a request, or a failed job by hand, in the queue. -/
def takesRequest (store : Store) : Step → Bool
  | .enqueue .. | .retryFailed .. | .retryRun .. => true
  | .complete _ _ claim followups _ =>
      !followups.isEmpty ||
        (store.job claim.id).any fun job => job.latestPending.isSome
  | .fail _ claim _ _ _ =>
      (store.job claim.id).any fun job => job.latestPending.isSome
  | _ => false

theorem keepsJobs_of_recordFailure
    {time : Time}
    {claim : FailedClaim}
    {reason : String}
    {options : FailOptions}
    (found : store.job claim.id = some job)
    (recorded :
      store.recordFailure now claim reason options job
          (store.failureFacts options time claim.id job) =
        .ok after) :
    KeepsJobs store after := by
  intro id old oldFound
  have row := job_of_recordFailure recorded id
  rw [oldFound, Option.map_some] at row
  refine ⟨_, row, ?_⟩
  split
  · rename_i isClaim
    subst isClaim
    rw [found] at oldFound
    cases oldFound
    refine { sameAttempt := rfl, sameBase := rfl, staysOut := ?_ }
    intro notSafe _
    have notPending :
        (store.failureFacts options time claim.id job).endState options ≠
          .pending := by
      intro pending
      have safe := (FailureFacts.endState_eq_pending_iff.mp pending).2.2.1
      exact Bool.noConfusion (notSafe.symm.trans safe)
    exact (JobState.not_live_of_endedBadly
      (FailureFacts.endedBadly_of_ne_pending notPending)).1
  · exact ⟨rfl, rfl, fun _ notQueued => notQueued⟩

variable {clock : Clock}

theorem keepsJobs_of_fail
    {claim : FailedClaim}
    {reason : String}
    {options : FailOptions}
    {freshId : JobId}
    {result : Option QueueState}
    (nothingWaits : ∀ job, store.job claim.id = some job →
      job.latestPending = none)
    (failed :
      store.fail clock claim reason options freshId = .ok (after, result)) :
    KeepsJobs store after := by
  cases failEffect failed with
  | refused =>
      exact KeepsJobs.of_same fun _ => rfl
  | awaited _ _ awaits =>
      exact keepsJobs_of_rewrites awaits
        ⟨rfl, rfl, fun _ notQueued => notQueued⟩
  | ended found _ factsEq record follow =>
      subst factsEq
      have records := keepsJobs_of_recordFailure found record
      rw [nothingWaits _ found] at follow
      unfold Store.followFailure at follow
      split at follow
      · cases follow
        exact records
      obtain ⟨dropped, drop, rest⟩ := bind_eq_ok.mp follow
      obtain ⟨⟨scheduled, stopped⟩, schedule, settle⟩ := bind_eq_ok.mp rest
      have drops := records.update drop fun _ _ _ => ⟨rfl, rfl, id⟩
      have nothingScheduled : scheduled = dropped := by
        unfold Store.scheduleAfterFailure Store.scheduleLatest at schedule
        split at schedule <;> cases schedule <;> rfl
      rw [nothingScheduled] at settle
      exact drops.settleDependencies settle

theorem keepsJobs_of_complete
    {dataDigest : Data → String}
    {claim : QueueClaim}
    {latestId : JobId}
    {result : Option (List Acceptance)}
    (nothingWaits : ∀ job, store.job claim.id = some job →
      job.latestPending = none)
    (completed :
      store.complete dataDigest clock claim [] latestId =
        .ok (after, result)) :
    KeepsJobs store after := by
  cases completeEffect completed with
  | refused =>
      exact KeepsJobs.of_same fun _ => rfl
  | accepted _ _ ends follow schedule =>
      rw [nothingWaits _ ends.found] at schedule
      cases schedule
      cases follow
      have completes : KeepsJobs store _ :=
        keepsJobs_of_rewrites ends ⟨rfl, rfl, fun _ _ => rfl⟩
      exact fun id old found => completes id old found

theorem keepsJobs_of_cancel
    {queue : QueueName}
    {states : List QueueState}
    {about : Job → Bool}
    (cancelled : store.cancel now queue states about = .ok after) :
    KeepsJobs store after := by
  obtain ⟨cleared, update, settle⟩ := bind_eq_ok.mp cancelled
  have clears := keepsJobs_of_update update fun _ _ _ => ⟨rfl, rfl, fun _ => rfl⟩
  exact clears.settleDependencies settle

theorem keepsJobs_of_restore
    (restored : store.resetQueueAfterRestore now = .ok after) :
    KeepsJobs store after := by
  unfold Store.resetQueueAfterRestore at restored
  obtain ⟨updated, update, done⟩ := bind_eq_ok.mp restored
  cases done
  intro id old found
  have row := Store.job_of_updateJobs update id
  simp only [Store.job] at row found ⊢
  rw [found, Option.map_some] at row
  refine ⟨_, row, ?_⟩
  split
  · refine { sameAttempt := rfl, sameBase := rfl, staysOut := ?_ }
    rename_i isRestored
    intro notSafe notQueued
    rw [Bool.eq_false_iff]
    intro queued
    obtain ⟨notDiscarded, _, repeatable, _⟩ := Job.restoredState_queued queued
    -- An active backup, the only such job, is discarded.
    simp_all [Job.isRestored, Job.isDiscardedBackup, Job.isRepeatable]
  · exact ⟨rfl, rfl, fun _ notQueued => notQueued⟩

/-- Whether a step hands claims out, or takes one back to refund it. -/
def Step.movesCount : Step → Bool
  | .claim .. | .defer .. => true
  | _ => false

variable {step : Step}

/-- Steps that put no request in the queue keep every job. -/
theorem keepsJobs_of_transact
    {response : Response}
    (keepsCount : step.movesCount = false)
    (takesNone : takesRequest store step = false)
    (transacted : store.transact step = .ok (after, response)) :
    KeepsJobs store after := by
  cases step with
  | startWorker id now | createRun id holds =>
      simp only [Store.transact] at transacted
      split at transacted
      · cases transacted
      · cases transacted
        exact KeepsJobs.of_same fun _ => rfl
  | setRunHolds id holds | configure queue config | setOperation id operation
  | proveAttemptStopped token id | proveWorkerStopped id | loseWorkers now =>
      cases transacted
      exact KeepsJobs.of_same fun _ => rfl
  | enqueue _ _ _ | retryFailed _ _ _ | retryRun _ _ =>
      cases takesNone
  | claim _ _ _ _ _ _ | defer _ _ _ =>
      cases keepsCount
  | startNow queue jobId =>
      obtain ⟨⟨updated, _⟩, started, done⟩ := bind_eq_ok.mp transacted
      cases done
      obtain ⟨changed, update, result⟩ := bind_eq_ok.mp started
      cases result
      exact keepsJobs_of_update update fun _ _ _ => ⟨rfl, rfl, id⟩
  | heartbeat clock workerId claims locked =>
      obtain ⟨updated, update, done⟩ := bind_eq_ok.mp transacted
      cases done
      simp only [Store.heartbeat] at update
      refine KeepsJobs.update ?_ update fun _ _ _ => ⟨rfl, rfl, id⟩
      exact KeepsJobs.of_same fun _ => rfl
  | reconcileHolds _ _ _ | progress _ _ _ _ | annotate _ _ _ _ _
  | wakeDeferred _ _ _ | deadlines _ _ _ | requestCancellation _ _ =>
      obtain ⟨updated, update, done⟩ := bind_eq_ok.mp transacted
      cases done
      exact keepsJobs_of_update update fun _ _ _ => ⟨rfl, rfl, id⟩
  | joinRun clock jobId token runId itemKey =>
      obtain ⟨updated, joined, done⟩ := bind_eq_ok.mp transacted
      cases done
      obtain ⟨_, _, update⟩ := bind_eq_ok.mp joined
      exact keepsJobs_of_update update fun _ _ _ => ⟨rfl, rfl, id⟩
  | complete dataDigest clock claim followups latestId =>
      obtain ⟨⟨updated, _⟩, completed, done⟩ := bind_eq_ok.mp transacted
      cases done
      simp only [takesRequest, Bool.or_eq_false_iff] at takesNone
      obtain ⟨noFollowups, nothingWaits⟩ := takesNone
      obtain rfl : followups = [] := by simpa using noFollowups
      exact keepsJobs_of_complete
        (fun job found => by simpa [found] using nothingWaits) completed
  | fail clock claim reason options freshId =>
      obtain ⟨⟨updated, _⟩, failed, done⟩ := bind_eq_ok.mp transacted
      cases done
      exact keepsJobs_of_fail
        (fun job found => by simpa [takesRequest, found] using takesNone) failed
  | cancel now queue states about =>
      obtain ⟨updated, cancelled, done⟩ := bind_eq_ok.mp transacted
      cases done
      exact keepsJobs_of_cancel cancelled
  | resetQueueAfterRestore now =>
      obtain ⟨updated, restored, done⟩ := bind_eq_ok.mp transacted
      cases done
      exact keepsJobs_of_restore restored

/-! ## Counting executions -/

/-- How often something that happened hands out a claim of a job. -/
def executionsOf
    (id : JobId)
    (happened : Entry Store Step Response) : ℕ :=
  match happened.step, happened.response with
  | .claim .., .claimed claims => (claims.map QueueClaim.id).count id
  | _, _ => 0

/-- How often something that happened refunds a claim of a job. -/
def deferralsOf
    (id : JobId)
    (happened : Entry Store Step Response) : ℕ :=
  match happened.step, happened.response with
  | .defer _ claim _, .accepted true => if claim.id = id then 1 else 0
  | _, _ => 0

theorem executionsOf_of_keepsCount
    (keepsCount : step.movesCount = false) :
    executionsOf id (entry Store.perform store step) = 0 := by
  cases step with
  | claim _ _ _ _ _ _ =>
      cases keepsCount
  | _ =>
      rfl

theorem deferralsOf_of_keepsCount
    (keepsCount : step.movesCount = false) :
    deferralsOf id (entry Store.perform store step) = 0 := by
  cases step with
  | defer _ _ _ =>
      cases keepsCount
  | _ =>
      rfl

/-- A step that puts no request in the queue moves the counts as it should. -/
structure Job.Counts
    (old new : Job)
    (executions deferrals : ℕ) : Prop where
  attempt : new.attempt = old.attempt + executions
  base : new.retryBaseAttempt = old.retryBaseAttempt + deferrals

theorem Claims.counts
    {workerId : WorkerId}
    {claims : List QueueClaim}
    (claimed : Claims before after now workerId claims)
    (found : before.job id = some old) :
    ∃ new, after.job id = some new ∧
      old.Counts new ((claims.map QueueClaim.id).count id) 0 := by
  by_cases isClaimed : id ∈ claims.map QueueClaim.id
  · rw [List.count_eq_one_of_mem claimed.distinct isClaimed]
    obtain ⟨claim, member, rfl⟩ := List.mem_map.mp isClaimed
    obtain ⟨job, claimedJob⟩ := claimed.claimed claim member
    rw [claimedJob.found] at found
    cases found
    exact ⟨_, claimedJob.row, { attempt := rfl, base := rfl }⟩
  · rw [List.count_eq_zero_of_not_mem isClaimed]
    exact ⟨old, (claimed.others id isClaimed).trans found,
      { attempt := rfl, base := rfl }⟩

theorem counts_of_defer
    {claim : QueueClaim}
    {reason : JobDependencyReason}
    {result : Bool}
    (deferred : store.defer clock claim reason = .ok (after, result))
    (found : store.job id = some old) :
    ∃ new, after.job id = some new ∧
      old.Counts new 0
        (if result = true then if claim.id = id then 1 else 0 else 0) := by
  cases deferEffect deferred with
  | refused =>
      exact ⟨old, found, { attempt := rfl, base := rfl }⟩
  | accepted _ defers =>
      by_cases isClaim : id = claim.id
      · subst isClaim
        rw [defers.found] at found
        cases found
        refine ⟨_, defers.row, { attempt := rfl, base := ?_ }⟩
        simp [Job.defer]
      · refine ⟨old, (defers.others id isClaim).trans found,
          { attempt := rfl, base := ?_ }⟩
        simp [Ne.symm isClaim]

theorem counts_perform
    (takesNone : takesRequest store step = false)
    (found : store.job id = some old) :
    ∃ new, (store.perform step).1.job id = some new ∧
      old.Counts new (executionsOf id (entry Store.perform store step))
        (deferralsOf id (entry Store.perform store step)) := by
  rcases store.perform_cases step with transacted | ⟨same, error, answer⟩
  · cases moves : step.movesCount with
    | false =>
        obtain ⟨new, row, kept⟩ :=
          keepsJobs_of_transact moves takesNone transacted id old found
        rw [executionsOf_of_keepsCount moves, deferralsOf_of_keepsCount moves]
        exact ⟨new, row,
          { attempt := kept.sameAttempt, base := kept.sameBase }⟩
    | true =>
        generalize performedEq : store.perform step = performed at *
        obtain ⟨after, response⟩ := performed
        cases step with
        | claim now queue workerId maxClaims locked tokens =>
            obtain ⟨⟨claimedStore, claims⟩, claimed, done⟩ :=
              bind_eq_ok.mp transacted
            cases done
            simp only [executionsOf, deferralsOf, entry, performedEq]
            exact (claims_of_claim claimed).counts found
        | defer clock claim reason =>
            obtain ⟨⟨updated, result⟩, deferred, done⟩ :=
              bind_eq_ok.mp transacted
            cases done
            obtain ⟨new, row, counts⟩ := counts_of_defer deferred found
            refine ⟨new, row, ?_⟩
            simp only [executionsOf, deferralsOf, entry, performedEq]
            cases result <;> exact counts
        | _ =>
            cases moves
  · refine ⟨old, by rw [same, found], ?_⟩
    simp only [executionsOf, deferralsOf, entry, answer]
    cases step <;> exact { attempt := rfl, base := rfl }

/-- The claims of a job in a run. -/
def executions
    (id : JobId)
    (happened : List (Entry Store Step Response)) : ℕ :=
  (happened.map (executionsOf id)).sum

/-- The refunded claims of a job in a run. -/
def deferrals
    (id : JobId)
    (happened : List (Entry Store Step Response)) : ℕ :=
  (happened.map (deferralsOf id)).sum

theorem counts_trace
    {steps : List Step}
    (takesNone :
      AllMeet Store.perform (fun store step => takesRequest store step = false)
        store steps)
    (found : store.job id = some old) :
    ∃ new, (finalState Store.perform store steps).job id = some new ∧
      old.Counts new (executions id (trace Store.perform store steps))
        (deferrals id (trace Store.perform store steps)) := by
  induction steps generalizing store old with
  | nil =>
      exact ⟨old, found, { attempt := rfl, base := rfl }⟩
  | cons step rest inductionHypothesis =>
      obtain ⟨middle, middleFound, first⟩ := counts_perform takesNone.1 found
      obtain ⟨new, newFound, others⟩ :=
        inductionHypothesis takesNone.2 middleFound
      refine ⟨new, newFound, { attempt := ?_, base := ?_ }⟩
      · rw [others.attempt, first.attempt, trace, executions, executions,
          List.map_cons, List.sum_cons, Nat.add_assoc]
      · rw [others.base, first.base, trace, deferrals, deferrals,
          List.map_cons, List.sum_cons, Nat.add_assoc]

end Frameleaf.Queue
