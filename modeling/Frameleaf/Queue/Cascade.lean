import Frameleaf.Queue.Orphans

namespace Frameleaf.Queue

open Outcome Table Trace

/-!
# What the end of a job does to the jobs below it

A failure or a cancellation blocks every queued job below the jobs that it
ended, and no job whose parent has not ended badly.
-/

variable {store before middle after scheduled : Store}

/-! ## A failure leaves no orphan -/

variable {dropped : Store} {id freshId other : JobId} {job ended old new : Job}

theorem FailedRow.orphansUnder
    (failed : FailedRow store dropped id job ended)
    (none : NoOrphan store) :
    OrphansUnder [id] dropped := by
  intro childId child parentId parent found queued isParent parentFound bad
  by_cases isId : parentId = id
  · exact List.mem_singleton.mpr isId
  have childApart : childId ≠ id := by
    rintro rfl
    rw [failed.row] at found
    cases found
    rw [(JobState.not_live_of_endedBadly failed.endedBadly).1] at queued
    cases queued
  rw [failed.others childId childApart] at found
  rw [failed.others parentId isId] at parentFound
  have inNone := none childId child parentId parent found queued isParent
    parentFound bad
  cases inNone

variable {parentId : Option JobId}

theorem FailedRow.mayQueue
    (failed : FailedRow store dropped id job ended)
    (notEnded : store.parentEnded parentId = false) :
    MayQueue dropped [id] parentId := by
  rintro parentId rfl
  by_cases isId : parentId = id
  · exact Or.inl (List.mem_singleton.mpr isId)
  · refine Or.inr ?_
    rw [Store.parentEnded_eq_false] at notEnded ⊢
    rwa [failed.others parentId isId]

variable {now : Time} {parents stopped blocked : List JobId}
  {latest : QueueIntent}

theorem orphansUnder_of_hold
    (under : OrphansUnder parents before)
    (holds :
      before.updateJobs (fun _ => carriesIdentity latest)
          (fun _ => Job.holdForAttention now) =
        .ok after) :
    OrphansUnder
      (parents ++ select (fun _ => carriesIdentity latest) before.jobs.rows)
      after := by
  have rows := Store.job_of_updateJobs holds
  intro id job parentId parent found queued isParent parentFound bad
  rw [rows] at found parentFound
  obtain ⟨old, oldFound, rfl⟩ := Option.map_eq_some_iff.mp found
  obtain ⟨oldParent, oldParentFound, rfl⟩ :=
    Option.map_eq_some_iff.mp parentFound
  rw [List.mem_append]
  by_cases parentHeld : carriesIdentity latest oldParent = true
  · exact Or.inr (mem_select.mpr ⟨oldParent, oldParentFound, parentHeld⟩)
  rw [if_neg parentHeld] at bad
  by_cases held : carriesIdentity latest old = true
  · rw [if_pos held] at queued
    cases queued
  rw [if_neg held] at queued isParent
  exact Or.inl
    (under id old parentId oldParent oldFound queued isParent oldParentFound bad)

theorem ScheduleEffect.orphansUnder
    {latest : Option QueueIntent}
    (effect :
      ScheduleEffect dropped now id freshId false latest scheduled stopped)
    (failed : FailedRow store dropped id job ended)
    (waits : job.latestPending = latest)
    (allow : store.latestMayQueue id job = true)
    (none : NoOrphan store) :
    OrphansUnder (id :: stopped) scheduled := by
  have under := failed.orphansUnder none
  have installedUnder :
      ∀ {request : QueueIntent} {installedStore : Store},
        job.latestPending = some request →
          LatestInstalled dropped now id freshId request installedStore →
            OrphansUnder [id] installedStore := by
    intro request installedStore requestWaits installed
    obtain ⟨ownNot, latestNot⟩ := (latestMayQueue_iff requestWaits).mp allow
    refine (installed.addsNoOrphans (fun previous found => ?_)
      (failed.mayQueue latestNot)).orphansUnder under
    rw [failed.row] at found
    cases found
    rw [failed.sameParent]
    exact failed.mayQueue ownNot
  cases effect with
  | nothing =>
      exact under
  | ran _ installed =>
      exact installedUnder waits installed
  | held _ _ installed holds =>
      exact orphansUnder_of_hold (installedUnder waits installed) holds

variable {clock : Clock} {claim : FailedClaim} {reason : String}
  {options : FailOptions} {result : Option QueueState}

/-- A failure leaves no orphan when the parents allow it. -/
theorem noOrphan_of_fail
    (none : NoOrphan store)
    (allow :
      parentsAllow store (.fail clock claim reason options freshId) = true)
    (failed :
      store.fail clock claim reason options freshId = .ok (after, result)) :
    NoOrphan after := by
  cases failEffect failed with
  | refused =>
      exact none
  | awaited _ _ awaits =>
      have adds : AddsNoOrphans [] store after :=
        addsNoOrphans_of_rewrites awaits (fun bad => bad)
          fun queued => Or.inl ⟨queued, rfl⟩
      exact adds.orphansUnder none
  | @ended recorded _ job facts found owns factsEq record follow =>
      simp only [parentsAllow, found, Option.all_some, owns, Bool.not_true,
        Bool.false_or, ← factsEq, Store.failureMayQueue] at allow
      unfold Store.followFailure at follow
      split at follow
      · rename_i isPending
        cases follow
        rw [if_pos isPending, Bool.not_eq_true'] at allow
        unfold Store.recordFailure at record
        obtain ⟨written, update, done⟩ := bind_eq_ok.mp record
        cases done
        have adds : AddsNoOrphans [] store written :=
          addsNoOrphans_of_rewrites (Rewrites.of_update found update)
            (fun bad => by
              rw [show (Job.fail _ _ _ job).state = _ from rfl, isPending] at bad
              cases bad)
            fun _ => Or.inr (MayQueue.of_not_parentEnded allow)
        exact adds.orphansUnder none
      · rename_i notPending
        rw [if_neg notPending, Bool.or_eq_true] at allow
        obtain ⟨dropped, scheduled, stopped, terminal⟩ := terminalEffect follow
        obtain ⟨ended, failedRow⟩ :=
          failedRow_of_terminal found record notPending terminal
        obtain ⟨blocked, settled⟩ :=
          settled_of_settleDependencies terminal.settle
        refine settled.noOrphan ?_
        rcases terminal.schedule with ⟨_, rfl, rfl⟩ | ⟨noAttention, effect⟩
        · exact failedRow.orphansUnder none
        · rw [noAttention] at allow
          exact effect.orphansUnder failedRow rfl
            (allow.resolve_left Bool.noConfusion) none

/-! ## Every step -/

theorem Claims.noOrphan
    {workerId : WorkerId}
    {claims : List QueueClaim}
    (claimed : Claims before after now workerId claims)
    (none : NoOrphan before) :
    NoOrphan after := by
  have adds : AddsNoOrphans [] before after := by
    refine AddsNoOrphans.of_rows fun id new found => ?_
    by_cases isClaimed : id ∈ claims.map QueueClaim.id
    · obtain ⟨claim, member, rfl⟩ := List.mem_map.mp isClaimed
      obtain ⟨old, claimedJob⟩ := claimed.claimed claim member
      rw [claimedJob.row] at found
      cases found
      exact ⟨old, claimedJob.found,
        { endsNot := fun bad => by cases bad
          entersNot := fun queued => by cases queued
          sameParent := rfl }⟩
    · exact ⟨new, (claimed.others id isClaimed).symm.trans found,
        Job.StaysPut.rfl⟩
  exact adds.orphansUnder none

theorem noOrphan_of_update
    {condition : JobId → Job → Bool}
    {change : JobId → Job → Job}
    (none : NoOrphan store)
    (updated : store.updateJobs condition change = .ok after)
    (keeps : ∀ id job, (change id job).state = job.state ∧
      (change id job).parentId = job.parentId) :
    NoOrphan after := by
  have adds : AddsNoOrphans [] store after :=
    addsNoOrphans_of_update updated fun id job _ =>
      { endsNot := fun bad => (keeps id job).1 ▸ bad
        entersNot := fun queued => (keeps id job).1 ▸ queued
        sameParent := (keeps id job).2 }
  exact adds.orphansUnder none

/-- A transaction whose parents allow it leaves no orphan. -/
theorem noOrphan_of_transact
    {step : Step}
    {response : Response}
    (none : NoOrphan store)
    (allow : parentsAllow store step = true)
    (transacted : store.transact step = .ok (after, response)) :
    NoOrphan after := by
  cases step with
  | startWorker id now | createRun id holds =>
      simp only [Store.transact] at transacted
      split at transacted
      · cases transacted
      · cases transacted
        exact none
  | setRunHolds id holds | configure queue config | setOperation id operation
  | proveAttemptStopped token id | proveWorkerStopped id | loseWorkers now =>
      cases transacted
      exact none
  | enqueue now intents liveRunId =>
      obtain ⟨⟨updated, acceptances⟩, taken, done⟩ := bind_eq_ok.mp transacted
      cases done
      have mayQueue :
          ∀ request ∈ intents, store.existing request.2 = Option.none →
            store.parentEnded request.2.parentId = false := by
        intro request member absent
        have may := List.all_eq_true.mp allow request member
        rw [absent] at may
        simpa using may
      exact (orphansUnder_of_enqueue mayQueue taken).1 none
  | claim now queue workerId maxClaims locked tokens =>
      obtain ⟨⟨claimedStore, claims⟩, claimed, done⟩ := bind_eq_ok.mp transacted
      cases done
      exact (claims_of_claim claimed).noOrphan none
  | startNow queue jobId =>
      obtain ⟨⟨updated, _⟩, started, done⟩ := bind_eq_ok.mp transacted
      cases done
      obtain ⟨changed, update, result⟩ := bind_eq_ok.mp started
      cases result
      exact noOrphan_of_update none update fun _ _ => ⟨rfl, rfl⟩
  | heartbeat clock workerId claims locked =>
      obtain ⟨updated, update, done⟩ := bind_eq_ok.mp transacted
      cases done
      simp only [Store.heartbeat] at update
      refine noOrphan_of_update ?_ update fun _ _ => ⟨rfl, rfl⟩
      exact none
  | reconcileHolds _ _ _ | progress _ _ _ _ | annotate _ _ _ _ _
  | wakeDeferred _ _ _ | deadlines _ _ _ | requestCancellation _ _ =>
      obtain ⟨updated, update, done⟩ := bind_eq_ok.mp transacted
      cases done
      exact noOrphan_of_update none update fun _ _ => ⟨rfl, rfl⟩
  | joinRun clock jobId token runId itemKey =>
      obtain ⟨updated, joined, done⟩ := bind_eq_ok.mp transacted
      cases done
      obtain ⟨_, _, update⟩ := bind_eq_ok.mp joined
      exact noOrphan_of_update none update fun _ _ => ⟨rfl, rfl⟩
  | complete dataDigest clock claim followups latestId =>
      obtain ⟨⟨updated, _⟩, completed, done⟩ := bind_eq_ok.mp transacted
      cases done
      exact noOrphan_of_complete none allow completed
  | defer clock claim reason =>
      obtain ⟨⟨updated, _⟩, deferred, done⟩ := bind_eq_ok.mp transacted
      cases done
      exact noOrphan_of_defer none allow deferred
  | fail clock claim reason options freshId =>
      obtain ⟨⟨updated, _⟩, failed, done⟩ := bind_eq_ok.mp transacted
      cases done
      exact noOrphan_of_fail none allow failed
  | cancel now queue states about =>
      obtain ⟨updated, cancel, done⟩ := bind_eq_ok.mp transacted
      cases done
      obtain ⟨_, _, cancelled⟩ := cancelled_of_cancel cancel
      exact cancelled.noOrphan none
  | retryFailed now queue jobId =>
      obtain ⟨updated, retried, done⟩ := bind_eq_ok.mp transacted
      cases done
      exact noOrphan_of_retryFailed none allow retried
  | retryRun now runId =>
      obtain ⟨updated, retried, done⟩ := bind_eq_ok.mp transacted
      cases done
      exact noOrphan_of_retryRun none retried
  | resetQueueAfterRestore now =>
      obtain ⟨updated, restored, done⟩ := bind_eq_ok.mp transacted
      cases done
      exact (noOrphan_restore_iff restored).mpr allow

theorem noOrphan_perform
    (store : Store)
    (step : Step)
    (none : NoOrphan store)
    (allow : parentsAllow store step = true) :
    NoOrphan (store.perform step).1 := by
  rcases store.perform_cases step with transacted | ⟨same, _⟩
  · exact noOrphan_of_transact none allow transacted
  · rw [same]
    exact none

/-! ## The jobs below one that ended -/

/-- A queued job after a step that ends jobs: still queued, or ended by it. -/
def WaitsOn
    (parentId : Option JobId)
    (endsItself : Bool)
    (job : Job) : Prop :=
  job.state.isQueued = true ∧ job.parentId = parentId ∨
    job.state.endedBadly = true ∧ endsItself = true

theorem LatestInstalled.waitsOn
    {previousId : JobId}
    (installed :
      LatestInstalled before now previousId freshId latest after)
    (apart : id ≠ previousId)
    (found : before.job id = some old)
    (queued : old.state.isQueued = true) :
    ∃ new, after.job id = some new ∧ new.state.isQueued = true ∧
      new.parentId = old.parentId ∧ new.queue = old.queue ∧
        new.dedupKey = old.dedupKey := by
  cases installed with
  | ran _ rewrites =>
      exact ⟨old, (rewrites.others id apart).trans found, queued, rfl, rfl, rfl⟩
  | took _ taken =>
      obtain ⟨new, newFound, row⟩ := taken.row found
      refine ⟨new, newFound, ?_⟩
      cases row with
      | same | parked _ | overwritten _ _ _ =>
          exact ⟨queued, rfl, rfl, rfl⟩
      | rearmed _ finished =>
          have notLive := (rearmable_iff.mp finished).2.2.2.2.2.1
          simp [JobState.isLive, queued] at notLive

theorem LatestInstalled.failedRow
    (installed : LatestInstalled dropped now id freshId latest after)
    (failed : FailedRow store dropped id job ended) :
    ∃ new, after.job id = some new ∧ WaitsOn job.parentId true new := by
  cases installed with
  | ran _ rewrites =>
      have foundRow := rewrites.found
      rw [failed.row] at foundRow
      cases foundRow
      exact ⟨_, rewrites.row, Or.inl ⟨rfl, failed.sameParent⟩⟩
  | took apart taken =>
      obtain ⟨new, newFound, row⟩ := taken.row failed.row
      refine ⟨new, newFound, ?_⟩
      have notLive := JobState.not_live_of_endedBadly failed.endedBadly
      cases row with
      | same =>
          exact Or.inr ⟨failed.endedBadly, rfl⟩
      | parked has =>
          have live := has.live
          simp [JobState.isLive, notLive] at live
      | overwritten _ _ queued =>
          exact Bool.noConfusion (notLive.1.symm.trans queued)
      | rearmed _ finished =>
          -- A row of the same run stage would have served the request.
          have notSame := apart ended failed.row
          exact Bool.noConfusion
            (notSame.symm.trans (rearmable_withoutParent finished))

theorem waitsOn_of_hold
    {ends : Bool}
    (holds :
      before.updateJobs (fun _ => carriesIdentity latest)
          (fun _ => Job.holdForAttention now) =
        .ok after)
    (found : before.job id = some job)
    (waits : WaitsOn parentId ends job)
    (endsHeld : carriesIdentity latest job = true → ends = true) :
    ∃ new, after.job id = some new ∧ WaitsOn parentId ends new := by
  have row := Store.job_of_updateJobs holds id
  rw [found, Option.map_some] at row
  refine ⟨_, row, ?_⟩
  split
  · rename_i held
    exact Or.inr ⟨rfl, endsHeld held⟩
  · exact waits

theorem ScheduleEffect.waitsOn
    {latest : Option QueueIntent}
    (effect :
      ScheduleEffect dropped now id freshId false latest scheduled stopped)
    (failed : FailedRow store dropped id job ended)
    (found : store.job other = some old)
    (queued : old.state.isQueued = true) :
    ∃ new, scheduled.job other = some new ∧
      WaitsOn old.parentId
        (decide (other = id) ||
          latest.any fun latest => carriesIdentity latest old)
        new := by
  by_cases isId : other = id
  · subst isId
    rw [failed.found] at found
    cases found
    rw [decide_eq_true rfl, Bool.true_or]
    cases effect with
    | nothing =>
        exact ⟨ended, failed.row, Or.inr ⟨failed.endedBadly, rfl⟩⟩
    | ran _ installed =>
        exact installed.failedRow failed
    | held _ _ installed holds =>
        obtain ⟨new, newFound, waits⟩ := installed.failedRow failed
        exact waitsOn_of_hold holds newFound waits fun _ => rfl
  · have droppedFound := (failed.others other isId).trans found
    rw [decide_eq_false isId, Bool.false_or]
    cases effect with
    | nothing =>
        exact ⟨old, droppedFound, Or.inl ⟨queued, rfl⟩⟩
    | ran _ installed =>
        obtain ⟨new, newFound, newQueued, sameParent, _⟩ :=
          installed.waitsOn isId droppedFound queued
        exact ⟨new, newFound, Or.inl ⟨newQueued, sameParent⟩⟩
    | held _ _ installed holds =>
        obtain ⟨new, newFound, newQueued, sameParent, sameQueue, sameKey⟩ :=
          installed.waitsOn isId droppedFound queued
        refine waitsOn_of_hold holds newFound
          (Or.inl ⟨newQueued, sameParent⟩) fun carries => ?_
        simpa [carriesIdentity, sameQueue, sameKey, queued, newQueued] using
          carries

theorem Settled.waitsOn
    {ends : Bool}
    (settled : Settled before after now parents blocked)
    (found : before.job id = some job)
    (waits : WaitsOn parentId ends job) :
    ∃ new, after.job id = some new ∧
      (new.state = .blocked ∨ WaitsOn parentId ends new) := by
  by_cases isBlocked : id ∈ blocked
  · obtain ⟨_, _, _, row⟩ := settled.job_of_mem isBlocked
    exact ⟨_, row, Or.inl rfl⟩
  · exact ⟨job, (settled.job_of_not_mem isBlocked).trans found, Or.inr waits⟩

/-- A queued job after a failure. -/
theorem waitsOn_of_fail
    (found : store.job id = some old)
    (queued : old.state.isQueued = true)
    (failed :
      store.fail clock claim reason options freshId = .ok (after, result)) :
    ∃ new, after.job id = some new ∧
      (new.state = .blocked ∨
        WaitsOn old.parentId
          (endsItself store (.fail clock claim reason options freshId) id old)
          new) := by
  cases failEffect failed with
  | refused =>
      exact ⟨old, found, Or.inr (Or.inl ⟨queued, rfl⟩)⟩
  | awaited _ _ awaits =>
      rcases awaits.row_cases found with same | ⟨rfl, row⟩
      · exact ⟨old, same, Or.inr (Or.inl ⟨queued, rfl⟩)⟩
      · exact ⟨_, row, Or.inr (Or.inl ⟨queued, rfl⟩)⟩
  | @ended recorded _ job facts jobFound owns factsEq record follow =>
      unfold Store.followFailure at follow
      split at follow
      · rename_i isPending
        cases follow
        have row := job_of_recordFailure record id
        rw [found, Option.map_some] at row
        refine ⟨_, row, Or.inr (Or.inl ?_)⟩
        split
        · exact ⟨by
            rw [show (Job.fail _ _ _ old).state = _ from rfl, isPending]
            rfl, rfl⟩
        · exact ⟨queued, rfl⟩
      · rename_i notPending
        obtain ⟨dropped, scheduled, stopped, terminal⟩ := terminalEffect follow
        obtain ⟨ended, failedRow⟩ :=
          failedRow_of_terminal jobFound record notPending terminal
        obtain ⟨blocked, settled⟩ :=
          settled_of_settleDependencies terminal.settle
        have kept : ∃ new, scheduled.job id = some new ∧
            WaitsOn old.parentId
              (endsItself store (.fail clock claim reason options freshId) id
                old)
              new := by
          simp only [endsItself, jobFound, Option.any_some]
          rcases terminal.schedule with ⟨_, rfl, rfl⟩ | ⟨_, effect⟩
          · by_cases isId : id = claim.id
            · subst isId
              exact ⟨ended, failedRow.row,
                Or.inr ⟨failedRow.endedBadly, by simp⟩⟩
            · exact ⟨old, (failedRow.others id isId).trans found,
                Or.inl ⟨queued, rfl⟩⟩
          · exact effect.waitsOn failedRow found queued
        obtain ⟨new, newFound, waits⟩ := kept
        exact settled.waitsOn newFound waits

theorem Cancelled.waitsOn
    {cleared : Store}
    {matching : JobId → Job → Bool}
    (cancelled : Cancelled before cleared after now matching blocked)
    (found : before.job id = some old)
    (queued : old.state.isQueued = true) :
    ∃ new, after.job id = some new ∧
      (new.state = .blocked ∨
        WaitsOn old.parentId (matching id old) new) := by
  have row := cancelled.rows id
  rw [found, Option.map_some] at row
  refine cancelled.settled.waitsOn row ?_
  split
  · rename_i isMatch
    exact Or.inr ⟨rfl, isMatch⟩
  · exact Or.inl ⟨queued, rfl⟩

theorem waitsOn_of_restore
    (restored : store.resetQueueAfterRestore now = .ok after)
    (found : store.job id = some old)
    (queued : old.state.isQueued = true) :
    ∃ new, after.job id = some new ∧
      WaitsOn old.parentId old.isRestored new := by
  obtain ⟨stopped, row⟩ := job_of_restore restored id
  rw [found, Option.map_some] at row
  refine ⟨_, row, ?_⟩
  split
  · rename_i isRestored
    obtain ⟨isQueued, isEnded⟩ := old.restoredState_cases (stopped id old)
    cases putBack : old.isPutBack with
    | true =>
        exact Or.inl ⟨isQueued.trans putBack, rfl⟩
    | false =>
        exact Or.inr ⟨isEnded.trans (by simp [putBack]), isRestored⟩
  · exact Or.inl ⟨queued, rfl⟩

theorem waitsOn_perform
    {step : Step}
    (endsJobs : step.endsJobs = true)
    (found : store.job id = some old)
    (queued : old.state.isQueued = true) :
    ∃ new, (store.perform step).1.job id = some new ∧
      (new.state = .blocked ∨
        WaitsOn old.parentId (endsItself store step id old) new) := by
  rcases store.perform_cases step with transacted | ⟨same, _⟩
  · generalize store.perform step = performed at *
    obtain ⟨after, response⟩ := performed
    cases step with
    | fail clock claim reason options freshId =>
        obtain ⟨⟨updated, _⟩, failed, done⟩ := bind_eq_ok.mp transacted
        cases done
        exact waitsOn_of_fail found queued failed
    | cancel now queue states about =>
        obtain ⟨updated, cancel, done⟩ := bind_eq_ok.mp transacted
        cases done
        obtain ⟨_, _, cancelled⟩ := cancelled_of_cancel cancel
        obtain ⟨new, newFound, waits⟩ := cancelled.waitsOn found queued
        have notActive : old.state.isActive = false := by
          cases stateEq : old.state <;>
            simp_all [JobState.isQueued, JobState.isActive]
        refine ⟨new, newFound, ?_⟩
        simpa [endsItself, cancels, notActive] using waits
    | resetQueueAfterRestore now =>
        obtain ⟨updated, restored, done⟩ := bind_eq_ok.mp transacted
        cases done
        obtain ⟨new, newFound, waits⟩ := waitsOn_of_restore restored found queued
        exact ⟨new, newFound, Or.inr waits⟩
    | _ =>
        cases endsJobs
  · exact ⟨old, by rw [same, found], Or.inr (Or.inl ⟨queued, rfl⟩)⟩

/-! ## Jobs that a step blocks -/

theorem TakenOn.blocked_before
    {intent : QueueIntent}
    {acceptance : Acceptance}
    (taken : TakenOn before now id intent after acceptance)
    (found : after.job other = some new)
    (isBlocked : new.state = .blocked) :
    ∃ old, before.job other = some old ∧ old.state = .blocked := by
  rcases taken.row_before found with ⟨old, oldFound, row⟩ | ⟨_, rfl⟩
  · refine ⟨old, oldFound, ?_⟩
    cases row with
    | same | parked _ | overwritten _ _ _ =>
        exact isBlocked
    | rearmed _ _ =>
        cases isBlocked
  · cases isBlocked

theorem ScheduleEffect.blocked_before
    {latest : Option QueueIntent}
    (effect : ScheduleEffect before now id freshId false latest after stopped)
    (found : after.job other = some new)
    (isBlocked : new.state = .blocked) :
    ∃ old, before.job other = some old ∧ old.state = .blocked := by
  have installedBefore :
      ∀ {request : QueueIntent} {installedStore : Store} {row : Job},
        LatestInstalled before now id freshId request installedStore →
          installedStore.job other = some row → row.state = .blocked →
            ∃ old, before.job other = some old ∧ old.state = .blocked := by
    intro request installedStore row installed rowFound rowBlocked
    cases installed with
    | @ran updated previous _ rewrites =>
        have rowFound : updated.job other = some row := rowFound
        by_cases sameId : other = id
        · subst sameId
          rw [rewrites.row] at rowFound
          cases rowFound
          cases rowBlocked
        · exact ⟨row, (rewrites.others other sameId).symm.trans rowFound,
            rowBlocked⟩
    | took _ taken =>
        exact taken.blocked_before rowFound rowBlocked
  cases effect with
  | nothing =>
      exact ⟨new, found, isBlocked⟩
  | ran _ installed =>
      exact installedBefore installed found isBlocked
  | held _ _ installed holds =>
      rw [Store.job_of_updateJobs holds] at found
      obtain ⟨row, rowFound, rfl⟩ := Option.map_eq_some_iff.mp found
      split at isBlocked
      · cases isBlocked
      · exact installedBefore installed rowFound isBlocked

theorem Settled.blocked_cases
    (settled : Settled before after now parents blocked)
    (found : after.job id = some new)
    (isBlocked : new.state = .blocked) :
    (∃ old, before.job id = some old ∧ old.state = .blocked) ∨
      ∃ parentId parent, new.parentId = some parentId ∧
        after.job parentId = some parent ∧ parent.state.endedBadly = true := by
  by_cases member : id ∈ blocked
  · exact Or.inr (settled.parent_ended member found)
  · exact Or.inl ⟨new, (settled.job_of_not_mem member).symm.trans found,
      isBlocked⟩

/-- A failure blocks only under parents that ended badly. -/
theorem blocked_of_fail
    (failed :
      store.fail clock claim reason options freshId = .ok (after, result))
    (found : after.job id = some new)
    (isBlocked : new.state = .blocked) :
    (∃ old, store.job id = some old ∧ old.state = .blocked) ∨
      ∃ parentId parent, new.parentId = some parentId ∧
        after.job parentId = some parent ∧ parent.state.endedBadly = true := by
  cases failEffect failed with
  | refused =>
      exact Or.inl ⟨new, found, isBlocked⟩
  | awaited _ _ awaits =>
      by_cases sameId : id = claim.id
      · subst sameId
        rw [awaits.row] at found
        cases found
        exact Or.inl ⟨_, awaits.found, isBlocked⟩
      · exact Or.inl ⟨new, (awaits.others id sameId).symm.trans found,
          isBlocked⟩
  | @ended recorded _ job facts jobFound owns factsEq record follow =>
      unfold Store.followFailure at follow
      split at follow
      · cases follow
        rw [job_of_recordFailure record] at found
        obtain ⟨old, oldFound, rfl⟩ := Option.map_eq_some_iff.mp found
        split at isBlocked
        · exact (FailureFacts.endState_ne_blocked isBlocked).elim
        · exact Or.inl ⟨old, oldFound, isBlocked⟩
      · rename_i notPending
        obtain ⟨dropped, scheduled, stopped, terminal⟩ := terminalEffect follow
        obtain ⟨ended, failedRow⟩ :=
          failedRow_of_terminal jobFound record notPending terminal
        obtain ⟨blocked, settled⟩ :=
          settled_of_settleDependencies terminal.settle
        have droppedBefore :
            ∀ row, dropped.job id = some row → row.state = .blocked →
              ∃ old, store.job id = some old ∧ old.state = .blocked := by
          intro row rowFound rowBlocked
          by_cases sameId : id = claim.id
          · subst sameId
            rw [failedRow.row] at rowFound
            cases rowFound
            exact (failedRow.notBlocked rowBlocked).elim
          · exact ⟨row, (failedRow.others id sameId).symm.trans rowFound,
              rowBlocked⟩
        rcases settled.blocked_cases found isBlocked with
          ⟨row, rowFound, rowBlocked⟩ | underEnded
        · left
          rcases terminal.schedule with ⟨_, rfl, rfl⟩ | ⟨_, effect⟩
          · exact droppedBefore row rowFound rowBlocked
          · obtain ⟨old, oldFound, oldBlocked⟩ :=
              effect.blocked_before rowFound rowBlocked
            exact droppedBefore old oldFound oldBlocked
        · exact Or.inr underEnded

end Frameleaf.Queue
