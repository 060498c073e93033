import Frameleaf.Queue.Cascade

namespace Frameleaf.Queue

open Outcome Table Trace

/-!
# What holds of dependencies along runs

In a run whose steps all leave the parents of queued jobs as they should, no
state has an orphan, and every step that ends jobs ends all queued work below
them and nothing else.  A restore is the step that need not: it ends jobs
without settling what depends on them.
-/

variable {store : Store}

/-- The queued jobs below a job, each through queued jobs only. -/
inductive QueuedBelow
    (store : Store)
    (root : JobId) : JobId → Prop where
  | child {id : JobId} {job : Job}
      (found : store.job id = some job)
      (queued : job.state.isQueued = true)
      (isParent : job.parentId = some root) :
      QueuedBelow store root id
  | deeper {middle id : JobId} {job : Job}
      (above : QueuedBelow store root middle)
      (found : store.job id = some job)
      (queued : job.state.isQueued = true)
      (isParent : job.parentId = some middle) :
      QueuedBelow store root id

/-- A step that ends jobs has settled everything that depends on them. -/
structure SettlesDependencies
    (happened : Entry Store Step Response) : Prop where
  /-- No job waits for a parent that ended badly. -/
  noOrphan : NoOrphan happened.after
  /-- All that waited below a badly ended job has ended with it. -/
  cascade :
    ∀ root rootJob id, happened.after.job root = some rootJob →
      rootJob.state.endedBadly = true → QueuedBelow happened.before root id →
        ∃ old new, happened.before.job id = some old ∧
          happened.after.job id = some new ∧
            (new.state = .blocked ∨
              new.state.endedBadly = true ∧
                endsItself happened.before happened.step id old = true)
  /-- Nothing is blocked under a parent that has completed or is live. -/
  spared :
    ∀ id new, happened.after.job id = some new → new.state = .blocked →
      (∃ old, happened.before.job id = some old ∧ old.state = .blocked) ∨
        ∃ parentId parent, new.parentId = some parentId ∧
          happened.after.job parentId = some parent ∧
            parent.state.endedBadly = true

variable {step : Step} {id : JobId}

theorem ended_of_cascade
    {parentId : JobId}
    {old parent : Job}
    (endsJobs : step.endsJobs = true)
    (noOrphan : NoOrphan (store.perform step).1)
    (found : store.job id = some old)
    (queued : old.state.isQueued = true)
    (isParent : old.parentId = some parentId)
    (parentFound : (store.perform step).1.job parentId = some parent)
    (parentEnded : parent.state.endedBadly = true) :
    ∃ new, (store.perform step).1.job id = some new ∧
      (new.state = .blocked ∨
        new.state.endedBadly = true ∧ endsItself store step id old = true) := by
  obtain ⟨new, newFound, blocked | stillQueued | ended⟩ :=
    waitsOn_perform endsJobs found queued
  · exact ⟨new, newFound, Or.inl blocked⟩
  · have inNone := noOrphan id new parentId parent newFound stillQueued.1
      (stillQueued.2.trans isParent) parentFound parentEnded
    cases inNone
  · exact ⟨new, newFound, Or.inr ended⟩

theorem cascade_perform
    {root : JobId}
    {rootJob : Job}
    (endsJobs : step.endsJobs = true)
    (noOrphan : NoOrphan (store.perform step).1)
    (rootFound : (store.perform step).1.job root = some rootJob)
    (rootEnded : rootJob.state.endedBadly = true)
    (below : QueuedBelow store root id) :
    ∃ old new, store.job id = some old ∧
      (store.perform step).1.job id = some new ∧
        (new.state = .blocked ∨
          new.state.endedBadly = true ∧
            endsItself store step id old = true) := by
  induction below with
  | child found queued isParent =>
      obtain ⟨new, newFound, ended⟩ :=
        ended_of_cascade endsJobs noOrphan found queued isParent rootFound
          rootEnded
      exact ⟨_, new, found, newFound, ended⟩
  | deeper _ found queued isParent inductionHypothesis =>
      obtain ⟨_, above, _, aboveFound, aboveCases⟩ := inductionHypothesis
      have aboveEnded : above.state.endedBadly = true := by
        rcases aboveCases with blocked | ⟨ended, _⟩
        · rw [blocked]
          rfl
        · exact ended
      obtain ⟨new, newFound, ended⟩ :=
        ended_of_cascade endsJobs noOrphan found queued isParent aboveFound
          aboveEnded
      exact ⟨_, new, found, newFound, ended⟩

theorem spared_perform
    {new : Job}
    (endsJobs : step.endsJobs = true)
    (found : (store.perform step).1.job id = some new)
    (isBlocked : new.state = .blocked) :
    (∃ old, store.job id = some old ∧ old.state = .blocked) ∨
      ∃ parentId parent, new.parentId = some parentId ∧
        (store.perform step).1.job parentId = some parent ∧
          parent.state.endedBadly = true := by
  rcases store.perform_cases step with transacted | ⟨same, _⟩
  · generalize store.perform step = performed at *
    obtain ⟨after, response⟩ := performed
    cases step with
    | fail clock claim reason options freshId =>
        obtain ⟨⟨updated, _⟩, failed, done⟩ := bind_eq_ok.mp transacted
        cases done
        exact blocked_of_fail failed found isBlocked
    | cancel now queue states about =>
        obtain ⟨updated, cancel, done⟩ := bind_eq_ok.mp transacted
        cases done
        obtain ⟨_, _, cancelled⟩ := cancelled_of_cancel cancel
        rcases cancelled.settled.blocked_cases found isBlocked with
          ⟨row, rowFound, rowBlocked⟩ | underEnded
        · obtain ⟨old, oldFound, ⟨_, rfl⟩ | ⟨_, rfl⟩⟩ := cancelled.row rowFound
          · cases rowBlocked
          · exact Or.inl ⟨row, oldFound, rowBlocked⟩
        · exact Or.inr underEnded
    | resetQueueAfterRestore now =>
        obtain ⟨updated, restored, done⟩ := bind_eq_ok.mp transacted
        cases done
        obtain ⟨stopped, row⟩ := job_of_restore restored id
        rw [found] at row
        obtain ⟨old, oldFound, rfl⟩ := Option.map_eq_some_iff.mp row.symm
        split at isBlocked
        · exact (Job.restoredState_ne_blocked old _ isBlocked).elim
        · exact Or.inl ⟨old, oldFound, isBlocked⟩
    | _ =>
        cases endsJobs
  · rw [same] at found
    exact Or.inl ⟨new, found, isBlocked⟩

theorem noOrphan_reached
    {steps : List Step}
    (allow :
      AllMeet Store.perform (fun store step => parentsAllow store step = true)
        Store.empty steps) :
    NoOrphan (reached steps) := by
  refine invariant_finalState noOrphan_perform ?_ allow
  intro id job parentId parent found
  cases found

/--
In a run whose steps the parents allow no state has an orphan, and every step
that ends jobs has settled what depends on them.
-/
theorem settlesDependencies
    (steps : List Step)
    (allow :
      AllMeet Store.perform (fun store step => parentsAllow store step = true)
        Store.empty steps) :
    ∀ happened ∈ history steps,
      NoOrphan happened.after ∧
        (happened.step.endsJobs = true → SettlesDependencies happened) := by
  intro happened member
  obtain ⟨earlier, step, later, rfl, rfl⟩ := exists_split_of_mem_trace member
  obtain ⟨allowEarlier, allowStep, _⟩ := allMeet_append.mp allow
  have noOrphan :
      NoOrphan ((finalState Store.perform Store.empty earlier).perform step).1 :=
    noOrphan_perform _ step (noOrphan_reached allowEarlier) allowStep
  refine ⟨noOrphan, fun endsJobs => ?_⟩
  exact
    { noOrphan := noOrphan
      cascade := fun _ _ _ rootFound rootEnded below =>
        cascade_perform endsJobs noOrphan rootFound rootEnded below
      spared := fun _ _ found isBlocked =>
        spared_perform endsJobs found isBlocked }

/-- A request for a job, repeatable or not, below another job or not. -/
def requestBelow
    (safeToRetry : Bool)
    (parentId : Option JobId) : QueueIntent where
  queue := .other 0
  name := .other 0
  safeToRetry := safeToRetry
  parentId := parentId

/-- A parent is under its claim while a child and a grandchild wait. -/
def claimedParent : List Step :=
  [.startWorker 1 0,
    .enqueue 0
      [(1, requestBelow false none), (2, requestBelow true (some 1)),
        (3, requestBelow true (some 2))]
      none,
    .claim 0 (.other 0) 1 1 (fun _ => false) (fun _ => 7)]

/-- The parent's executor fails. -/
def failedParent : List Step :=
  claimedParent ++
    [.fail (.still 1) { id := 1, queue := .other 0, token := some 7 } "failed"
      {} 4]

/-- The database is restored while the parent is under its claim. -/
def restoredParent : List Step :=
  claimedParent ++ [.resetQueueAfterRestore 1]

/-- The failure of a parent settles its child and its grandchild. -/
theorem settlesDependencies_failedParent :
    AllMeet Store.perform (fun store step => parentsAllow store step = true)
        Store.empty failedParent ∧
      ∀ happened ∈ history failedParent,
        NoOrphan happened.after ∧
          (happened.step.endsJobs = true → SettlesDependencies happened) :=
  ⟨by decide +kernel, settlesDependencies failedParent (by decide +kernel)⟩

/-- A restore that ends a parent leaves its child waiting for it. -/
theorem restore_leaves_orphan :
    ¬∀ happened ∈ history restoredParent,
      happened.step.endsJobs = true → NoOrphan happened.after := by
  intro holds
  have noOrphan : NoOrphan (reached restoredParent) := by
    have happened := holds
      (entry Store.perform (reached claimedParent) (.resetQueueAfterRestore 1))
    refine happened ?_ rfl
    rw [history, restoredParent, trace_append]
    exact List.mem_append_right _ List.mem_cons_self
  have parent :
      ((reached restoredParent).job 1).any (fun job => job.state.endedBadly) =
        true := by
    decide +kernel
  have child :
      ((reached restoredParent).job 2).any
          (fun job => job.state.isQueued && decide (job.parentId = some 1)) =
        true := by
    decide +kernel
  obtain ⟨parentJob, parentFound, parentEnded⟩ :=
    (Option.any_eq_true _ _).mp parent
  obtain ⟨childJob, childFound, waits⟩ := (Option.any_eq_true _ _).mp child
  obtain ⟨queued, isParent⟩ := Bool.and_eq_true_iff.mp waits
  have inNone := noOrphan 2 childJob 1 parentJob childFound queued
    (of_decide_eq_true isParent) parentFound parentEnded
  cases inNone

end Frameleaf.Queue
