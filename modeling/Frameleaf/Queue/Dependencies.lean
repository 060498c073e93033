import Frameleaf.Queue.Claims

namespace Frameleaf.Queue

open Outcome Saturation Table

/-!
# Jobs that wait for a parent

A queued job whose parent ended badly is an orphan: nothing will ever claim it.
Each kind of statement is shown to leave orphans only under parents that are
still to be settled, and settling them leaves none.
-/

variable {store before middle after : Store} {parents : List JobId}

/-- Every queued job whose parent ended badly has it among the given ones. -/
def OrphansUnder
    (parents : List JobId)
    (store : Store) : Prop :=
  ∀ id job parentId parent,
    store.job id = some job → job.state.isQueued = true →
      job.parentId = some parentId → store.job parentId = some parent →
        parent.state.endedBadly = true → parentId ∈ parents

/-- No queued job has a parent that ended badly. -/
def NoOrphan (store : Store) : Prop :=
  OrphansUnder [] store

/-- A job under a given parent has ended badly. -/
def Store.parentEnded
    (store : Store)
    (parentId : Option JobId) : Bool :=
  parentId.any fun id => (store.job id).any fun job => job.state.endedBadly

variable {parentId id : JobId}

theorem Store.parentEnded_eq_false :
    store.parentEnded (some parentId) = false ↔
      ∀ parent, store.job parentId = some parent →
        parent.state.endedBadly = false := by
  cases found : store.job parentId with
  | none =>
      simp [Store.parentEnded, found]
  | some parent =>
      simp [Store.parentEnded, found]

theorem Store.parentEnded_eq_true :
    store.parentEnded (some parentId) = true ↔
      ∃ parent, store.job parentId = some parent ∧
        parent.state.endedBadly = true := by
  simp [Store.parentEnded, Option.any_eq_true]

/-! ## Settling -/

/-- What settling dependencies did: it blocked a closed set of queued jobs. -/
structure Settled
    (before after : Store)
    (now : Time)
    (parents blocked : List JobId) : Prop where
  rows : ∀ id, after.job id =
    (before.job id).map fun job =>
      if id ∈ blocked then job.block now else job
  queued : ∀ id ∈ blocked, ∃ job, before.job id = some job ∧
    job.state.isQueued = true
  below : ∀ id ∈ blocked, ∀ job, before.job id = some job →
    ∃ parentId, job.parentId = some parentId ∧
      (parentId ∈ blocked ∨
        parentId ∈ parents ∧ before.parentEnded (some parentId) = true)
  seeds : ∀ id job parentId, before.job id = some job →
    job.state.isQueued = true → job.parentId = some parentId →
      parentId ∈ parents → before.parentEnded (some parentId) = true →
        id ∈ blocked
  closed : ∀ id job parentId, before.job id = some job →
    job.state.isQueued = true → job.parentId = some parentId →
      parentId ∈ blocked → id ∈ blocked

theorem isChild_iff :
    ((store.job id).any fun job => job.parentId = some parentId) = true ↔
      ∃ job, store.job id = some job ∧ job.parentId = some parentId := by
  simp [Option.any_eq_true]

variable {now : Time}

/-- What settling dependencies does. -/
theorem settled_of_settleDependencies
    (settled : store.settleDependencies now parents = .ok after) :
    ∃ blocked, Settled store after now parents blocked := by
  unfold Store.settleDependencies at settled
  simp only at settled
  generalize queuedEq :
    select (fun _ job => job.state.isQueued) store.jobs.rows = queued at settled
  generalize seedsEq :
    (queued.filter fun id => parents.any fun parentId =>
      ((store.job id).any fun job => decide (job.parentId = some parentId)) &&
        (store.job parentId).any fun parent => parent.state.endedBadly) =
      seeds at settled
  refine ⟨saturate (fun parentId id =>
    (store.job id).any fun job => job.parentId = some parentId)
      queued.length seeds queued, ?_⟩
  refine
    { rows := fun id => ?rows
      queued := fun id member => ?queued
      below := fun id member job found => ?below
      seeds := fun id job parentId found isQueued isParent inParents ended =>
        ?seeds
      closed := fun id job parentId found isQueued isParent inBlocked =>
        ?closed }
  case rows =>
    rw [Store.job_of_updateJobs settled]
    simp only [decide_eq_true_eq]
  case queued =>
    have reached := reached_of_mem_saturate member
    have isCandidate : id ∈ queued := by
      cases reached with
      | seed inSeeds =>
          rw [← seedsEq] at inSeeds
          exact (List.mem_filter.mp inSeeds).1
      | next _ inQueued _ =>
          exact inQueued
    rw [← queuedEq] at isCandidate
    exact mem_select.mp isCandidate
  case below =>
    have reached := reached_of_mem_saturate member
    cases reached with
    | seed inSeeds =>
        rw [← seedsEq] at inSeeds
        obtain ⟨parentId, inParents, holds⟩ :=
          List.any_eq_true.mp (List.mem_filter.mp inSeeds).2
        obtain ⟨isChild, ended⟩ := Bool.and_eq_true_iff.mp holds
        obtain ⟨child, childFound, isParent⟩ := isChild_iff.mp isChild
        rw [found] at childFound
        cases childFound
        exact ⟨parentId, isParent, Or.inr ⟨inParents, ended⟩⟩
    | @next source _ sourceReached _ isChild =>
        obtain ⟨child, childFound, isParent⟩ := isChild_iff.mp isChild
        rw [found] at childFound
        cases childFound
        exact ⟨source, isParent,
          Or.inl ((mem_saturate_iff (le_refl _)).mpr sourceReached)⟩
  case seeds =>
    have inQueued : id ∈ queued := by
      rw [← queuedEq]
      exact mem_select.mpr ⟨job, found, isQueued⟩
    refine mem_saturate_of_mem ?_
    rw [← seedsEq]
    refine List.mem_filter.mpr ⟨inQueued, List.any_eq_true.mpr
      ⟨parentId, inParents, Bool.and_eq_true_iff.mpr ⟨?_, ended⟩⟩⟩
    exact isChild_iff.mpr ⟨job, found, isParent⟩
  case closed =>
    have inQueued : id ∈ queued := by
      rw [← queuedEq]
      exact mem_select.mpr ⟨job, found, isQueued⟩
    exact saturate_closed (le_refl _) inBlocked inQueued
      (isChild_iff.mpr ⟨job, found, isParent⟩)

variable {blocked : List JobId}

theorem Settled.job_of_mem
    (settled : Settled before after now parents blocked)
    (member : id ∈ blocked) :
    ∃ old, before.job id = some old ∧ old.state.isQueued = true ∧
      after.job id = some (old.block now) := by
  obtain ⟨old, found, queued⟩ := settled.queued id member
  refine ⟨old, found, queued, ?_⟩
  rw [settled.rows, found, Option.map_some, if_pos member]

theorem Settled.job_of_not_mem
    (settled : Settled before after now parents blocked)
    (notMember : id ∉ blocked) :
    after.job id = before.job id := by
  rw [settled.rows]
  simp [notMember]

theorem Settled.noOrphan
    (settled : Settled before after now parents blocked)
    (under : OrphansUnder parents before) :
    NoOrphan after := by
  intro id job parentId parent found queued isParent parentFound ended
  by_cases isBlocked : id ∈ blocked
  · obtain ⟨_, _, _, row⟩ := settled.job_of_mem isBlocked
    rw [found] at row
    cases row
    cases queued
  rw [settled.job_of_not_mem isBlocked] at found
  refine (isBlocked ?_).elim
  by_cases parentBlocked : parentId ∈ blocked
  · exact settled.closed id job parentId found queued isParent parentBlocked
  · rw [settled.job_of_not_mem parentBlocked] at parentFound
    have inParents :=
      under id job parentId parent found queued isParent parentFound ended
    exact settled.seeds id job parentId found queued isParent inParents
      (Store.parentEnded_eq_true.mpr ⟨parent, parentFound, ended⟩)

theorem Settled.parent_ended
    {job : Job}
    (settled : Settled before after now parents blocked)
    (member : id ∈ blocked)
    (found : after.job id = some job) :
    ∃ parentId parent, job.parentId = some parentId ∧
      after.job parentId = some parent ∧ parent.state.endedBadly = true := by
  obtain ⟨old, oldFound, _, row⟩ := settled.job_of_mem member
  rw [found] at row
  cases row
  obtain ⟨parentId, isParent, inBlocked | ⟨_, ended⟩⟩ :=
    settled.below id member old oldFound
  · obtain ⟨_, _, _, parentRow⟩ := settled.job_of_mem inBlocked
    exact ⟨parentId, _, isParent, parentRow, rfl⟩
  · obtain ⟨parent, parentFound, parentBad⟩ := Store.parentEnded_eq_true.mp ended
    have notBlocked : parentId ∉ blocked := by
      intro inBlocked
      obtain ⟨_, blockedFound, queued, _⟩ := settled.job_of_mem inBlocked
      rw [parentFound] at blockedFound
      cases blockedFound
      rw [(JobState.not_live_of_endedBadly parentBad).1] at queued
      cases queued
    exact ⟨parentId, parent, isParent,
      (settled.job_of_not_mem notBlocked).trans parentFound, parentBad⟩

/-! ## Statements that add no orphans -/

/--
A change ends no job badly, and puts jobs in the queue only under parents that
have not ended badly or are still to be settled.
-/
structure AddsNoOrphans
    (parents : List JobId)
    (before after : Store) : Prop where
  endsNone : ∀ id job, after.job id = some job →
    job.state.endedBadly = true →
      ∃ old, before.job id = some old ∧ old.state.endedBadly = true
  queues : ∀ id job parentId, after.job id = some job →
    job.state.isQueued = true → job.parentId = some parentId →
      (∃ old, before.job id = some old ∧ old.state.isQueued = true ∧
        old.parentId = some parentId) ∨
        parentId ∈ parents ∨ before.parentEnded (some parentId) = false

theorem AddsNoOrphans.orphansUnder
    (adds : AddsNoOrphans parents before after)
    (under : OrphansUnder parents before) :
    OrphansUnder parents after := by
  intro id job parentId parent found queued isParent parentFound ended
  obtain ⟨oldParent, oldParentFound, oldEnded⟩ :=
    adds.endsNone parentId parent parentFound ended
  rcases adds.queues id job parentId found queued isParent with
    ⟨old, oldFound, oldQueued, oldIsParent⟩ | inParents | notEnded
  · exact under id old parentId oldParent oldFound oldQueued oldIsParent
      oldParentFound oldEnded
  · exact inParents
  · have := Store.parentEnded_eq_false.mp notEnded oldParent oldParentFound
    exact Bool.noConfusion (this.symm.trans oldEnded)

theorem AddsNoOrphans.parentEnded
    {parentId : Option JobId}
    (adds : AddsNoOrphans parents before after)
    (notEnded : before.parentEnded parentId = false) :
    after.parentEnded parentId = false := by
  cases parentId with
  | none =>
      rfl
  | some parentId =>
      rw [Store.parentEnded_eq_false] at notEnded ⊢
      intro parent found
      rw [Bool.eq_false_iff]
      intro ended
      obtain ⟨old, oldFound, oldEnded⟩ := adds.endsNone parentId parent found ended
      exact Bool.noConfusion ((notEnded old oldFound).symm.trans oldEnded)

/-- A row that neither ends badly nor enters the queue. -/
structure Job.StaysPut (old new : Job) : Prop where
  endsNot : new.state.endedBadly = true → old.state.endedBadly = true
  entersNot : new.state.isQueued = true → old.state.isQueued = true
  sameParent : new.parentId = old.parentId

theorem AddsNoOrphans.of_rows
    (rows : ∀ id new, after.job id = some new →
      ∃ old, before.job id = some old ∧ old.StaysPut new) :
    AddsNoOrphans parents before after where
  endsNone := by
    intro id job found ended
    obtain ⟨old, oldFound, stays⟩ := rows id job found
    exact ⟨old, oldFound, stays.endsNot ended⟩
  queues := by
    intro id job parentId found queued isParent
    obtain ⟨old, oldFound, stays⟩ := rows id job found
    exact Or.inl ⟨old, oldFound, stays.entersNot queued,
      stays.sameParent.symm.trans isParent⟩

theorem Job.StaysPut.rfl
    {job : Job} :
    job.StaysPut job :=
  ⟨id, id, Eq.refl _⟩

theorem AddsNoOrphans.of_same
    (same : ∀ id, after.job id = before.job id) :
    AddsNoOrphans parents before after :=
  AddsNoOrphans.of_rows fun id new found =>
    ⟨new, (same id).symm.trans found, Job.StaysPut.rfl⟩

theorem addsNoOrphans_of_update
    {condition : JobId → Job → Bool}
    {change : JobId → Job → Job}
    (updated : store.updateJobs condition change = .ok after)
    (stays : ∀ id job, condition id job = true → job.StaysPut (change id job)) :
    AddsNoOrphans parents store after := by
  refine AddsNoOrphans.of_rows fun id new found => ?_
  rw [Store.job_of_updateJobs updated] at found
  obtain ⟨old, oldFound, rfl⟩ := Option.map_eq_some_iff.mp found
  refine ⟨old, oldFound, ?_⟩
  split
  · rename_i touched
    exact stays id old touched
  · exact Job.StaysPut.rfl

theorem addsNoOrphans_of_rewrites
    {old new : Job}
    (rewrites : Rewrites store after id old new)
    (endsNot : new.state.endedBadly = true → old.state.endedBadly = true)
    (enters : new.state.isQueued = true →
      old.state.isQueued = true ∧ new.parentId = old.parentId ∨
        ∀ parentId, new.parentId = some parentId →
          parentId ∈ parents ∨ store.parentEnded (some parentId) = false) :
    AddsNoOrphans parents store after where
  endsNone := by
    intro other job found ended
    by_cases sameId : other = id
    · subst sameId
      rw [rewrites.row] at found
      cases found
      exact ⟨old, rewrites.found, endsNot ended⟩
    · exact ⟨job, (rewrites.others other sameId).symm.trans found, ended⟩
  queues := by
    intro other job parentId found queued isParent
    by_cases sameId : other = id
    · subst sameId
      rw [rewrites.row] at found
      cases found
      rcases enters queued with ⟨oldQueued, sameParent⟩ | mayEnter
      · exact Or.inl ⟨old, rewrites.found, oldQueued,
          sameParent.symm.trans isParent⟩
      · exact Or.inr (mayEnter parentId isParent)
    · exact Or.inl ⟨job, (rewrites.others other sameId).symm.trans found,
        queued, isParent⟩

/-- A request may be put in the queue under its parent. -/
def MayQueue
    (store : Store)
    (parents : List JobId)
    (parentId : Option JobId) : Prop :=
  ∀ id, parentId = some id →
    id ∈ parents ∨ store.parentEnded (some id) = false

theorem MayQueue.of_not_parentEnded
    {parentId : Option JobId}
    (notEnded : store.parentEnded parentId = false) :
    MayQueue store parents parentId := by
  intro id isParent
  rw [← isParent]
  exact Or.inr notEnded

theorem TakenOn.addsNoOrphans
    {intent : QueueIntent}
    {acceptance : Acceptance}
    (taken : TakenOn before now id intent after acceptance)
    (mayQueue : before.existing intent = none →
      MayQueue before parents intent.parentId) :
    AddsNoOrphans parents before after := by
  cases taken with
  | joined _ _ =>
      exact AddsNoOrphans.of_same fun _ => rfl
  | dropped _ =>
      exact AddsNoOrphans.of_same fun _ => rfl
  | parked _ _ _ rewrites =>
      exact addsNoOrphans_of_rewrites rewrites (fun ended => ended)
        fun queued => Or.inl ⟨queued, rfl⟩
  | overwrote _ _ _ rewrites =>
      exact addsNoOrphans_of_rewrites rewrites (fun ended => ended)
        fun queued => Or.inl ⟨queued, rfl⟩
  | rearmed conflicts _ rewrites =>
      exact addsNoOrphans_of_rewrites rewrites (fun ended => by cases ended)
        fun _ => Or.inr (mayQueue conflicts.absent)
  | inserted absent _ insertion =>
      refine { endsNone := ?_, queues := ?_ }
      · intro other job found ended
        rw [Store.job_of_insertJob insertion] at found
        split at found
        · cases found
          cases ended
        · exact ⟨job, found, ended⟩
      · intro other job parentId found queued isParent
        rw [Store.job_of_insertJob insertion] at found
        split at found
        · cases found
          exact Or.inr (mayQueue absent parentId isParent)
        · exact Or.inl ⟨job, found, queued, isParent⟩

theorem TakenOn.existing_eq_none
    {intent other : QueueIntent}
    {acceptance : Acceptance}
    (taken : TakenOn before now id intent after acceptance)
    (absent : after.existing other = none) :
    before.existing other = none := by
  rw [Store.existing_eq_none_iff] at absent ⊢
  intro hasIdentity jobId job found has
  obtain ⟨new, newFound, row⟩ := taken.row found
  refine absent hasIdentity jobId new newFound ?_
  cases row with
  | same | parked _ | overwritten _ _ _ =>
      exact ⟨has.sameQueue, has.sameKey, has.live⟩
  | rearmed _ finished =>
      have notLive := (rearmable_iff.mp finished).2.2.2.2.2.1
      exact Bool.noConfusion (notLive.symm.trans has.live)

theorem orphansUnder_of_insertIntents
    {intents : List (JobId × QueueIntent)}
    {acceptances : List Acceptance}
    (mayQueue : ∀ request ∈ intents, store.existing request.2 = none →
      store.parentEnded request.2.parentId = false)
    (taken :
      Store.insertIntents now store intents = .ok (after, acceptances)) :
    (OrphansUnder parents store → OrphansUnder parents after) ∧
      ∀ parentId, store.parentEnded parentId = false →
        after.parentEnded parentId = false := by
  induction intents generalizing store acceptances with
  | nil =>
      cases taken
      exact ⟨id, fun _ => id⟩
  | cons request rest inductionHypothesis =>
      obtain ⟨id, intent⟩ := request
      obtain ⟨⟨middle, acceptance⟩, first, remaining⟩ := bind_eq_ok.mp taken
      obtain ⟨⟨last, others⟩, tail, result⟩ := bind_eq_ok.mp remaining
      cases result
      have takenFirst := takenOn_of_insertIntent first
      have adds : AddsNoOrphans parents store middle :=
        takenFirst.addsNoOrphans fun absent =>
          MayQueue.of_not_parentEnded
            (mayQueue (id, intent) List.mem_cons_self absent)
      obtain ⟨under, notEnded⟩ :=
        inductionHypothesis
          (fun request member absent =>
            adds.parentEnded
              (mayQueue request (List.mem_cons_of_mem _ member)
                (takenFirst.existing_eq_none absent)))
          tail
      exact ⟨fun before => under (adds.orphansUnder before),
        fun parentId before => notEnded parentId (adds.parentEnded before)⟩

theorem orphansUnder_of_enqueue
    {intents : List (JobId × QueueIntent)}
    {liveRunId : Option RunId}
    {acceptances : List Acceptance}
    (mayQueue : ∀ request ∈ intents, store.existing request.2 = none →
      store.parentEnded request.2.parentId = false)
    (taken :
      store.enqueue now intents liveRunId = .ok (after, acceptances)) :
    (OrphansUnder parents store → OrphansUnder parents after) ∧
      ∀ parentId, store.parentEnded parentId = false →
        after.parentEnded parentId = false := by
  -- Preparing for the requests changes no job.
  exact @orphansUnder_of_insertIntents
    ((store.createQueues (intents.map Prod.snd)).reopenRuns
      (intents.map Prod.snd) liveRunId)
    after parents now intents acceptances mayQueue taken

end Frameleaf.Queue
