import Frameleaf.Queue.Execution

namespace Frameleaf.Queue

open Outcome Table

/-!
# What becomes of a request

One lemma says everything that taking on a request can do, with what it found
before and the one row it writes.  What is proved about requests goes by these
cases and does not look into the statements again.
-/

variable {store after : Store}

theorem Store.eq_of_sameStage
    {first second : JobId}
    {firstJob secondJob : Job}
    (firstFound : store.job first = some firstJob)
    (secondFound : store.job second = some secondJob)
    (hasRun : firstJob.runId.isSome = true)
    (hasItem : firstJob.itemKey.isSome = true)
    (sameRun : firstJob.runId = secondJob.runId)
    (sameItem : firstJob.itemKey = secondJob.itemKey)
    (sameName : firstJob.name = secondJob.name) :
    first = second :=
  store.jobs.runStage ⟨first, firstJob⟩ (AList.mem_lookup_iff.mp firstFound)
    ⟨second, secondJob⟩ (AList.mem_lookup_iff.mp secondFound)
    hasRun hasItem sameRun sameItem sameName

/-- A request has an identity that can be looked up. -/
def QueueIntent.hasIdentity (intent : QueueIntent) : Bool :=
  intent.key.any (· ≠ "")

/-- A live job has the identity of a request. -/
structure Job.HasIdentityOf
    (intent : QueueIntent)
    (job : Job) : Prop where
  sameQueue : job.queue = intent.queue
  sameKey : job.dedupKey = intent.key
  live : job.state.isLive = true

theorem Store.existing_eq_first
    (store : Store)
    (intent : QueueIntent) :
    store.existing intent =
      if intent.hasIdentity then
        first
          (fun _ job =>
            job.queue = intent.queue && job.dedupKey = intent.key &&
              job.state.isLive)
          store.jobs.rows
      else none := by
  unfold Store.existing QueueIntent.hasIdentity
  cases intent.key with
  | none =>
      rfl
  | some key =>
      by_cases empty : key = "" <;> simp [empty]

variable {intent latest : QueueIntent} {id other : JobId} {job old new : Job}

theorem Store.existing_eq_some
    (found : store.existing intent = some (id, job)) :
    store.job id = some job ∧ job.HasIdentityOf intent ∧
      intent.hasIdentity = true := by
  rw [Store.existing_eq_first] at found
  split at found
  · rename_i hasIdentity
    obtain ⟨inTable, holds⟩ := first_eq_some found
    simp only [Bool.and_eq_true, decide_eq_true_eq] at holds
    exact ⟨inTable, ⟨holds.1.1, holds.1.2, holds.2⟩, hasIdentity⟩
  · cases found

theorem Store.existing_eq_none_iff :
    store.existing intent = none ↔
      (intent.hasIdentity = true → ∀ id job, store.job id = some job →
        ¬job.HasIdentityOf intent) := by
  rw [Store.existing_eq_first]
  split
  · rename_i hasIdentity
    simp only [first_eq_none_iff, hasIdentity, forall_const]
    refine forall_congr' fun id => forall_congr' fun job =>
      imp_congr_right fun _ => ?_
    constructor
    · rintro notMatching ⟨sameQueue, sameKey, live⟩
      simp [sameQueue, sameKey, live] at notMatching
    · intro notIdentity
      rw [Bool.eq_false_iff]
      intro holds
      simp only [Bool.and_eq_true, decide_eq_true_eq] at holds
      exact notIdentity ⟨holds.1.1, holds.1.2, holds.2⟩
  · rename_i noIdentity
    simp [noIdentity]

theorem JobState.isQueued_of_live
    {state : JobState}
    (live : state.isLive = true)
    (notActive : state.isActive = false) :
    state.isQueued = true := by
  simpa [JobState.isLive, notActive] using live

theorem JobState.not_live_of_endedBadly
    {state : JobState}
    (ended : state.endedBadly = true) :
    state.isQueued = false ∧ state.isActive = false := by
  cases state <;> simp_all [endedBadly, isQueued, isActive]

theorem rearmable_iff :
    rearmable intent job = true ↔
      intent.runId.isSome = true ∧ job.runId = intent.runId ∧
        intent.itemKey.isSome = true ∧ job.itemKey = intent.itemKey ∧
          job.name = intent.name ∧ job.state.isLive = false ∧
            (job.state = .cancelled ∨
              intent.parentId.isSome = true ∧
                job.parentId = intent.parentId) := by
  simp [rearmable, and_assoc]

theorem Store.eq_of_rearmable
    {first second : JobId}
    {firstJob secondJob : Job}
    (firstFound : store.job first = some firstJob)
    (secondFound : store.job second = some secondJob)
    (firstRearmable : rearmable intent firstJob = true)
    (secondRearmable : rearmable intent secondJob = true) :
    first = second := by
  obtain ⟨hasRun, firstRun, hasItem, firstItem, firstName, _⟩ :=
    rearmable_iff.mp firstRearmable
  obtain ⟨_, secondRun, _, secondItem, secondName, _⟩ :=
    rearmable_iff.mp secondRearmable
  exact Store.eq_of_sameStage firstFound secondFound
    (firstRun ▸ hasRun) (firstItem ▸ hasItem)
    (firstRun.trans secondRun.symm) (firstItem.trans secondItem.symm)
    (firstName.trans secondName.symm)

/-- One row is rewritten, and nothing else in the store. -/
structure Rewrites
    (before after : Store)
    (id : JobId)
    (old new : Job) : Prop where
  found : before.job id = some old
  row : after.job id = some new
  others : ∀ other, other ≠ id → after.job other = before.job other
  tables : after = { before with jobs := after.jobs }

theorem Rewrites.of_update
    {change : JobId → Job → Job}
    (found : store.job id = some job)
    (update :
      store.updateJobs (fun other _ => other = id) change = .ok after) :
    Rewrites store after id job (change id job) where
  found := found
  row := by
    rw [Store.job_of_updateJobs update, found]
    simp
  others := by
    intro other apart
    rw [Store.job_of_updateJobs update]
    simp [apart]
  tables := Store.eq_of_updateJobs update

/-- What a request without a live job of its identity meets in the table. -/
structure Store.Conflicts
    (store : Store)
    (id : JobId)
    (intent : QueueIntent) : Prop where
  absent : store.existing intent = none
  conflict : store.conflicts id intent = true

/-- Everything that taking on one request can do. -/
inductive TakenOn
    (store : Store)
    (now : Time)
    (id : JobId)
    (intent : QueueIntent) :
    Store → Acceptance → Prop where
  | joined {existingId : JobId} {existing : Job}
      (found : store.existing intent = some (existingId, existing))
      (joins :
        intent.keepLastIfActive = false ∨
          existing.state.isQueued = true ∧
            sharedSealing intent existing = true) :
      TakenOn store now id intent store .coalesced
  | dropped (conflicts : store.Conflicts id intent) :
      TakenOn store now id intent store .coalesced
  | parked {after : Store} {existingId : JobId} {existing : Job}
      (found : store.existing intent = some (existingId, existing))
      (keepsLast : intent.keepLastIfActive = true)
      (settlesFirst :
        existing.state.isActive = true ∨ existing.ownsProducerState = true)
      (rewrites :
        Rewrites store after existingId existing (existing.park intent)) :
      TakenOn store now id intent after (.parked existingId)
  | overwrote {after : Store} {existingId : JobId} {existing : Job}
      (found : store.existing intent = some (existingId, existing))
      (keepsLast : intent.keepLastIfActive = true)
      (queued : existing.state.isQueued = true)
      (rewrites :
        Rewrites store after existingId existing
          (existing.overwrite (store.intentAvailability now intent) intent)) :
      TakenOn store now id intent after (.overwrote existingId)
  | inserted {after : Store}
      (absent : store.existing intent = none)
      (noConflict : store.conflicts id intent = false)
      (insertion :
        store.insertJob id
            (intent.toJob (store.intentAvailability now intent) now) =
          .ok after) :
      TakenOn store now id intent after (.inserted id)
  | rearmed {after : Store} {rowId : JobId} {row : Job}
      (conflicts : store.Conflicts id intent)
      (finished : rearmable intent row = true)
      (rewrites :
        Rewrites store after rowId row
          (row.rearm (store.intentAvailability now intent) intent)) :
      TakenOn store now id intent after (.rearmed rowId)

variable {now : Time} {acceptance : Acceptance}

theorem takenOn_of_rearmRunStage
    (conflicts : store.Conflicts id intent)
    (rearmed : store.rearmRunStage now intent = .ok (after, acceptance)) :
    TakenOn store now id intent after acceptance := by
  unfold Store.rearmRunStage at rearmed
  split at rearmed
  · cases rearmed
    exact TakenOn.dropped conflicts
  · rename_i rowId row found
    obtain ⟨_, _, rest⟩ := bind_eq_ok.mp rearmed
    obtain ⟨updated, update, result⟩ := bind_eq_ok.mp rest
    cases result
    obtain ⟨rowFound, finished⟩ := first_eq_some found
    refine TakenOn.rearmed conflicts finished
      { found := rowFound
        row := ?_
        others := fun other apart => ?_
        tables := Store.eq_of_updateJobs update }
    · rw [Store.job_of_updateJobs update, Store.job, rowFound]
      simp [finished]
    · rw [Store.job_of_updateJobs update]
      cases otherFound : store.job other with
      | none =>
          rfl
      | some job =>
          have notFinished : rearmable intent job = false := by
            by_contra isFinished
            rw [Bool.not_eq_false] at isFinished
            exact apart
              (Store.eq_of_rearmable otherFound rowFound isFinished finished)
          simp [notFinished]

/-- Taking on a request does one of the listed things. -/
theorem takenOn_of_insertIntent
    (taken : store.insertIntent now id intent = .ok (after, acceptance)) :
    TakenOn store now id intent after acceptance := by
  unfold Store.insertIntent at taken
  cases found : store.existing intent with
  | none =>
      simp only [found] at taken
      unfold Store.insertRow at taken
      split at taken
      · rename_i conflict
        have conflicts : store.Conflicts id intent :=
          { absent := found, conflict := conflict }
        split at taken
        · exact takenOn_of_rearmRunStage conflicts taken
        · cases taken
          exact TakenOn.dropped conflicts
      · rename_i noConflict
        obtain ⟨_, _, rest⟩ := bind_eq_ok.mp taken
        obtain ⟨updated, insertion, result⟩ := bind_eq_ok.mp rest
        cases result
        exact TakenOn.inserted found (by simpa using noConflict) insertion
  | some entry =>
      obtain ⟨existingId, existing⟩ := entry
      obtain ⟨inTable, ⟨_, _, live⟩, _⟩ := Store.existing_eq_some found
      simp only [found] at taken
      split at taken
      · rename_i noLast
        cases taken
        exact TakenOn.joined found (Or.inl (by simpa using noLast))
      rename_i keepsLast
      split at taken
      · rename_i settlesFirst
        obtain ⟨updated, update, result⟩ := bind_eq_ok.mp taken
        cases result
        exact TakenOn.parked found (by simpa using keepsLast)
          (by simpa using settlesFirst) (Rewrites.of_update inTable update)
      rename_i notSettling
      simp only [Bool.or_eq_true, not_or, Bool.not_eq_true] at notSettling
      have queued := JobState.isQueued_of_live live notSettling.1
      split at taken
      · rename_i shared
        cases taken
        exact TakenOn.joined found (Or.inr ⟨queued, shared⟩)
      · obtain ⟨_, _, rest⟩ := bind_eq_ok.mp taken
        obtain ⟨updated, update, result⟩ := bind_eq_ok.mp rest
        cases result
        exact TakenOn.overwrote found (by simpa using keepsLast) queued
          (Rewrites.of_update inTable update)

/-- What taking on a request can do to a job that is there already. -/
inductive RowTaken (intent : QueueIntent) : Job → Job → Prop where
  | same {job : Job} : RowTaken intent job job
  | parked {job : Job} (has : job.HasIdentityOf intent) :
      RowTaken intent job (job.park intent)
  | overwritten {job : Job} (availableAt : Availability)
      (has : job.HasIdentityOf intent) (queued : job.state.isQueued = true) :
      RowTaken intent job (job.overwrite availableAt intent)
  | rearmed {job : Job} (availableAt : Availability)
      (finished : rearmable intent job = true) :
      RowTaken intent job (job.rearm availableAt intent)

theorem Store.job_of_not_conflicts
    (noConflict : store.conflicts id intent = false) :
    store.job id = none := by
  simp only [Store.conflicts, Bool.or_eq_false_iff] at noConflict
  simpa using noConflict.1.1

theorem Rewrites.row_cases
    (rewrites : Rewrites store after id old new)
    (found : store.job other = some job) :
    after.job other = some job ∨ job = old ∧ after.job other = some new := by
  by_cases sameId : other = id
  · subst sameId
    rw [rewrites.found] at found
    cases found
    exact Or.inr ⟨rfl, rewrites.row⟩
  · exact Or.inl ((rewrites.others other sameId).trans found)

theorem TakenOn.row
    (taken : TakenOn store now id intent after acceptance)
    (found : store.job other = some old) :
    ∃ new, after.job other = some new ∧ RowTaken intent old new := by
  cases taken with
  | joined _ _ =>
      exact ⟨old, found, RowTaken.same⟩
  | dropped _ =>
      exact ⟨old, found, RowTaken.same⟩
  | parked existing _ _ rewrites =>
      rcases rewrites.row_cases found with same | ⟨rfl, row⟩
      · exact ⟨old, same, RowTaken.same⟩
      · exact ⟨_, row, RowTaken.parked (Store.existing_eq_some existing).2.1⟩
  | overwrote existing _ queued rewrites =>
      rcases rewrites.row_cases found with same | ⟨rfl, row⟩
      · exact ⟨old, same, RowTaken.same⟩
      · exact ⟨_, row, RowTaken.overwritten _
          (Store.existing_eq_some existing).2.1 queued⟩
  | inserted _ noConflict insertion =>
      have fresh := Store.job_of_not_conflicts noConflict
      have row := Store.job_of_insertJob insertion other
      rw [if_neg (by rintro rfl; rw [fresh] at found; cases found)] at row
      exact ⟨old, row.trans found, RowTaken.same⟩
  | rearmed _ finished rewrites =>
      rcases rewrites.row_cases found with same | ⟨rfl, row⟩
      · exact ⟨old, same, RowTaken.same⟩
      · exact ⟨_, row, RowTaken.rearmed _ finished⟩

theorem TakenOn.row_before
    (taken : TakenOn store now id intent after acceptance)
    (found : after.job other = some new) :
    (∃ old, store.job other = some old ∧ RowTaken intent old new) ∨
      ∃ availableAt, new = intent.toJob availableAt now := by
  cases before : store.job other with
  | some old =>
      obtain ⟨row, rowFound, rowTaken⟩ := taken.row before
      rw [found] at rowFound
      cases rowFound
      exact Or.inl ⟨old, rfl, rowTaken⟩
  | none =>
      have rewritten :
          ∀ {rowId : JobId} {old row : Job},
            Rewrites store after rowId old row → False := by
        intro rowId old row rewrites
        by_cases sameId : other = rowId
        · subst sameId
          rw [rewrites.found] at before
          cases before
        · rw [rewrites.others other sameId, before] at found
          cases found
      cases taken with
      | joined _ _ | dropped _ =>
          rw [before] at found
          cases found
      | parked _ _ _ rewrites =>
          exact (rewritten rewrites).elim
      | overwrote _ _ _ rewrites =>
          exact (rewritten rewrites).elim
      | rearmed _ _ rewrites =>
          exact (rewritten rewrites).elim
      | inserted _ _ insertion =>
          rw [Store.job_of_insertJob insertion] at found
          split at found
          · cases found
            exact Or.inr ⟨_, rfl⟩
          · rw [before] at found
            cases found

/-- The store in which one request is taken on. -/
def Store.preparedFor
    (store : Store)
    (intent : QueueIntent)
    (liveRunId : Option RunId := none) : Store :=
  (store.createQueues [intent]).reopenRuns [intent] liveRunId

theorem rearmable_withoutParent
    (finished : rearmable (latest.withoutParent id) job = true) :
    sameRunStage latest job = true := by
  obtain ⟨hasRun, sameRun, hasItem, sameItem, sameName, _⟩ :=
    rearmable_iff.mp finished
  unfold QueueIntent.withoutParent at hasRun sameRun hasItem sameItem sameName
  split at hasRun
  all_goals simp_all [sameRunStage]

/-- Everything that can become of a request when its predecessor settled. -/
inductive LatestInstalled
    (store : Store)
    (now : Time)
    (previousId freshId : JobId)
    (latest : QueueIntent) :
    Store → Prop where
  | ran {updated : Store} {previous : Job}
      (fits : sameRunStage latest previous = true)
      (rewrites :
        Rewrites store updated previousId previous
          (previous.runLatest (store.intentAvailability now latest) latest)) :
      LatestInstalled store now previousId freshId latest
        (updated.reopenRuns [latest] none)
  | took {after : Store} {acceptance : Acceptance}
      (apart : ∀ previous, store.job previousId = some previous →
        sameRunStage latest previous = false)
      (taken :
        TakenOn (store.preparedFor (latest.withoutParent previousId)) now
          freshId (latest.withoutParent previousId) after acceptance) :
      LatestInstalled store now previousId freshId latest after

theorem latestInstalled
    {previousId freshId : JobId}
    (installed :
      store.installLatest now previousId freshId latest = .ok after) :
    LatestInstalled store now previousId freshId latest after := by
  unfold Store.installLatest at installed
  split at installed
  · rename_i fits
    obtain ⟨previous, found, fits⟩ := (Option.any_eq_true _ _).mp fits
    obtain ⟨updated, update, result⟩ := bind_eq_ok.mp installed
    cases result
    exact LatestInstalled.ran fits (Rewrites.of_update found update)
  · rename_i apart
    obtain ⟨⟨updated, _⟩, enqueued, result⟩ := bind_eq_ok.mp installed
    cases result
    obtain ⟨⟨last, acceptance⟩, taken, rest⟩ := bind_eq_ok.mp enqueued
    cases rest
    refine LatestInstalled.took (fun previous found => ?_)
      (takenOn_of_insertIntent taken)
    simpa [found] using apart

end Frameleaf.Queue
