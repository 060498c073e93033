import Frameleaf.Manager.ImportLaws

namespace Frameleaf.Manager

open Table Trace Outcome

/-!
# Writers start over a settled import

A started run has a sealed plan, exactly the plan's files as verified transfers
and a verification that matches its binding.  From then on no call changes any
of these, and none undoes or cancels a transfer.
-/

variable {isUuid : String → Bool} {planSha256 : ImportPlan → String}
variable {journal after : Journal isUuid}

/-- Everything that the writers of a run rely on. -/
structure Settled
    (journal : Journal isUuid)
    (id : OperationId)
    (review : ReviewRow isUuid) : Prop where
  verified : ∀ fileId row,
    journal.transfers.lookup (id, fileId) = some row →
      row.state = .verified
  covers : ∀ file ∈ review.plan.val.files, ∃ row,
    journal.transfers.lookup (id, file.id) = some row ∧ row.value.val = file
  isVerified : review.verification.isSome = true

/-- The identifiers of the transfers of a run. -/
def Journal.fileIds
    (journal : Journal isUuid)
    (id : OperationId) : List FileId :=
  (journal.transfers.entries.filter fun entry => entry.1.1 == id).map
    fun entry => entry.1.2

theorem length_fileIds
    (id : OperationId) :
    (journal.fileIds id).length = (journal.files id).length := by
  simp [Journal.fileIds, Journal.files]

variable {id : OperationId} {fileId : FileId}

theorem mem_fileIds :
    fileId ∈ journal.fileIds id ↔
      ∃ row, journal.transfers.lookup (id, fileId) = some row := by
  simp only [Journal.fileIds, List.mem_map, List.mem_filter, beq_iff_eq]
  constructor
  · rintro ⟨⟨⟨other, fileId⟩, row⟩, ⟨member, rfl⟩, rfl⟩
    exact ⟨row, AList.mem_lookup_iff.mpr member⟩
  · rintro ⟨row, found⟩
    exact ⟨⟨(id, fileId), row⟩, ⟨AList.mem_lookup_iff.mp found, rfl⟩, rfl⟩

theorem nodup_fileIds
    (id : OperationId) :
    (journal.fileIds id).Nodup := by
  have distinctKeys :
      (journal.transfers.entries.filter fun entry =>
        entry.1.1 == id).Pairwise fun first second => first.1 ≠ second.1 := by
    apply List.Pairwise.filter
    exact List.pairwise_map.mp journal.transfers.nodupKeys
  apply List.pairwise_map.mpr
  apply distinctKeys.imp_of_mem
  intro first second firstIn secondIn different same
  have firstId : first.1.1 = id := by
    simpa using (List.mem_filter.mp firstIn).2
  have secondId : second.1.1 = id := by
    simpa using (List.mem_filter.mp secondIn).2
  exact different (Prod.ext (firstId.trans secondId.symm) same)

theorem covers_of_complete
    {plan : ParsedPlan isUuid}
    {file : ImportTransfer}
    (invariant : JournalInvariant planSha256 journal)
    (complete : Complete journal id plan.val)
    (member : file ∈ plan.val.files) :
    ∃ row, journal.transfers.lookup (id, file.id) = some row ∧
      row.value.val = file := by
  have within :
      journal.fileIds id ⊆ plan.val.files.map ImportTransfer.id := by
    intro fileId isFile
    obtain ⟨row, found⟩ := mem_fileIds.mp isFile
    rw [← invariant.fileId id fileId row found]
    exact List.mem_map_of_mem
      (mem_of_isPlanned (complete.planned fileId row found))
  have sameNumber :
      (plan.val.files.map ImportTransfer.id).length ≤
        (journal.fileIds id).length := by
    rw [length_fileIds, complete.sameNumber, List.length_map]
  have same :
      (journal.fileIds id).Perm (plan.val.files.map ImportTransfer.id) :=
    (List.subperm_of_subset (nodup_fileIds id) within).perm_of_length_le
      sameNumber
  obtain ⟨row, found⟩ :=
    mem_fileIds.mp (same.mem_iff.mpr (List.mem_map_of_mem member))
  have inPlan := mem_of_isPlanned (complete.planned file.id row found)
  exact ⟨row, found,
    List.inj_on_of_nodup_map plan.distinctFiles inPlan member
      (invariant.fileId id file.id row found)⟩

/-- The writers of a run start only when it is settled. -/
def StartedSettled
    (journal : Journal isUuid) : Prop :=
  ∀ id run, journal.runs.lookup id = some run →
    run.writersStarting = true →
      ∃ review, journal.reviews.lookup id = some review ∧
        Settled journal id review

variable {run : ImportRun}

theorem not_goesOn
    {other : ImportRun}
    (isRun : journal.runs.lookup id = some run)
    (started : run.writersStarting = true)
    (goesOn : GoesOn journal id other) : False := by
  have same : other = run := Option.some.inj (goesOn.isRun.symm.trans isRun)
  have notStarted := goesOn.notStarted
  rw [same, started] at notStarted
  cases notStarted

/-- Nothing that a started run has is written. -/
structure Frozen
    (journal after : Journal isUuid)
    (id : OperationId) : Prop where
  transfers : ∀ fileId,
    after.transfers.lookup (id, fileId) =
      journal.transfers.lookup (id, fileId)
  review : after.reviews.lookup id = journal.reviews.lookup id
  started : ∃ run, after.runs.lookup id = some run ∧
    run.writersStarting = true

theorem Writes.frozen
    (writes : Writes planSha256 journal after)
    (settled : StartedSettled journal)
    (isRun : journal.runs.lookup id = some run)
    (started : run.writersStarting = true) :
    Frozen journal after id := by
  constructor
  · intro fileId
    cases was : journal.transfers.lookup (id, fileId) with
    | none =>
        cases found : after.transfers.lookup (id, fileId) with
        | none =>
            rfl
        | some row =>
            obtain ⟨other, goesOn⟩ := (writes.transferNew was found).goesOn
            exact absurd goesOn (not_goesOn isRun started)
    | some row =>
        obtain ⟨later, isLater, keeps⟩ := writes.transferKept was
        rcases keeps.state with rfl | ⟨⟨other, goesOn⟩, _⟩
        · exact isLater
        · exact absurd goesOn (not_goesOn isRun started)
  · obtain ⟨review, isReview, _⟩ := settled id run isRun started
    obtain ⟨later, isLater, keeps⟩ := writes.reviewKept isReview
    rcases keeps.verification with rfl | ⟨other, _, goesOn, _⟩
    · rw [isLater, isReview]
    · exact absurd goesOn (not_goesOn isRun started)
  · obtain ⟨later, isLater, keeps⟩ := writes.runKept isRun
    refine ⟨later, isLater, ?_⟩
    rcases keeps.started with same | ⟨nowStarted, _⟩
    · exact same.trans started
    · exact nowStarted

theorem Writes.startedSettled
    (writes : Writes planSha256 journal after)
    (invariant : JournalInvariant planSha256 journal)
    (settled : StartedSettled journal) :
    StartedSettled after := by
  intro id run isRun started
  cases was : journal.runs.lookup id with
  | none =>
      have notStarted := writes.runNew was isRun
      rw [started] at notStarted
      cases notStarted
  | some earlier =>
      obtain ⟨later, isLater, keeps⟩ := writes.runKept was
      rw [isRun] at isLater
      cases isLater
      rcases keeps.started with same |
          ⟨_, sameTransfers, sameReviews, review, isReview, complete, isVerified⟩
      · have wasStarted : earlier.writersStarting = true :=
          same.symm.trans started
        obtain ⟨review, isReview, isSettled⟩ := settled id earlier was wasStarted
        have frozen := writes.frozen settled was wasStarted
        refine ⟨review, frozen.review.trans isReview, ?_, ?_,
          isSettled.isVerified⟩
        · intro fileId row found
          rw [frozen.transfers] at found
          exact isSettled.verified fileId row found
        · intro file member
          rw [frozen.transfers]
          exact isSettled.covers file member
      · refine ⟨review, sameReviews ▸ isReview, ?_, ?_, isVerified⟩
        · intro fileId row found
          rw [sameTransfers] at found
          exact complete.verified fileId row found
        · intro file member
          rw [sameTransfers]
          exact covers_of_complete invariant complete member

/-- What every reachable system satisfies. -/
structure ImportInvariant
    (planSha256 : ImportPlan → String)
    (system : ImportSystem isUuid) : Prop where
  journal : JournalInvariant planSha256 system.journal
  settled : StartedSettled system.journal
  caches : ∀ caller, CacheCorrect system.journal (system.planned caller)

theorem importInvariant_empty :
    ImportInvariant planSha256 (@emptySystem isUuid) where
  journal := by
    constructor <;> simp [emptySystem, emptyJournal]
  settled := by
    simp [StartedSettled, emptySystem, emptyJournal]
  caches := by
    simp [CacheCorrect, emptySystem]

theorem Writes.cacheCorrect
    {planned : PlannedCache}
    (writes : Writes planSha256 journal after)
    (correct : CacheCorrect journal planned) :
    CacheCorrect after planned := by
  intro id files same
  obtain ⟨review, isReview, rfl⟩ := correct id files same
  obtain ⟨later, isLater, keeps⟩ := writes.reviewKept isReview
  exact ⟨later, isLater, by rw [keeps.plan]⟩

/-- What one call does to the tables and to what the instances remember. -/
structure PerformEffect
    (planSha256 : ImportPlan → String)
    (system : ImportSystem isUuid)
    (result : ImportSystem isUuid × Except Refusal Unit) : Prop where
  call : CallEffect planSha256 system.journal (result.1.journal, result.2)
  caches : ∀ caller, CacheCorrect system.journal (result.1.planned caller)

variable {system : ImportSystem isUuid}

/-- Every call makes one write at most, with all of its checks. -/
theorem performEffect
    (caches : ∀ caller,
      CacheCorrect system.journal (system.planned caller))
    (step : ImportStep) :
    PerformEffect planSha256 system (system.perform planSha256 step) := by
  cases step with
  | operations rows =>
      exact ⟨⟨.operations rows, by simp [ImportSystem.perform]⟩, caches⟩
  | construct caller =>
      refine ⟨⟨.kept, by simp [ImportSystem.perform]⟩, ?_⟩
      intro other
      by_cases same : other = caller
      · subst same
        simp [ImportSystem.perform, CacheCorrect]
      · simpa [ImportSystem.perform, same] using caches other
  | begin id binding available =>
      exact ⟨callEffect_begin id binding available, caches⟩
  | sealPlan id input available =>
      exact ⟨callEffect_sealPlan id input available, caches⟩
  | recordVerification id input available =>
      exact ⟨callEffect_recordVerification id input available, caches⟩
  | intent caller id input available =>
      simp only [ImportSystem.perform, ImportSystem.intent]
      split
      · exact ⟨callEffect_refused _, caches⟩
      · next file parsed =>
          refine ⟨callEffect_intent (caches caller), ?_⟩
          intro other
          dsimp only
          split
          · by_cases same : other = caller
            · subst same
              rw [Function.update_self]
              exact cacheCorrect_plannedFiles (caches other)
            · rw [Function.update_of_ne same]
              exact caches other
          · exact caches other
  | verified id fileId receipt available =>
      have moved :
          CallEffect planSha256 system.journal
            (system.journal.verified id fileId receipt available) :=
        callEffect_transition .verified
      exact ⟨moved, caches⟩
  | rollbackIntent id fileId available =>
      have moved :
          CallEffect planSha256 system.journal
            (system.journal.rollbackIntent id fileId available) :=
        callEffect_transition .rollbackIntent
      exact ⟨moved, caches⟩
  | cancelIntent id fileId receipt available =>
      exact ⟨callEffect_cancelIntent id fileId receipt available, caches⟩
  | rolledBack id fileId receipt available =>
      have moved :
          CallEffect planSha256 system.journal
            (system.journal.rolledBack id fileId receipt available) :=
        callEffect_transition .rolledBack
      exact ⟨moved, caches⟩
  | writersStarting id available =>
      exact ⟨callEffect_writersStarting id available, caches⟩
  | abandon id available =>
      exact ⟨callEffect_abandon id available, caches⟩

theorem importInvariant_perform
    (invariant : ImportInvariant planSha256 system)
    (step : ImportStep) :
    ImportInvariant planSha256 (system.perform planSha256 step).1 := by
  have effect := @performEffect _ planSha256 _ invariant.caches step
  have writes := effect.call.writes
  exact ⟨writes.invariant invariant.journal,
    writes.startedSettled invariant.journal invariant.settled,
    fun caller => writes.cacheCorrect (effect.caches caller)⟩

/-- The system after a run of calls. -/
def importReached
    (planSha256 : ImportPlan → String)
    (steps : List ImportStep) : ImportSystem isUuid :=
  finalState (ImportSystem.perform planSha256) emptySystem steps

theorem importInvariant_reached
    (steps : List ImportStep) :
    ImportInvariant planSha256 (@importReached isUuid planSha256 steps) := by
  apply invariant_of_kept
  · intro system step invariant
    exact importInvariant_perform invariant step
  · exact importInvariant_empty

/-- A call that undoes or cancels a transfer of a run. -/
def ImportStep.undoes
    (id : OperationId) : ImportStep → Bool
  | .rollbackIntent other .. | .cancelIntent other .. | .rolledBack other .. =>
      other == id
  | _ => false

theorem move_refused
    {agrees : ImportTransfer → Bool}
    {origin target : TransferState}
    {available : Bool}
    (isRun : journal.runs.lookup id = some run)
    (started : run.writersStarting = true) :
    ∃ refusal,
      (journal.atomic id available
        (moveBody id fileId agrees origin target)).2 = .error refusal := by
  rcases atomic_cases journal id available
      (moveBody id fileId agrees origin target) with
    ⟨checked, _, _⟩ | ⟨refusal, rolledBack⟩
  · obtain ⟨other, isOther, _⟩ := bind_eq_ok.mp checked
    exact absurd (goesOn_of_run isOther) (not_goesOn isRun started)
  · exact ⟨refusal, by rw [rolledBack]⟩

theorem transition_refused
    {origin target : TransferState}
    {receipt : Option (Input Receipt)}
    {available : Bool}
    (isRun : journal.runs.lookup id = some run)
    (started : run.writersStarting = true) :
    ∃ refusal,
      (journal.transition id fileId origin target receipt available).2 =
        .error refusal := by
  unfold Journal.transition
  split
  · split
    · exact ⟨_, rfl⟩
    · exact move_refused isRun started
  · split
    · exact ⟨_, rfl⟩
    · exact move_refused isRun started

theorem undo_refused
    {step : ImportStep}
    (isRun : system.journal.runs.lookup id = some run)
    (started : run.writersStarting = true)
    (undoes : step.undoes id = true) :
    ∃ refusal, (system.perform planSha256 step).2 = .error refusal := by
  cases step with
  | rollbackIntent other fileId available =>
      obtain rfl : other = id := by simpa [ImportStep.undoes] using undoes
      exact transition_refused isRun started
  | rolledBack other fileId receipt available =>
      obtain rfl : other = id := by simpa [ImportStep.undoes] using undoes
      exact transition_refused isRun started
  | cancelIntent other fileId receipt available =>
      obtain rfl : other = id := by simpa [ImportStep.undoes] using undoes
      simp only [ImportSystem.perform, ImportSystem.call, Journal.cancelIntent]
      split
      · exact ⟨_, rfl⟩
      · exact move_refused isRun started
  | operations rows | construct caller | begin | sealPlan
  | recordVerification | intent | verified | writersStarting | abandon =>
      cases undoes

/-- What holds after every run of calls, and of any further call. -/
structure ImportLaws
    (planSha256 : ImportPlan → String)
    (system : ImportSystem isUuid) : Prop where
  /-- The transfers of a sealed run are all in the sealed plan. -/
  planned : ∀ id review, system.journal.reviews.lookup id = some review →
    ∀ fileId row,
      system.journal.transfers.lookup (id, fileId) = some row →
        row.value.val ∈ review.plan.val.files
  /-- No two transfers of a run share a destination, live or not. -/
  destinations : ∀ id first second firstRow secondRow,
    system.journal.transfers.lookup (id, first) = some firstRow →
      system.journal.transfers.lookup (id, second) = some secondRow →
        firstRow.value.val.destinationRoot =
            secondRow.value.val.destinationRoot →
          firstRow.value.val.destinationPath =
              secondRow.value.val.destinationPath →
            first = second
  /-- A transfer is recorded as an intent. -/
  records : ∀ step id fileId row,
    system.journal.transfers.lookup (id, fileId) = none →
      (system.perform planSha256 step).1.journal.transfers.lookup
          (id, fileId) = some row →
        row.state = .intent
  /-- A recorded transfer stays what it is and moves only along its ways. -/
  moves : ∀ step id fileId row,
    system.journal.transfers.lookup (id, fileId) = some row →
      ∃ later,
        (system.perform planSha256 step).1.journal.transfers.lookup
            (id, fileId) = some later ∧
          later.value = row.value ∧
            (later.state = row.state ∨ Moves row.state later.state)
  /-- A started run is sealed, verified file by file, and matches. -/
  started : ∀ id run, system.journal.runs.lookup id = some run →
    run.writersStarting = true →
      ∃ review, system.journal.reviews.lookup id = some review ∧
        Settled system.journal id review ∧
          run.binding.planSha256 = planSha256 review.plan.val ∧
            ∃ verification, review.verification = some verification ∧
              verification.val.manifestSha256 = run.binding.manifestSha256 ∧
                verification.val.planSha256 = run.binding.planSha256 ∧
                  verification.val.matchesExpected = true
  /-- From then on nothing of it is written and nothing is undone. -/
  frozen : ∀ step id run, system.journal.runs.lookup id = some run →
    run.writersStarting = true →
      Frozen system.journal (system.perform planSha256 step).1.journal id ∧
        (step.undoes id = true →
          ∃ refusal, (system.perform planSha256 step).2 = .error refusal)
  /-- A refused call leaves the whole journal as it was. -/
  refused : ∀ step refusal,
    (system.perform planSha256 step).2 = .error refusal →
      (system.perform planSha256 step).1.journal = system.journal

/-- Whatever was called on the journal, the laws hold. -/
theorem importLaws
    (isUuid : String → Bool)
    (planSha256 : ImportPlan → String)
    (steps : List ImportStep) :
    ImportLaws planSha256 (@importReached isUuid planSha256 steps) := by
  have invariant := @importInvariant_reached isUuid planSha256 steps
  generalize @importReached isUuid planSha256 steps = system at invariant
  have effect := @performEffect _ planSha256 _ invariant.caches
  constructor
  · intro id review isReview fileId row found
    exact mem_of_isPlanned
      (invariant.journal.planned id review isReview fileId row found)
  · intro id first second firstRow secondRow isFirst isSecond sameRoot samePath
    have firstPlace := invariant.journal.destination id first firstRow isFirst
    have secondPlace :=
      invariant.journal.destination id second secondRow isSecond
    apply invariant.journal.distinct id first second firstRow secondRow
      isFirst isSecond
    · rw [firstPlace.1, sameRoot, secondPlace.1]
    · rw [firstPlace.2, samePath, secondPlace.2]
  · intro step id fileId row absent found
    exact ((effect step).call.writes.transferNew absent found).state
  · intro step id fileId row found
    obtain ⟨later, isLater, keeps⟩ :=
      (effect step).call.writes.transferKept found
    refine ⟨later, isLater, keeps.value, ?_⟩
    rcases keeps.state with rfl | ⟨_, moves⟩
    · exact .inl rfl
    · exact .inr moves
  · intro id run isRun started
    obtain ⟨review, isReview, settled⟩ :=
      invariant.settled id run isRun started
    obtain ⟨other, isOther, digest, matching⟩ :=
      invariant.journal.bound id review isReview
    obtain rfl : other = run := Option.some.inj (isOther.symm.trans isRun)
    obtain ⟨verification, isVerification⟩ :=
      Option.isSome_iff_exists.mp settled.isVerified
    exact ⟨review, isReview, settled, digest, verification, isVerification,
      matching verification isVerification⟩
  · intro step id run isRun started
    exact ⟨(effect step).call.writes.frozen invariant.settled isRun started,
      undo_refused isRun started⟩
  · intro step refusal isRefused
    exact (effect step).call.refused refusal isRefused

end Frameleaf.Manager
