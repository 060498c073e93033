import Frameleaf.Manager.ImportEffects

namespace Frameleaf.Manager

open Table Trace Outcome

/-!
# The point of no return of an import

Rows are only added and rewritten, so what a write does is said for each table:
what becomes of a row that is there, and what a row that is new must be.  The
invariant of all runs follows, and with it that a started run has everything
its writers rely on and keeps it.
-/

variable {isUuid : String → Bool} {planSha256 : ImportPlan → String}
variable {journal after : Journal isUuid}

/-- What becomes of a transfer that is recorded. -/
structure TransferKept
    (journal : Journal isUuid)
    (id : OperationId)
    (row later : TransferRow) : Prop where
  value : later.value = row.value
  destinationRoot : later.destinationRoot = row.destinationRoot
  destinationPath : later.destinationPath = row.destinationPath
  state : later = row ∨
    (∃ run, GoesOn journal id run) ∧ Moves row.state later.state

variable {id : OperationId}

theorem transferKept_refl
    {row : TransferRow} : TransferKept journal id row row :=
  ⟨rfl, rfl, rfl, .inl rfl⟩

variable {fileId : FileId} {row : TransferRow}

theorem Writes.transferKept
    (writes : Writes planSha256 journal after)
    (found : journal.transfers.lookup (id, fileId) = some row) :
    ∃ later, after.transfers.lookup (id, fileId) = some later ∧
      TransferKept journal id row later := by
  cases writes with
  | kept | operations | opened | sealed | recorded | started | abandoned =>
      exact ⟨row, found, transferKept_refl⟩
  | declared goesOn planned new free =>
      refine ⟨row, ?_, transferKept_refl⟩
      rw [AList.lookup_insert_ne, found]
      rintro same
      rw [← AList.lookup_eq_none, ← same, found] at new
      cases new
  | @moved movedId movedFile run movedRow target goesOn isTransfer moves =>
      simp only [setTransferState, lookup_updateWhere, found, Option.map_some,
        beq_iff_eq]
      split
      · next same =>
          cases same
          rw [found] at isTransfer
          cases isTransfer
          refine ⟨_, rfl, rfl, rfl, rfl, ?_⟩
          rcases moves with same | moves
          · exact .inl (by rw [← same])
          · exact .inr ⟨⟨run, goesOn⟩, moves⟩
      · exact ⟨row, rfl, transferKept_refl⟩

/-- What a transfer must be when it is recorded. -/
structure TransferNew
    (journal after : Journal isUuid)
    (id : OperationId)
    (fileId : FileId)
    (row : TransferRow) : Prop where
  state : row.state = .intent
  ownId : row.value.val.id = fileId
  destinationRoot : row.destinationRoot = row.value.val.destinationRoot
  destinationPath : row.destinationPath = row.value.val.destinationPath
  goesOn : ∃ run, GoesOn journal id run
  planned : ∀ review, journal.reviews.lookup id = some review →
    isPlanned review.plan.val.files row.value.val = true
  free : journal.collides id row.value.val = false
  reviews : after.reviews = journal.reviews
  runs : after.runs = journal.runs
  others : ∀ other, other ≠ fileId →
    after.transfers.lookup (id, other) = journal.transfers.lookup (id, other)

theorem Writes.transferNew
    (writes : Writes planSha256 journal after)
    (absent : journal.transfers.lookup (id, fileId) = none)
    (found : after.transfers.lookup (id, fileId) = some row) :
    TransferNew journal after id fileId row := by
  cases writes with
  | kept | operations | opened | sealed | recorded | started | abandoned =>
      exact absurd (found.symm.trans absent) (by simp)
  | @declared declaredId run file goesOn planned new free =>
      by_cases same : (id, fileId) = (declaredId, file.val.id)
      · cases same
        simp only [AList.lookup_insert, Option.some.injEq] at found
        subst found
        refine ⟨rfl, rfl, rfl, rfl, ⟨run, goesOn⟩, planned, free, rfl, rfl, ?_⟩
        intro other different
        exact AList.lookup_insert_ne (by simpa using different)
      · rw [AList.lookup_insert_ne same, absent] at found
        cases found
  | moved goesOn isTransfer moves =>
      simp [setTransferState, absent] at found

/-- What becomes of a sealed plan and its verification. -/
structure ReviewKept
    (journal : Journal isUuid)
    (id : OperationId)
    (review later : ReviewRow isUuid) : Prop where
  plan : later.plan = review.plan
  verification : later = review ∨
    ∃ run verification, GoesOn journal id run ∧
      later.verification = some verification ∧
        verification.val.manifestSha256 = run.binding.manifestSha256 ∧
          verification.val.planSha256 = run.binding.planSha256 ∧
            verification.val.matchesExpected = true

theorem Writes.reviewKept
    {review : ReviewRow isUuid}
    (writes : Writes planSha256 journal after)
    (found : journal.reviews.lookup id = some review) :
    ∃ later, after.reviews.lookup id = some later ∧
      ReviewKept journal id review later := by
  cases writes with
  | kept | operations | opened | declared | moved | started | abandoned =>
      exact ⟨review, found, rfl, .inl rfl⟩
  | sealed goesOn bound planned new =>
      refine ⟨review, ?_, rfl, .inl rfl⟩
      rw [AList.lookup_insert_ne, found]
      rintro rfl
      rw [← AList.lookup_eq_none, found] at new
      cases new
  | @recorded recordedId run recordedReview verification goesOn isReview
      manifest plan expected =>
      simp only [setReview, lookup_updateWhere, found, Option.map_some,
        beq_iff_eq]
      split
      · next same =>
          subst same
          exact ⟨_, rfl, rfl, .inr
            ⟨run, verification, goesOn, rfl, manifest, plan, expected⟩⟩
      · exact ⟨review, rfl, rfl, .inl rfl⟩

theorem Writes.reviewNew
    {review : ReviewRow isUuid}
    (writes : Writes planSha256 journal after)
    (absent : journal.reviews.lookup id = none)
    (found : after.reviews.lookup id = some review) :
    review.verification = none ∧ after.transfers = journal.transfers ∧
      after.runs = journal.runs ∧
        (∃ run, GoesOn journal id run ∧
          run.binding.planSha256 = planSha256 review.plan.val) ∧
          ∀ fileId row,
            journal.transfers.lookup (id, fileId) = some row →
              isPlanned review.plan.val.files row.value.val = true := by
  cases writes with
  | kept | operations | opened | declared | moved | started | abandoned =>
      exact absurd (found.symm.trans absent) (by simp)
  | @sealed sealedId run plan goesOn bound planned new =>
      by_cases same : id = sealedId
      · subst same
        simp only [AList.lookup_insert, Option.some.injEq] at found
        subst found
        exact ⟨rfl, rfl, rfl, ⟨run, goesOn, bound⟩, planned⟩
      · rw [AList.lookup_insert_ne same, absent] at found
        cases found
  | recorded goesOn isReview manifest plan expected =>
      simp [setReview, absent] at found

/-- What becomes of an open run. -/
structure RunKept
    (journal after : Journal isUuid)
    (id : OperationId)
    (run later : ImportRun) : Prop where
  binding : later.binding = run.binding
  started : later.writersStarting = run.writersStarting ∨
    later.writersStarting = true ∧
      after.transfers = journal.transfers ∧
        after.reviews = journal.reviews ∧
          ∃ review, journal.reviews.lookup id = some review ∧
            Complete journal id review.plan.val ∧
              review.verification.isSome = true

theorem Writes.runKept
    {run : ImportRun}
    (writes : Writes planSha256 journal after)
    (found : journal.runs.lookup id = some run) :
    ∃ later, after.runs.lookup id = some later ∧
      RunKept journal after id run later := by
  cases writes with
  | kept | operations | sealed | recorded | declared | moved =>
      exact ⟨run, found, rfl, .inl rfl⟩
  | opened binding new =>
      refine ⟨run, ?_, rfl, .inl rfl⟩
      rw [AList.lookup_insert_ne, found]
      rintro rfl
      rw [← AList.lookup_eq_none, found] at new
      cases new
  | @started startedId startedRun review isRun isReview complete isVerified =>
      simp only [setRun, lookup_updateWhere, found, Option.map_some,
        beq_iff_eq]
      split
      · next same =>
          subst same
          exact ⟨_, rfl, rfl, .inr
            ⟨rfl, rfl, rfl, review, isReview, complete, isVerified⟩⟩
      · exact ⟨run, rfl, rfl, .inl rfl⟩
  | abandoned =>
      simp only [setRun, lookup_updateWhere, found, Option.map_some]
      split
      · exact ⟨_, rfl, rfl, .inl rfl⟩
      · exact ⟨run, rfl, rfl, .inl rfl⟩

theorem Writes.runNew
    {run : ImportRun}
    (writes : Writes planSha256 journal after)
    (absent : journal.runs.lookup id = none)
    (found : after.runs.lookup id = some run) :
    run.writersStarting = false := by
  cases writes with
  | kept | operations | sealed | recorded | declared | moved =>
      exact absurd (found.symm.trans absent) (by simp)
  | @opened openedId binding new =>
      by_cases same : id = openedId
      · subst same
        simp only [AList.lookup_insert, Option.some.injEq] at found
        subst found
        rfl
      · rw [AList.lookup_insert_ne same, absent] at found
        cases found
  | started | abandoned =>
      simp [setRun, absent] at found

theorem Writes.transfer_cases
    (writes : Writes planSha256 journal after)
    (found : after.transfers.lookup (id, fileId) = some row) :
    (∃ earlier, journal.transfers.lookup (id, fileId) = some earlier ∧
      TransferKept journal id earlier row) ∨
      journal.transfers.lookup (id, fileId) = none ∧
        TransferNew journal after id fileId row := by
  cases before : journal.transfers.lookup (id, fileId) with
  | none =>
      exact .inr ⟨rfl, writes.transferNew before found⟩
  | some earlier =>
      obtain ⟨later, isLater, keeps⟩ := writes.transferKept before
      rw [found] at isLater
      cases isLater
      exact .inl ⟨earlier, rfl, keeps⟩

variable {file : ImportTransfer}

theorem plannedFile_eq_some
    {files : List ImportTransfer}
    {id : FileId}
    (found : plannedFile files id = some file) :
    file ∈ files ∧ file.id = id := by
  have member := List.mem_of_find?_eq_some found
  have sameId := List.find?_some found
  exact ⟨List.mem_reverse.mp member, by simpa using sameId⟩

theorem mem_of_isPlanned
    {files : List ImportTransfer}
    (planned : isPlanned files file = true) :
    file ∈ files :=
  (plannedFile_eq_some (beq_iff_eq.mp planned)).1

theorem ParsedPlan.distinctFiles
    (plan : ParsedPlan isUuid) :
    (plan.val.files.map ImportTransfer.id).Nodup := by
  have valid := plan.property
  simp only [ImportPlan.isValid, Bool.and_eq_true, unique,
    decide_eq_true_eq] at valid
  exact valid.1.1.1.1.2

/-- What every reachable journal satisfies. -/
structure JournalInvariant
    (planSha256 : ImportPlan → String)
    (journal : Journal isUuid) : Prop where
  fileId : ∀ id fileId row,
    journal.transfers.lookup (id, fileId) = some row →
      row.value.val.id = fileId
  destination : ∀ id fileId row,
    journal.transfers.lookup (id, fileId) = some row →
      row.destinationRoot = row.value.val.destinationRoot ∧
        row.destinationPath = row.value.val.destinationPath
  distinct : ∀ id first second firstRow secondRow,
    journal.transfers.lookup (id, first) = some firstRow →
      journal.transfers.lookup (id, second) = some secondRow →
        firstRow.destinationRoot = secondRow.destinationRoot →
          firstRow.destinationPath = secondRow.destinationPath →
            first = second
  planned : ∀ id review, journal.reviews.lookup id = some review →
    ∀ fileId row, journal.transfers.lookup (id, fileId) = some row →
      isPlanned review.plan.val.files row.value.val = true
  bound : ∀ id review, journal.reviews.lookup id = some review →
    ∃ run, journal.runs.lookup id = some run ∧
      run.binding.planSha256 = planSha256 review.plan.val ∧
        ∀ verification, review.verification = some verification →
          verification.val.manifestSha256 = run.binding.manifestSha256 ∧
            verification.val.planSha256 = run.binding.planSha256 ∧
              verification.val.matchesExpected = true

theorem not_collides
    (free : journal.collides id file = false)
    (found : journal.transfers.lookup (id, fileId) = some row)
    (sameRoot : row.destinationRoot = file.destinationRoot)
    (samePath : row.destinationPath = file.destinationPath) : False := by
  rw [Journal.collides, List.any_eq_false] at free
  have notHere := free ⟨(id, fileId), row⟩ (AList.mem_lookup_iff.mp found)
  simp [sameRoot, samePath] at notHere

/-- Every write keeps the invariant. -/
theorem Writes.invariant
    (writes : Writes planSha256 journal after)
    (invariant : JournalInvariant planSha256 journal) :
    JournalInvariant planSha256 after := by
  constructor
  · intro id fileId row found
    rcases writes.transfer_cases found with ⟨earlier, was, keeps⟩ | ⟨_, new⟩
    · rw [keeps.value]
      exact invariant.fileId id fileId earlier was
    · exact new.ownId
  · intro id fileId row found
    rcases writes.transfer_cases found with ⟨earlier, was, keeps⟩ | ⟨_, new⟩
    · rw [keeps.value, keeps.destinationRoot, keeps.destinationPath]
      exact invariant.destination id fileId earlier was
    · exact ⟨new.destinationRoot, new.destinationPath⟩
  · intro id first second firstRow secondRow isFirst isSecond sameRoot samePath
    rcases writes.transfer_cases isFirst with
      ⟨firstWas, wasFirst, firstKeeps⟩ | ⟨firstAbsent, firstNew⟩ <;>
    rcases writes.transfer_cases isSecond with
      ⟨secondWas, wasSecond, secondKeeps⟩ | ⟨secondAbsent, secondNew⟩
    · apply invariant.distinct id first second firstWas secondWas wasFirst
        wasSecond
      · rw [← firstKeeps.destinationRoot, sameRoot,
          secondKeeps.destinationRoot]
      · rw [← firstKeeps.destinationPath, samePath,
          secondKeeps.destinationPath]
    · exfalso
      apply not_collides secondNew.free wasFirst
      · rw [← firstKeeps.destinationRoot, sameRoot, secondNew.destinationRoot]
      · rw [← firstKeeps.destinationPath, samePath, secondNew.destinationPath]
    · exfalso
      apply not_collides firstNew.free wasSecond
      · rw [← secondKeeps.destinationRoot, ← sameRoot,
          firstNew.destinationRoot]
      · rw [← secondKeeps.destinationPath, ← samePath,
          firstNew.destinationPath]
    · by_contra different
      have unchanged := firstNew.others second (Ne.symm different)
      rw [isSecond, secondAbsent] at unchanged
      cases unchanged
  · intro id review isReview fileId row found
    cases was : journal.reviews.lookup id with
    | none =>
        obtain ⟨_, sameTransfers, _, _, planned⟩ :=
          writes.reviewNew was isReview
        rw [sameTransfers] at found
        exact planned fileId row found
    | some earlier =>
        obtain ⟨later, isLater, keeps⟩ := writes.reviewKept was
        rw [isReview] at isLater
        cases isLater
        rw [keeps.plan]
        rcases writes.transfer_cases found with
          ⟨wasRow, isWas, rowKeeps⟩ | ⟨_, new⟩
        · rw [rowKeeps.value]
          exact invariant.planned id earlier was fileId wasRow isWas
        · exact new.planned earlier was
  · intro id review isReview
    cases was : journal.reviews.lookup id with
    | none =>
        obtain ⟨noVerification, _, sameRuns, ⟨run, goesOn, digest⟩, _⟩ :=
          writes.reviewNew was isReview
        refine ⟨run, sameRuns ▸ goesOn.isRun, digest, ?_⟩
        rw [noVerification]
        simp
    | some earlier =>
        obtain ⟨later, isLater, keeps⟩ := writes.reviewKept was
        rw [isReview] at isLater
        cases isLater
        obtain ⟨run, isRun, digest, verified⟩ :=
          invariant.bound id earlier was
        obtain ⟨laterRun, isLaterRun, runKeeps⟩ := writes.runKept isRun
        refine ⟨laterRun, isLaterRun, ?_, ?_⟩
        · rw [runKeeps.binding, keeps.plan]
          exact digest
        · rw [runKeeps.binding]
          intro verification isVerification
          rcases keeps.verification with rfl | ⟨goingRun, recorded, goesOn,
              isRecorded, manifest, plan, expected⟩
          · exact verified verification isVerification
          · have sameRun : goingRun = run :=
              Option.some.inj (goesOn.isRun.symm.trans isRun)
            subst sameRun
            rw [isVerification] at isRecorded
            cases isRecorded
            exact ⟨manifest, plan, expected⟩

end Frameleaf.Manager
