import Frameleaf.Lib.Trace
import Frameleaf.Manager.ImportJournal
import Mathlib.Logic.Function.Basic

namespace Frameleaf.Manager

open Table Trace Outcome

/-!
# Runs of the import journal

Any number of journal instances call in any order, with any arguments, while
the operations table changes under them.  What an accepted call writes is said
once, with everything the call has checked.
-/

variable {isUuid : String → Bool}

/-- The tables, and what each journal instance remembers of a sealed plan. -/
structure ImportSystem (isUuid : String → Bool) where
  journal : Journal isUuid
  planned : ℕ → PlannedCache

/-- One call of the journal, or a change of the operations table. -/
inductive ImportStep where
  | operations (rows : List Row)
  /-- A journal instance is made. -/
  | construct (caller : ℕ)
  | begin (id : OperationId) (binding : Input Binding) (available : Bool)
  | sealPlan (id : OperationId) (input : Input ImportPlan) (available : Bool)
  | recordVerification (id : OperationId)
      (input : Input ImportVerification) (available : Bool)
  | intent (caller : ℕ) (id : OperationId) (input : Input ImportTransfer)
      (available : Bool)
  | verified (id : OperationId) (fileId : FileId)
      (receipt : Input Receipt) (available : Bool)
  | rollbackIntent (id : OperationId) (fileId : FileId) (available : Bool)
  | cancelIntent (id : OperationId) (fileId : FileId)
      (receipt : Input CancelReceipt) (available : Bool)
  | rolledBack (id : OperationId) (fileId : FileId)
      (receipt : Input Receipt) (available : Bool)
  | writersStarting (id : OperationId) (available : Bool)
  | abandon (id : OperationId) (available : Bool)

/-- The empty journal. -/
def emptyJournal : Journal isUuid where
  operations := []
  runs := ∅
  transfers := ∅
  reviews := ∅

/-- The system before any call. -/
def emptySystem : ImportSystem isUuid where
  journal := emptyJournal
  planned := fun _ => none

/-- A call that works on the tables alone. -/
def ImportSystem.call
    (system : ImportSystem isUuid)
    (result : Journal isUuid × Except Refusal Unit) :
    ImportSystem isUuid × Except Refusal Unit :=
  ({ system with journal := result.1 }, result.2)

/-- Record a transfer, with the planned files that the instance remembers. -/
def ImportSystem.intent
    (system : ImportSystem isUuid)
    (caller : ℕ)
    (id : OperationId)
    (input : Input ImportTransfer)
    (available : Bool) : ImportSystem isUuid × Except Refusal Unit :=
  match parseTransfer input with
  | .error refusal =>
      (system, .error refusal)
  | .ok file =>
      let planned := system.planned caller
      let looksUp :=
        available && system.journal.owns id &&
          (system.journal.run id true).toBool
      let (journal, answer) :=
        system.journal.atomic id available (intentBody id planned file)
      ({ journal := journal
         planned :=
           if looksUp then
             Function.update system.planned caller
               (system.journal.plannedFiles planned id).2
           else
             system.planned },
        answer)

section Digest

-- `importPlanSha256` of a parsed plan
variable (planSha256 : ImportPlan → String)

/-- One call of the journal. -/
def ImportSystem.perform
    (system : ImportSystem isUuid) :
    ImportStep → ImportSystem isUuid × Except Refusal Unit
  | .operations rows =>
      ({ system with journal := { system.journal with operations := rows } },
        .ok ())
  | .construct caller =>
      ({ system with planned := Function.update system.planned caller none },
        .ok ())
  | .begin id binding available =>
      system.call (system.journal.begin id binding available)
  | .sealPlan id input available =>
      system.call (system.journal.sealPlan planSha256 id input available)
  | .recordVerification id input available =>
      system.call (system.journal.recordVerification id input available)
  | .intent caller id input available =>
      system.intent caller id input available
  | .verified id fileId receipt available =>
      system.call (system.journal.verified id fileId receipt available)
  | .rollbackIntent id fileId available =>
      system.call (system.journal.rollbackIntent id fileId available)
  | .cancelIntent id fileId receipt available =>
      system.call (system.journal.cancelIntent id fileId receipt available)
  | .rolledBack id fileId receipt available =>
      system.call (system.journal.rolledBack id fileId receipt available)
  | .writersStarting id available =>
      system.call (system.journal.writersStarting id available)
  | .abandon id available =>
      system.call (system.journal.abandon id available)

end Digest

/-- The ways a transfer can move. -/
inductive Moves : TransferState → TransferState → Prop
  | verified : Moves .intent .verified
  | rollbackIntent : Moves .verified .rollbackIntent
  | rolledBack : Moves .rollbackIntent .rolledBack
  | cancelled : Moves .intent .cancelled

/-- A run that goes on and whose writers have not started. -/
structure GoesOn
    (journal : Journal isUuid)
    (id : OperationId)
    (run : ImportRun) : Prop where
  isRun : journal.runs.lookup id = some run
  notAbandoned : run.abandoned = false
  notStarted : run.writersStarting = false

/-- The transfers of a run are those of a plan, and all are verified. -/
structure Complete
    (journal : Journal isUuid)
    (id : OperationId)
    (plan : ImportPlan) : Prop where
  verified : ∀ fileId row,
    journal.transfers.lookup (id, fileId) = some row →
      row.state = .verified
  planned : ∀ fileId row,
    journal.transfers.lookup (id, fileId) = some row →
      isPlanned plan.files row.value.val = true
  sameNumber : (journal.files id).length = plan.files.length

/-- What an accepted call writes, with what it has checked. -/
inductive Writes
    (planSha256 : ImportPlan → String)
    (journal : Journal isUuid) : Journal isUuid → Prop
  | kept : Writes planSha256 journal journal
  | operations (rows : List Row) :
      Writes planSha256 journal { journal with operations := rows }
  | opened {id : OperationId} (binding : Binding)
      (new : id ∉ journal.runs) :
      Writes planSha256 journal
        { journal with
          runs := journal.runs.insert id { binding := binding } }
  | sealed {id : OperationId} {run : ImportRun} {plan : ParsedPlan isUuid}
      (goesOn : GoesOn journal id run)
      (bound : run.binding.planSha256 = planSha256 plan.val)
      (planned : ∀ fileId row,
        journal.transfers.lookup (id, fileId) = some row →
          isPlanned plan.val.files row.value.val = true)
      (new : id ∉ journal.reviews) :
      Writes planSha256 journal
        { journal with
          reviews :=
            journal.reviews.insert id
              { plan := plan, verification := none } }
  | recorded {id : OperationId} {run : ImportRun}
      {review : ReviewRow isUuid}
      {verification : ParsedVerification isUuid}
      (goesOn : GoesOn journal id run)
      (isReview : journal.reviews.lookup id = some review)
      (manifest :
        verification.val.manifestSha256 = run.binding.manifestSha256)
      (plan : verification.val.planSha256 = run.binding.planSha256)
      (expected : verification.val.matchesExpected = true) :
      Writes planSha256 journal
        (setReview id
          (fun review => { review with verification := some verification })
          journal)
  | declared {id : OperationId} {run : ImportRun} {file : ParsedTransfer}
      (goesOn : GoesOn journal id run)
      (planned : ∀ review, journal.reviews.lookup id = some review →
        isPlanned review.plan.val.files file.val = true)
      (new : (id, file.val.id) ∉ journal.transfers)
      (free : journal.collides id file.val = false) :
      Writes planSha256 journal
        { journal with
          transfers :=
            journal.transfers.insert (id, file.val.id)
              { value := file
                state := .intent
                destinationRoot := file.val.destinationRoot
                destinationPath := file.val.destinationPath } }
  | moved {id : OperationId} {fileId : FileId} {run : ImportRun}
      {row : TransferRow} {target : TransferState}
      (goesOn : GoesOn journal id run)
      (isTransfer : journal.transfers.lookup (id, fileId) = some row)
      (moves : row.state = target ∨ Moves row.state target) :
      Writes planSha256 journal (setTransferState id fileId target journal)
  | started {id : OperationId} {run : ImportRun}
      {review : ReviewRow isUuid}
      (isRun : journal.runs.lookup id = some run)
      (isReview : journal.reviews.lookup id = some review)
      (complete : Complete journal id review.plan.val)
      (isVerified : review.verification.isSome = true) :
      Writes planSha256 journal
        (setRun id (fun run => { run with writersStarting := true }) journal)
  | abandoned {id : OperationId} :
      Writes planSha256 journal
        (setRun id (fun run => { run with abandoned := true }) journal)

/-- A condition that was required holds. -/
@[simp] theorem require_eq_ok
    {holds : Bool}
    {code : String} :
    require holds code = .ok () ↔ holds = true := by
  cases holds <;> simp [require]

theorem atomic_cases
    (journal : Journal isUuid)
    (id : OperationId)
    (available : Bool)
    (body : Body isUuid) :
    (body.checks journal = .ok () ∧
      body.confirms (body.write journal) = .ok () ∧
        journal.atomic id available body = (body.write journal, .ok ())) ∨
      ∃ refusal, journal.atomic id available body = (journal, .error refusal) := by
  cases available with
  | false =>
      exact .inr ⟨_, rfl⟩
  | true =>
      cases owned : journal.owns id with
      | false =>
          exact .inr ⟨_, by simp [Journal.atomic, owned]; rfl⟩
      | true =>
          cases checked : body.checks journal with
          | error refusal =>
              exact .inr ⟨refusal, by simp [Journal.atomic, owned, checked]⟩
          | ok done =>
              cases confirmed : body.confirms (body.write journal) with
              | error refusal =>
                  exact .inr ⟨refusal,
                    by simp [Journal.atomic, owned, checked, confirmed]⟩
              | ok done =>
                  exact .inl ⟨rfl, rfl,
                    by simp [Journal.atomic, owned, checked, confirmed]⟩

variable {id : OperationId}

theorem goesOn_of_run
    {journal : Journal isUuid}
    {run : ImportRun}
    (checked : journal.run id true = .ok run) :
    GoesOn journal id run := by
  rw [Journal.run] at checked
  cases found : journal.runs.lookup id with
  | none =>
      simp [found] at checked
  | some other =>
      simp only [found, Bool.true_and] at checked
      split at checked
      · cases checked
      · next notAbandoned =>
          split at checked
          · cases checked
          · next notStarted =>
              cases checked
              exact ⟨found, by simpa using notAbandoned,
                by simpa using notStarted⟩

theorem mem_files
    {journal : Journal isUuid}
    {row : TransferRow} :
    row ∈ journal.files id ↔
      ∃ fileId, journal.transfers.lookup (id, fileId) = some row := by
  simp only [Journal.files, List.mem_map, List.mem_filter, beq_iff_eq]
  constructor
  · rintro ⟨⟨⟨other, fileId⟩, found⟩, ⟨member, rfl⟩, rfl⟩
    exact ⟨fileId, AList.mem_lookup_iff.mpr member⟩
  · rintro ⟨fileId, found⟩
    exact ⟨⟨(id, fileId), row⟩, ⟨AList.mem_lookup_iff.mp found, rfl⟩, rfl⟩

open Table Trace Outcome

/-!
## What each call of the import journal writes

A refused call leaves the tables as they are.  An accepted one makes one of the
writes and has made all of its checks.
-/

variable {isUuid : String → Bool} {planSha256 : ImportPlan → String}
variable {journal : Journal isUuid}

/-- A call makes one write at most, and none when it refuses. -/
structure CallEffect
    (planSha256 : ImportPlan → String)
    (journal : Journal isUuid)
    (result : Journal isUuid × Except Refusal Unit) : Prop where
  writes : Writes planSha256 journal result.1
  refused : ∀ refusal, result.2 = .error refusal → result.1 = journal

theorem callEffect_refused
    (refusal : Refusal) :
    CallEffect planSha256 journal (journal, .error refusal) where
  writes := .kept
  refused := fun _ _ => rfl

variable {available : Bool}

theorem callEffect_atomic
    {body : Body isUuid}
    (accepted :
      body.checks journal = .ok () →
        body.confirms (body.write journal) = .ok () →
          Writes planSha256 journal (body.write journal)) :
    CallEffect planSha256 journal (journal.atomic id available body) := by
  rcases atomic_cases journal id available body with
    ⟨checked, confirmed, committed⟩ | ⟨refusal, rolledBack⟩
  · rw [committed]
    exact ⟨accepted checked confirmed, by simp⟩
  · rw [rolledBack]
    exact callEffect_refused refusal

theorem callEffect_begin
    (id : OperationId)
    (binding : Input Binding)
    (available : Bool) :
    CallEffect planSha256 journal (journal.begin id binding available) := by
  rw [Journal.begin]
  split
  · exact callEffect_refused _
  · next value valid parsed =>
      apply callEffect_atomic
      intro _ _
      dsimp only
      split
      · exact .kept
      · next new =>
          exact .opened value new

theorem callEffect_sealPlan
    (id : OperationId)
    (input : Input ImportPlan)
    (available : Bool) :
    CallEffect planSha256 journal
      (journal.sealPlan planSha256 id input available) := by
  rw [Journal.sealPlan]
  split
  · exact callEffect_refused _
  · next plan parsed =>
      apply callEffect_atomic
      intro checked _
      obtain ⟨run, isRun, checked⟩ := bind_eq_ok.mp checked
      obtain ⟨_, bound, checked⟩ := bind_eq_ok.mp checked
      have planned := require_eq_ok.mp checked
      dsimp only
      split
      · exact .kept
      · next new =>
          apply Writes.sealed (goesOn_of_run isRun) _ _ new
          · simpa using require_eq_ok.mp bound
          · intro fileId row found
            exact List.all_eq_true.mp planned row (mem_files.mpr ⟨_, found⟩)

theorem complete_of_assert
    {plan : ImportPlan}
    (checked : journal.assertCompleteTransfers id plan = .ok ()) :
    Complete journal id plan := by
  obtain ⟨_, verified, planned⟩ := bind_eq_ok.mp checked
  have verified := require_eq_ok.mp verified
  have planned := require_eq_ok.mp planned
  rw [Bool.and_eq_true, beq_iff_eq, List.all_eq_true] at verified
  rw [List.all_eq_true] at planned
  constructor
  · intro fileId row found
    simpa using verified.2 row (mem_files.mpr ⟨_, found⟩)
  · intro fileId row found
    exact planned row (mem_files.mpr ⟨_, found⟩)
  · exact verified.1

theorem lookup_of_review
    {review : ReviewRow isUuid}
    (found : journal.review id = .ok review) :
    journal.reviews.lookup id = some review := by
  rw [Journal.review] at found
  split at found
  · cases found
  · next other isOther =>
      cases found
      exact isOther

theorem callEffect_recordVerification
    (id : OperationId)
    (input : Input ImportVerification)
    (available : Bool) :
    CallEffect planSha256 journal
      (journal.recordVerification id input available) := by
  rw [Journal.recordVerification]
  split
  · exact callEffect_refused _
  · next verification parsed =>
      split
      · exact callEffect_refused _
      · next expected =>
          apply callEffect_atomic
          intro checked _
          obtain ⟨run, isRun, checked⟩ := bind_eq_ok.mp checked
          obtain ⟨review, isReview, checked⟩ := bind_eq_ok.mp checked
          obtain ⟨_, complete, checked⟩ := bind_eq_ok.mp checked
          obtain ⟨_, bound, _⟩ := bind_eq_ok.mp checked
          have bound := require_eq_ok.mp bound
          rw [Bool.and_eq_true, beq_iff_eq, beq_iff_eq] at bound
          exact .recorded (goesOn_of_run isRun) (lookup_of_review isReview)
            bound.1.symm bound.2.symm (by simpa using expected)

/-- What an instance remembers of a sealed plan is what was sealed. -/
def CacheCorrect
    (journal : Journal isUuid)
    (planned : PlannedCache) : Prop :=
  ∀ id files, planned = some (id, files) →
    ∃ review, journal.reviews.lookup id = some review ∧
      review.plan.val.files = files

variable {planned : PlannedCache}

theorem plannedFiles_of_review
    {review : ReviewRow isUuid}
    (correct : CacheCorrect journal planned)
    (isReview : journal.reviews.lookup id = some review) :
    (journal.plannedFiles planned id).1 = some review.plan.val.files := by
  unfold Journal.plannedFiles
  split
  · next cached files =>
      split
      · next same =>
          subst same
          obtain ⟨other, isOther, rfl⟩ := correct cached files rfl
          rw [isReview] at isOther
          cases isOther
          rfl
      · rw [isReview]
  · rw [isReview]

theorem cacheCorrect_plannedFiles
    (correct : CacheCorrect journal planned) :
    CacheCorrect journal (journal.plannedFiles planned id).2 := by
  have looked
      (review : ReviewRow isUuid)
      (isReview : journal.reviews.lookup id = some review) :
      CacheCorrect journal (some (id, review.plan.val.files)) := by
    intro other files same
    cases same
    exact ⟨review, isReview, rfl⟩
  unfold Journal.plannedFiles
  split
  · split
    · exact correct
    · split
      · exact correct
      · next review isReview =>
          exact looked review isReview
  · split
    · exact correct
    · next review isReview =>
        exact looked review isReview

theorem callEffect_intent
    {file : ParsedTransfer}
    (correct : CacheCorrect journal planned) :
    CallEffect planSha256 journal
      (journal.atomic id available (intentBody id planned file)) := by
  apply callEffect_atomic
  intro checked _
  obtain ⟨run, isRun, checked⟩ := bind_eq_ok.mp checked
  obtain ⟨_, isPlanned, checked⟩ := bind_eq_ok.mp checked
  dsimp only [intentBody] at checked ⊢
  split
  · exact .kept
  · next new =>
      have absent := AList.lookup_eq_none.mpr new
      rw [absent] at checked
      refine .declared (goesOn_of_run isRun) ?_ new
        (by simpa using require_eq_ok.mp checked)
      intro review isReview
      have looked := require_eq_ok.mp isPlanned
      rw [plannedFiles_of_review correct isReview] at looked
      exact looked

theorem callEffect_move
    {fileId : FileId}
    {agrees : ImportTransfer → Bool}
    {origin target : TransferState}
    (moves : Moves origin target) :
    CallEffect planSha256 journal
      (journal.atomic id available
        (moveBody id fileId agrees origin target)) := by
  apply callEffect_atomic
  intro checked _
  obtain ⟨run, isRun, checked⟩ := bind_eq_ok.mp checked
  obtain ⟨row, isRow, checked⟩ := bind_eq_ok.mp checked
  obtain ⟨_, _, checked⟩ := bind_eq_ok.mp checked
  have state := require_eq_ok.mp checked
  rw [Bool.or_eq_true, beq_iff_eq, beq_iff_eq] at state
  have found : journal.transfers.lookup (id, fileId) = some row := by
    rw [Journal.transfer] at isRow
    split at isRow
    · cases isRow
    · next other isOther =>
        cases isRow
        exact isOther
  refine .moved (goesOn_of_run isRun) found ?_
  rcases state with same | fromOrigin
  · exact .inl same
  · exact .inr (fromOrigin ▸ moves)

theorem callEffect_transition
    {fileId : FileId}
    {origin target : TransferState}
    {receipt : Option (Input Receipt)}
    (moves : Moves origin target) :
    CallEffect planSha256 journal
      (journal.transition id fileId origin target receipt available) := by
  unfold Journal.transition
  split
  · split
    · exact callEffect_refused _
    · exact callEffect_move moves
  · split
    · exact callEffect_refused _
    · exact callEffect_move moves

theorem callEffect_cancelIntent
    (id : OperationId)
    (fileId : FileId)
    (receipt : Input CancelReceipt)
    (available : Bool) :
    CallEffect planSha256 journal
      (journal.cancelIntent id fileId receipt available) := by
  rw [Journal.cancelIntent]
  split
  · exact callEffect_refused _
  · exact callEffect_move .cancelled

theorem callEffect_writersStarting
    (id : OperationId)
    (available : Bool) :
    CallEffect planSha256 journal (journal.writersStarting id available) := by
  apply callEffect_atomic
  intro checked _
  obtain ⟨run, isRun, checked⟩ := bind_eq_ok.mp checked
  obtain ⟨review, isReview, checked⟩ := bind_eq_ok.mp checked
  obtain ⟨_, complete, checked⟩ := bind_eq_ok.mp checked
  have found : journal.runs.lookup id = some run := by
    rw [Journal.run] at isRun
    split at isRun
    · cases isRun
    · next other isOther =>
        simp only [Bool.false_and, Bool.false_eq_true, if_false] at isRun
        split at isRun
        · cases isRun
        · cases isRun
          exact isOther
  exact .started found (lookup_of_review isReview)
    (complete_of_assert complete) (require_eq_ok.mp checked)

theorem callEffect_abandon
    (id : OperationId)
    (available : Bool) :
    CallEffect planSha256 journal (journal.abandon id available) := by
  apply callEffect_atomic
  intro _ _
  exact .abandoned

end Frameleaf.Manager
