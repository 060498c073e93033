import Frameleaf.Lib.Table
import Frameleaf.Manager.ImportPlan
import Frameleaf.Manager.Store

namespace Frameleaf.Manager

open Table

/-!
# The journal of an import's transfers

A run is bound to a manifest and a plan before anything is copied.  Its plan is
sealed, its transfers are recorded one by one, and its verification is stored
before writers may start.  Every call is one transaction that is rolled back
when it refuses.
-/

/-- The identifier of a file in a plan. -/
abbrev FileId := String

/-- How far a transfer has come. -/
inductive TransferState where
  | intent
  | verified
  | rollbackIntent
  | rolledBack
  | cancelled
deriving DecidableEq, Repr

/-- The manifest and the plan that a run was opened for. -/
structure Binding where
  manifestSha256 : String
  planSha256 : String
deriving DecidableEq

/-- `bindingSchema` -/
def Binding.matchesSchema
    (binding : Binding) : Bool :=
  isImportHash binding.manifestSha256 && isImportHash binding.planSha256

/-- One row of `library_import_runs`. -/
structure ImportRun where
  binding : Binding
  writersStarting : Bool := false
  abandoned : Bool := false
deriving DecidableEq

/-- A transfer that was parsed. -/
abbrev ParsedTransfer :=
  { file : ImportTransfer // file.matchesSchema = true }

/-- One row of `library_import_transfers`. -/
structure TransferRow where
  value : ParsedTransfer
  state : TransferState
  destinationRoot : String
  destinationPath : String
deriving DecidableEq

/-- A verification that was parsed. -/
abbrev ParsedVerification (isUuid : String → Bool) :=
  { verification : ImportVerification //
    verification.matchesSchema isUuid = true }

/-- One row of `library_import_review`. -/
structure ReviewRow (isUuid : String → Bool) where
  plan : ParsedPlan isUuid
  verification : Option (ParsedVerification isUuid)

/-- The tables that the journal reads and writes. -/
structure Journal (isUuid : String → Bool) where
  operations : List Row
  runs : Rows OperationId ImportRun
  transfers : Rows (OperationId × FileId) TransferRow
  reviews : Rows OperationId (ReviewRow isUuid)

variable {isUuid : String → Bool}

/-- The statements of one transaction: checks, a write and further checks. -/
structure Body (isUuid : String → Bool) where
  checks : Journal isUuid → Except Refusal Unit
  write : Journal isUuid → Journal isUuid
  confirms : Journal isUuid → Except Refusal Unit := fun _ => .ok ()

/-- The operation holds the lock as an import that is not complete. -/
def Journal.owns
    (journal : Journal isUuid)
    (operationId : OperationId) : Bool :=
  match journal.operations.find? fun row =>
      row.id == operationId && row.active == some 1 with
  | some row => row.value.kind == .import && row.value.state != .complete
  | none => false

/-- Run a body in a transaction and roll it back when it refuses. -/
def Journal.atomic
    (journal : Journal isUuid)
    (operationId : OperationId)
    (available : Bool)
    (body : Body isUuid) : Journal isUuid × Except Refusal Unit :=
  if !available then
    (journal, .error { code := "import_journal_unavailable" })
  else if !journal.owns operationId then
    (journal, .error { code := "import_operation_not_owned" })
  else
    match body.checks journal with
    | .error refusal =>
        (journal, .error refusal)
    | .ok () =>
        let written := body.write journal
        match body.confirms written with
        | .error refusal =>
            (journal, .error refusal)
        | .ok () =>
            (written, .ok ())

/-- Refuse unless a condition holds. -/
def require
    (holds : Bool)
    (code : String) : Except Refusal Unit :=
  if holds then .ok () else .error { code := code }

/-- The run must exist and go on; a rollback must come before the writers. -/
def Journal.run
    (journal : Journal isUuid)
    (operationId : OperationId)
    (rollback : Bool) : Except Refusal ImportRun :=
  match journal.runs.lookup operationId with
  | none =>
      .error { code := "import_journal_missing" }
  | some run =>
      if run.abandoned then
        .error { code := "import_abandoned" }
      else if rollback && run.writersStarting then
        .error { code := "import_post_activation_recovery_required" }
      else
        .ok run

/-- The transfers of a run. -/
def Journal.files
    (journal : Journal isUuid)
    (operationId : OperationId) : List TransferRow :=
  (journal.transfers.entries.filter fun entry => entry.1.1 == operationId).map
    fun entry => entry.2

/-- `planned.get(id)` of the map of planned files. -/
def plannedFile
    (files : List ImportTransfer)
    (id : FileId) : Option ImportTransfer :=
  files.reverse.find? (·.id == id)

/-- A transfer is the file that the plan has under its identifier. -/
def isPlanned
    (files : List ImportTransfer)
    (file : ImportTransfer) : Bool :=
  plannedFile files file.id == some file

/-- Open a run for a manifest and a plan, or find it open for the same. -/
def Journal.begin
    (journal : Journal isUuid)
    (operationId : OperationId)
    (binding : Input Binding)
    (available : Bool) : Journal isUuid × Except Refusal Unit :=
  match binding.parse Binding.matchesSchema "import_plan_invalid" with
  | .error refusal =>
      (journal, .error refusal)
  | .ok ⟨value, _⟩ =>
      journal.atomic operationId available {
        checks := fun _ => .ok ()
        write := fun journal =>
          if operationId ∈ journal.runs then
            journal
          else
            { journal with
              runs := journal.runs.insert operationId { binding := value } }
        confirms := fun journal => do
          require
            ((journal.runs.lookup operationId).any (·.binding == value))
            "import_plan_changed"
          let _ ← journal.run operationId false
      }

section Digest

-- `importPlanSha256` of a parsed plan
variable (planSha256 : ImportPlan → String)

/-- Seal the plan that the run is bound to. -/
def Journal.sealPlan
    (journal : Journal isUuid)
    (operationId : OperationId)
    (input : Input ImportPlan)
    (available : Bool) : Journal isUuid × Except Refusal Unit :=
  match parseImportPlan isUuid input with
  | .error refusal =>
      (journal, .error refusal)
  | .ok plan =>
      journal.atomic operationId available {
        checks := fun journal => do
          let run ← journal.run operationId true
          require (run.binding.planSha256 == planSha256 plan.val)
            "import_plan_changed"
          require
            ((journal.files operationId).all fun row =>
              isPlanned plan.val.files row.value.val)
            "import_transfer_not_planned"
        write := fun journal =>
          if operationId ∈ journal.reviews then
            journal
          else
            { journal with
              reviews :=
                journal.reviews.insert operationId
                  { plan := plan, verification := none } }
        confirms := fun journal =>
          require
            ((journal.reviews.lookup operationId).any (·.plan == plan))
            "import_plan_changed"
      }

end Digest

/-- Every planned file has a verified transfer, and there are no others. -/
def Journal.assertCompleteTransfers
    (journal : Journal isUuid)
    (operationId : OperationId)
    (plan : ImportPlan) : Except Refusal Unit := do
  let files := journal.files operationId
  require
    (files.length == plan.files.length &&
      files.all fun row => row.state == .verified)
    "import_transfers_unverified"
  require (files.all fun row => isPlanned plan.files row.value.val)
    "import_transfer_not_planned"

/-- The sealed plan and the verification of a run. -/
def Journal.review
    (journal : Journal isUuid)
    (operationId : OperationId) : Except Refusal (ReviewRow isUuid) :=
  match journal.reviews.lookup operationId with
  | none => .error { code := "import_plan_not_sealed" }
  | some review => .ok review

/-- Rewrite the review of one operation. -/
def setReview
    (operationId : OperationId)
    (change : ReviewRow isUuid → ReviewRow isUuid)
    (journal : Journal isUuid) : Journal isUuid :=
  { journal with
    reviews :=
      updateWhere (fun id _ => id == operationId) (fun _ => change)
        journal.reviews }

/-- Rewrite the run of one operation. -/
def setRun
    (operationId : OperationId)
    (change : ImportRun → ImportRun)
    (journal : Journal isUuid) : Journal isUuid :=
  { journal with
    runs :=
      updateWhere (fun id _ => id == operationId) (fun _ => change)
        journal.runs }

/-- `UPDATE library_import_transfers SET state=?` -/
def setTransferState
    (operationId : OperationId)
    (fileId : FileId)
    (state : TransferState)
    (journal : Journal isUuid) : Journal isUuid :=
  { journal with
    transfers :=
      updateWhere (fun key _ => key == (operationId, fileId))
        (fun _ row => { row with state := state }) journal.transfers }

/-- Store the verification of a complete run. -/
def Journal.recordVerification
    (journal : Journal isUuid)
    (operationId : OperationId)
    (input : Input ImportVerification)
    (available : Bool) : Journal isUuid × Except Refusal Unit :=
  match input.parse (ImportVerification.matchesSchema isUuid)
      "import_reconciliation_failed" with
  | .error refusal =>
      (journal, .error refusal)
  | .ok verification =>
      if !verification.val.matchesExpected then
        (journal, .error { code := "import_reconciliation_failed" })
      else
        journal.atomic operationId available {
          checks := fun journal => do
            let run ← journal.run operationId true
            let review ← journal.review operationId
            journal.assertCompleteTransfers operationId review.plan.val
            require
              (run.binding.manifestSha256 ==
                  verification.val.manifestSha256 &&
                run.binding.planSha256 == verification.val.planSha256)
              "import_reconciliation_failed"
            require (review.verification.all (· == verification))
              "import_reconciliation_changed"
          write :=
            setReview operationId fun review =>
              { review with verification := some verification }
        }

/-- The lookup of planned files that an instance keeps. -/
abbrev PlannedCache := Option (OperationId × List ImportTransfer)

/-- The planned files of a sealed run, from the instance's memory at best. -/
def Journal.plannedFiles
    (journal : Journal isUuid)
    (planned : PlannedCache)
    (operationId : OperationId) :
    Option (List ImportTransfer) × PlannedCache :=
  match planned with
  | some (cached, files) =>
      if cached = operationId then
        (some files, planned)
      else
        match journal.reviews.lookup operationId with
        | none => (none, planned)
        | some review =>
            (some review.plan.val.files,
              some (operationId, review.plan.val.files))
  | none =>
      match journal.reviews.lookup operationId with
      | none => (none, planned)
      | some review =>
          (some review.plan.val.files,
            some (operationId, review.plan.val.files))

/-- A transfer whose figures contradict each other. -/
def ImportTransfer.contradicts
    (file : ImportTransfer) : Bool :=
  file.bytes != file.sourceIdentity.bytes || file.sourceIdentity.links == "0"

/-- A relocation cannot leave its filesystem. -/
def ImportTransfer.crossesFilesystem
    (file : ImportTransfer) : Bool :=
  file.mode == .relocate &&
    file.sourceIdentity.device != file.destinationDevice

/-- What a transfer that is recorded already must agree with. -/
def checkPrior
    (file : ParsedTransfer)
    (prior : TransferRow) : Except Refusal Unit := do
  require (prior.value == file) "import_transfer_changed"
  require (prior.state == .intent || prior.state == .verified)
    "import_transfer_state_changed"

/-- Another transfer of the run has the destination. -/
def Journal.collides
    (journal : Journal isUuid)
    (operationId : OperationId)
    (file : ImportTransfer) : Bool :=
  journal.transfers.entries.any fun entry =>
    entry.1.1 == operationId &&
      entry.2.destinationRoot == file.destinationRoot &&
        entry.2.destinationPath == file.destinationPath

/-- The statements that record a transfer before its file is touched. -/
def intentBody
    (operationId : OperationId)
    (planned : PlannedCache)
    (file : ParsedTransfer) : Body isUuid where
  checks := fun journal => do
    let _ ← journal.run operationId true
    require
      ((journal.plannedFiles planned operationId).1.all
        (isPlanned · file.val))
      "import_transfer_not_planned"
    match journal.transfers.lookup (operationId, file.val.id) with
    | some prior =>
        checkPrior file prior
    | none =>
        require (!journal.collides operationId file.val)
          "import_transfer_collision"
  write := fun journal =>
    if (operationId, file.val.id) ∈ journal.transfers then
      journal
    else
      { journal with
        transfers :=
          journal.transfers.insert (operationId, file.val.id)
            { value := file
              state := .intent
              destinationRoot := file.val.destinationRoot
              destinationPath := file.val.destinationPath } }

/-- Parse a transfer that is to be recorded. -/
def parseTransfer
    (input : Input ImportTransfer) : Except Refusal ParsedTransfer := do
  let file ← input.parse ImportTransfer.matchesSchema "import_transfer_invalid"
  require (!file.val.contradicts) "import_transfer_invalid"
  require (!file.val.crossesFilesystem) "import_relocation_cross_filesystem"
  return file

/-- What was measured of a file. -/
structure Receipt where
  sha256 : String
  bytes : String
deriving DecidableEq

/-- The receipt's schema. -/
def Receipt.matchesSchema
    (receipt : Receipt) : Bool :=
  isImportHash receipt.sha256 && isDecimal receipt.bytes

/-- A receipt agrees with the transfer it is about. -/
def Receipt.agrees
    (receipt : Receipt)
    (file : ImportTransfer) : Bool :=
  receipt.sha256 == file.sha256 && receipt.bytes == file.bytes

/-- The recorded transfer of a file. -/
def Journal.transfer
    (journal : Journal isUuid)
    (operationId : OperationId)
    (fileId : FileId) : Except Refusal TransferRow :=
  match journal.transfers.lookup (operationId, fileId) with
  | none => .error { code := "import_transfer_missing" }
  | some row => .ok row

/-- The statements that move a transfer from one state to another. -/
def moveBody
    (operationId : OperationId)
    (fileId : FileId)
    (agrees : ImportTransfer → Bool)
    (origin target : TransferState) : Body isUuid where
  checks := fun journal => do
    let _ ← journal.run operationId true
    let row ← journal.transfer operationId fileId
    require (agrees row.value.val) "import_transfer_verification_failed"
    require (row.state == target || row.state == origin)
      "import_transfer_state_changed"
  write := setTransferState operationId fileId target

/-- Move a transfer, with the receipt of what was measured where one is due. -/
def Journal.transition
    (journal : Journal isUuid)
    (operationId : OperationId)
    (fileId : FileId)
    (origin target : TransferState)
    (receipt : Option (Input Receipt))
    (available : Bool) : Journal isUuid × Except Refusal Unit :=
  match receipt with
  | none =>
      if target = .verified ∨ target = .rolledBack then
        (journal, .error { code := "import_transfer_verification_failed" })
      else
        journal.atomic operationId available
          (moveBody operationId fileId (fun _ => true) origin target)
  | some input =>
      match input.parse Receipt.matchesSchema
          "import_transfer_verification_failed" with
      | .error refusal =>
          (journal, .error refusal)
      | .ok receipt =>
          journal.atomic operationId available
            (moveBody operationId fileId receipt.val.agrees origin target)

/-- A copy was verified. -/
def Journal.verified
    (journal : Journal isUuid)
    (operationId : OperationId)
    (fileId : FileId)
    (receipt : Input Receipt)
    (available : Bool) : Journal isUuid × Except Refusal Unit :=
  journal.transition operationId fileId .intent .verified (some receipt)
    available

/-- A verified transfer is about to be undone. -/
def Journal.rollbackIntent
    (journal : Journal isUuid)
    (operationId : OperationId)
    (fileId : FileId)
    (available : Bool) : Journal isUuid × Except Refusal Unit :=
  journal.transition operationId fileId .verified .rollbackIntent none
    available

/-- A transfer was undone. -/
def Journal.rolledBack
    (journal : Journal isUuid)
    (operationId : OperationId)
    (fileId : FileId)
    (receipt : Input Receipt)
    (available : Bool) : Journal isUuid × Except Refusal Unit :=
  journal.transition operationId fileId .rollbackIntent .rolledBack
    (some receipt) available

/-- What was measured of a file that was never transferred. -/
structure CancelReceipt where
  sha256 : String
  bytes : String
  sourceIdentity : SourceIdentity
  destinationAbsent : Bool
deriving DecidableEq

/-- The cancellation receipt's schema. -/
def CancelReceipt.matchesSchema
    (receipt : CancelReceipt) : Bool :=
  isImportHash receipt.sha256 && isDecimal receipt.bytes &&
    receipt.sourceIdentity.matchesSchema && receipt.destinationAbsent

/-- A cancellation receipt agrees with the transfer it is about. -/
def CancelReceipt.agrees
    (receipt : CancelReceipt)
    (file : ImportTransfer) : Bool :=
  receipt.sha256 == file.sha256 && receipt.bytes == file.bytes &&
    receipt.sourceIdentity == file.sourceIdentity

/-- A transfer that touched nothing is cancelled. -/
def Journal.cancelIntent
    (journal : Journal isUuid)
    (operationId : OperationId)
    (fileId : FileId)
    (receipt : Input CancelReceipt)
    (available : Bool) : Journal isUuid × Except Refusal Unit :=
  match receipt.parse CancelReceipt.matchesSchema
      "import_transfer_verification_failed" with
  | .error refusal =>
      (journal, .error refusal)
  | .ok receipt =>
      journal.atomic operationId available
        (moveBody operationId fileId receipt.val.agrees .intent .cancelled)

/-- Writers of a complete and verified run are about to start. -/
def Journal.writersStarting
    (journal : Journal isUuid)
    (operationId : OperationId)
    (available : Bool) : Journal isUuid × Except Refusal Unit :=
  journal.atomic operationId available {
    checks := fun journal => do
      let _ ← journal.run operationId false
      let review ← journal.review operationId
      journal.assertCompleteTransfers operationId review.plan.val
      require review.verification.isSome "import_reconciliation_missing"
    write := setRun operationId fun run => { run with writersStarting := true }
  }

/-- A run is given up. -/
def Journal.abandon
    (journal : Journal isUuid)
    (operationId : OperationId)
    (available : Bool) : Journal isUuid × Except Refusal Unit :=
  journal.atomic operationId available {
    checks := fun journal =>
      require (decide (operationId ∈ journal.runs)) "import_journal_missing"
    write := setRun operationId fun run => { run with abandoned := true }
  }

end Frameleaf.Manager
