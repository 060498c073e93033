import Frameleaf.Lib.Outcome
import Frameleaf.Manager.Contracts

namespace Frameleaf.Manager

open Json

/-!
# The operation store

Every manager process opens the same database.  A process works on operations
in its own memory and remembers with each one the stored value that it was
read or written as.  The processes interleave statement by statement: a start
is a lookup and then an insertion, an interruption a listing and then one save
for each operation that was running.
-/

/-- One row of the operations table; the table keeps its rows in order. -/
structure Row where
  id : OperationId
  requestKey : String
  active : Option ℕ
  value : Operation
deriving DecidableEq

/-- The rows a unique index refuses to have together with a new row. -/
def Row.conflicts
    (row new : Row) : Bool :=
  row.id == new.id || row.requestKey == new.requestKey ||
    (row.active == some 1 && new.active == some 1)

/-- What a statement that the database refuses comes to. -/
inductive StatementFailure where
  | uniqueViolation
  | unavailable
deriving DecidableEq, Repr

/-- `INSERT INTO operations VALUES (?,?,1,?)` -/
def insertOperation
    (rows : List Row)
    (id : OperationId)
    (requestKey : String)
    (value : Operation) : Except StatementFailure (List Row) :=
  let new : Row := {
    id := id
    requestKey := requestKey
    active := some 1
    value := value
  }
  if rows.any (Row.conflicts · new) then
    .error .uniqueViolation
  else
    .ok (rows ++ [new])

/-- Whether an update by identifier and previous value takes a row. -/
def Row.isAt
    (id : OperationId)
    (previous : Operation)
    (row : Row) : Bool :=
  row.id == id && row.value == previous

/-- Write the state and value of a row that an update takes. -/
def Row.write
    (id : OperationId)
    (previous : Operation)
    (active : Option ℕ)
    (value : Operation)
    (row : Row) : Row :=
  if row.isAt id previous then
    { row with active := active, value := value }
  else
    row

/-- `UPDATE operations SET active=?, value=? WHERE id=? AND value=?` -/
def updateOperation
    (rows : List Row)
    (active : Option ℕ)
    (value : Operation)
    (id : OperationId)
    (previous : Operation) : Except StatementFailure (List Row × ℕ) :=
  let written := rows.map (Row.write id previous active value)
  if (written.filter (·.active == some 1)).length > 1 then
    .error .uniqueViolation
  else
    .ok (written, rows.countP (Row.isAt id previous))

/-- `SELECT value FROM operations WHERE request_key=?` -/
def selectByRequestKey
    (rows : List Row)
    (requestKey : String) : Option Operation :=
  (rows.find? fun row => row.requestKey == requestKey).map Row.value

/-- `SELECT value FROM operations WHERE active=1` -/
def selectActive
    (rows : List Row) : Option Operation :=
  (rows.find? fun row => row.active == some 1).map Row.value

/-- `SELECT value FROM operations ORDER BY rowid DESC LIMIT 100` -/
def selectHistory
    (rows : List Row) : List Operation :=
  (rows.reverse.take 100).map Row.value

/-- An operation in a process's memory, with the stored value it stands for. -/
structure Held where
  operation : Operation
  version : Option Operation
deriving DecidableEq

/-- An operation just decoded from its stored value. -/
def decode
    (value : Operation) : Held where
  operation := value
  version := some value

/-- What a process has still to do of the call it is in. -/
inductive Call where
  | idle
  /-- A start has found its request key unused and has yet to insert. -/
  | inserting (operation : Operation) (requestKey : String)
  /-- An interruption has yet to save these of the operations it listed. -/
  | interrupting (handles : List ℕ)
deriving DecidableEq

/-- The memory of a process. -/
structure Process where
  held : List Held := []
  call : Call := .idle

/-- A process takes another operation into memory. -/
def Process.hold
    (process : Process)
    (taken : List Held) : Process :=
  { process with held := process.held ++ taken }

/-- A process changes the operation behind a handle. -/
def Process.replace
    (process : Process)
    (handle : ℕ)
    (held : Held) : Process :=
  { process with held := process.held.set handle held }

/-- A process is done with its call. -/
def Process.finish
    (process : Process) : Process :=
  { process with call := .idle }

/-- The reviewed import that a start may be bound to. -/
structure ReviewedImport where
  id : OperationId
  sha256 : String
deriving DecidableEq

/-- `[a-f0-9]` -/
def isLowerHex (character : Char) : Bool :=
  character.isDigit || (character.val ≥ 97 && character.val ≤ 102)

/-- `[a-f0-9]{8}-[a-f0-9]{4}-4[a-f0-9]{3}-[89ab][a-f0-9]{3}-[a-f0-9]{12}` -/
def isUuidV4 (text : String) : Bool :=
  let at' : List (Char → Bool) :=
    List.replicate 8 isLowerHex ++ [(· == '-')] ++
      List.replicate 4 isLowerHex ++ [(· == '-'), (· == '4')] ++
      List.replicate 3 isLowerHex ++
      [(· == '-'), fun character => "89ab".contains character] ++
      List.replicate 3 isLowerHex ++ [(· == '-')] ++
      List.replicate 12 isLowerHex
  text.length == at'.length &&
    (at'.zip text.toList).all fun position => position.1 position.2

/-- `[a-f0-9]{64}` -/
def isSha256 (text : String) : Bool :=
  text.length == 64 && text.toList.all isLowerHex

/-- A start may name a reviewed import only for an import, and in full. -/
def ReviewedImport.valid
    (kind : OperationKind)
    (reviewedImport : ReviewedImport) : Bool :=
  kind == .import && isUuidV4 reviewedImport.id &&
    isSha256 reviewedImport.sha256

/-- The receipt that binds an operation to its reviewed import. -/
def reviewedReceipt : String := "reviewed-common-import"

/-- An operation found under a request key is the reviewed one. -/
def ReviewedImport.isOf
    (reviewedImport : ReviewedImport)
    (prior : Operation) : Bool :=
  prior.id == reviewedImport.id &&
    prior.receipts.get? reviewedReceipt ==
      some (.string reviewedImport.sha256)

/-- What a request key is looked up for. -/
def requested
    (rows : List Row)
    (kind : Option OperationKind)
    (requestKey : String)
    (input : Fields) : Except Refusal (Option Operation) :=
  match selectByRequestKey rows requestKey with
  | none =>
      .ok none
  | some operation =>
      if kind.any (operation.kind != ·) || operation.input != input then
        .error { code := "request_key_reused" }
      else
        .ok (some operation)

/-- The operation that a start under an unused request key creates. -/
def newOperation
    (kind : OperationKind)
    (input : Fields)
    (reviewedImport : Option ReviewedImport)
    (fresh : OperationId)
    (createdAt updatedAt : ℤ) : Operation where
  id := (reviewedImport.map ReviewedImport.id).getD fresh
  kind := kind
  state := .running
  step := none
  completed := []
  error := none
  createdAt := createdAt
  updatedAt := updatedAt
  input := input
  receipts :=
    match reviewedImport with
    | none => []
    | some reviewed => [(reviewedReceipt, .string reviewed.sha256)]

/-- The first half of a start: the prior operation, or the one to insert. -/
def beginStart
    (rows : List Row)
    (kind : OperationKind)
    (requestKey : String)
    (input : Fields)
    (reviewedImport : Option ReviewedImport)
    (fresh : OperationId)
    (createdAt updatedAt : ℤ) : Except Refusal (Operation ⊕ Operation) := do
  if reviewedImport.any (!·.valid kind) then
    throw { code := "invalid_import_authority" }
  match ← requested rows (some kind) requestKey input with
  | some prior =>
      if reviewedImport.any (!·.isOf prior) then
        throw { code := "invalid_import_authority" }
      return .inl prior
  | none =>
      return .inr
        (newOperation kind input reviewedImport fresh createdAt updatedAt)

/-- `operation.updatedAt = Date.now()` -/
def Held.stamp
    (held : Held)
    (now : ℤ) : Held :=
  { held with operation := { held.operation with updatedAt := now } }

/-- What a save writes into the column that the unique index guards. -/
def Operation.activeColumn
    (operation : Operation) : Option ℕ :=
  if operation.state = .complete then none else some 1

/-- What a save does to the rows and to the operation in memory. -/
inductive SaveResult where
  | saved (rows : List Row) (held : Held)
  | refused (refusal : Refusal) (held : Held)
  | failed (failure : StatementFailure) (held : Held)

/-- Save an operation over the value it was read or written as. -/
def save
    (rows : List Row)
    (held : Held)
    (now : ℤ)
    (available : Bool) : SaveResult :=
  match held.version with
  | none =>
      .refused { code := "operation_journal_changed" } held
  | some previous =>
      let operation := (held.stamp now).operation
      if !available then
        .failed .unavailable (held.stamp now)
      else
        match updateOperation rows operation.activeColumn operation
            operation.id previous with
        | .error failure =>
            .failed failure (held.stamp now)
        | .ok (written, changes) =>
            if changes ≠ 1 then
              .refused { code := "operation_journal_changed" } (held.stamp now)
            else
              .saved written (decode operation)

/-- What an interruption makes of an operation that was running. -/
def Held.interrupt
    (held : Held) : Held :=
  { held with
    operation :=
      { held.operation with
        state := .interrupted
        error := some "operation_interrupted" } }

end Frameleaf.Manager
