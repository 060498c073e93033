import Mathlib.Algebra.GroupWithZero.Nat
import Mathlib.Data.List.Nodup
import Frameleaf.Manager.Contracts

namespace Frameleaf.Manager

/-!
# Import plans and their checks

A plan names every file of an import with its place at the source and at the
destination.  What a schema accepts is a value together with the proof that it
passed, so a stored plan, transfer or verification is a checked one.
-/

/-- A value given from outside: of another shape, or of the expected one. -/
inductive Input (α : Type) where
  | malformed
  | shaped (value : α)

/-- Accept the values of the expected shape that pass a check. -/
def Input.parse
    {α : Type}
    (check : α → Bool)
    (code : String) :
    Input α → Except Refusal { value : α // check value = true }
  | .malformed => .error { code := code }
  | .shaped value =>
      if passed : check value = true then
        .ok ⟨value, passed⟩
      else
        .error { code := code }

/-- The number of UTF-16 code units of a text. -/
def codeUnits (text : String) : ℕ :=
  (text.toList.map fun character =>
    if character.toNat < 0x10000 then 1 else 2).sum

/-- `[a-f0-9]` -/
def isHexDigit (character : Char) : Bool :=
  ('0' ≤ character && character ≤ '9') || ('a' ≤ character && character ≤ 'f')

/-- `/^[a-f0-9]{64}$/` -/
def isImportHash (text : String) : Bool :=
  text.toList.length == 64 && text.toList.all isHexDigit

/-- `[1-9]\d*` -/
def isPositive : List Char → Bool
  | [] => false
  | first :: rest =>
      ('1' ≤ first && first ≤ '9') &&
        rest.all fun digit => '0' ≤ digit && digit ≤ '9'

/-- `/^(0|[1-9]\d*)$/` -/
def isDecimal (text : String) : Bool :=
  text.toList == ['0'] || isPositive text.toList

/-- `/^(0|-?[1-9]\d*)$/` -/
def isNanoseconds (text : String) : Bool :=
  match text.toList with
  | '-' :: rest => isPositive rest
  | _ => isDecimal text

/-- `z.string().min(1).max(1024)` -/
def isId (text : String) : Bool :=
  1 ≤ codeUnits text && codeUnits text ≤ 1024

/-- `/^[a-z]:/i` -/
def hasDrive : List Char → Bool
  | letter :: ':' :: _ => letter.isAlpha
  | _ => false

/-- A path below a root: no drive, no backslash, no empty or dotted part. -/
def isRelativePath (text : String) : Bool :=
  let characters := text.toList
  1 ≤ codeUnits text && codeUnits text ≤ 4096 &&
    characters.head? != some '/' && !characters.contains '\\' &&
    !hasDrive characters && characters.all (' ' ≤ ·) &&
    (characters.splitOn '/').all fun part =>
      part != [] && part != ['.'] && part != ['.', '.']

/-- Resolve the dotted parts of an absolute path. -/
def resolveParts (parts : List (List Char)) : List (List Char) :=
  parts.foldl
    (fun resolved part =>
      if part = [] ∨ part = ['.'] then
        resolved
      else if part = ['.', '.'] then
        resolved.dropLast
      else
        resolved ++ [part])
    []

/-- `posix.normalize` of an absolute path. -/
def normalizeAbsolute (path : List Char) : List Char :=
  let resolved := resolveParts (path.splitOn '/')
  let joined := '/' :: ['/'].intercalate resolved
  if path.getLast? = some '/' ∧ resolved ≠ [] then joined ++ ['/'] else joined

/-- `posix.join` of an absolute path with another path. -/
def joinPath (root path : String) : List Char :=
  normalizeAbsolute (root.toList ++ '/' :: path.toList)

/-- An absolute path in its normal form. -/
def isRootPath (text : String) : Bool :=
  let characters := text.toList
  2 ≤ codeUnits text && codeUnits text ≤ 4096 &&
    characters.head? == some '/' && normalizeAbsolute characters == characters &&
    characters.getLast? != some '/' && !characters.contains '\\' &&
    characters.all (' ' ≤ ·)

/-- What becomes of an imported file at its source. -/
inductive TransferMode where
  | copy
  | adopt
  | relocate
deriving DecidableEq, Repr

/-- The identity of a file at the source. -/
structure SourceIdentity where
  device : String
  inode : String
  bytes : String
  mtimeNs : String
  ctimeNs : String
  links : String
deriving DecidableEq

/-- Where the file belongs in the library; plans of version 1 leave it out. -/
structure Placement where
  sourceAssetId : String
  sourceFileId : String
deriving DecidableEq

/-- One file of an import. -/
structure ImportTransfer where
  id : String
  mode : TransferMode
  sourceRoot : String
  sourcePath : String
  destinationRoot : String
  destinationPath : String
  sha256 : String
  bytes : String
  sourceIdentity : SourceIdentity
  destinationDevice : String
  placement : Option Placement
deriving DecidableEq

/-- `importSourceIdentitySchema` -/
def SourceIdentity.matchesSchema
    (identity : SourceIdentity) : Bool :=
  isDecimal identity.device && isDecimal identity.inode &&
    isDecimal identity.bytes && isNanoseconds identity.mtimeNs &&
    isNanoseconds identity.ctimeNs && isDecimal identity.links

/-- The placement's part of the transfer schema. -/
def Placement.matchesSchema
    (placement : Placement) : Bool :=
  isId placement.sourceAssetId && isId placement.sourceFileId

/-- `importTransferSchema` -/
def ImportTransfer.matchesSchema
    (file : ImportTransfer) : Bool :=
  isId file.id && isId file.sourceRoot && isRelativePath file.sourcePath &&
    isId file.destinationRoot && isRelativePath file.destinationPath &&
    isImportHash file.sha256 && isDecimal file.bytes &&
    file.sourceIdentity.matchesSchema && isDecimal file.destinationDevice &&
    file.placement.all Placement.matchesSchema

/-- The product an import reads from. -/
inductive SourceKind where
  | immich
  | photoprism
  | librephotos
  | photoview
  | piwigo
  | lychee
  | pigallery2
  | ente
  | nextcloud
  | synology
deriving DecidableEq, Repr

/-- The state of the source that was reviewed. -/
structure ImportSource where
  kind : SourceKind
  version : String
  identity : String
  revision : String
  schemaSha256 : String
deriving DecidableEq

/-- An owner at the source and the user it becomes. -/
structure PlanOwner where
  sourceId : String
  destinationId : String
deriving DecidableEq

/-- A folder that files are read from or written to. -/
structure PlanRoot where
  id : String
  path : String
  device : String
  inode : String
deriving DecidableEq

/-- The versions of a plan; version 2 has the placement of every file. -/
inductive PlanVersion where
  | one
  | two
deriving DecidableEq, Repr

/-- A reviewed import, file by file. -/
structure ImportPlan where
  version : PlanVersion
  source : ImportSource
  destinationId : String
  owners : List PlanOwner
  roots : List PlanRoot
  files : List ImportTransfer
deriving DecidableEq

section Plan

-- `z.uuid()` of the schema library
variable (isUuid : String → Bool)

/-- `planSchema` -/
def ImportPlan.matchesSchema
    (plan : ImportPlan) : Bool :=
  isId plan.source.version && isId plan.source.identity &&
    isId plan.source.revision && isImportHash plan.source.schemaSha256 &&
    isUuid plan.destinationId &&
    (plan.owners.all fun owner =>
      isId owner.sourceId && isUuid owner.destinationId) &&
    (plan.roots.all fun root =>
      isId root.id && isRootPath root.path && isDecimal root.device &&
        isDecimal root.inode) &&
    plan.files.all fun file =>
      file.matchesSchema &&
        (file.placement.isSome == (plan.version == .two))

/-- `new Map(plan.roots.map((root) => [root.id, root])).get(id)` -/
def ImportPlan.root
    (plan : ImportPlan)
    (id : String) : Option PlanRoot :=
  plan.roots.reverse.find? (·.id == id)

/-- `new Set(values).size === values.length` -/
def unique
    {α : Type}
    [DecidableEq α]
    (values : List α) : Bool :=
  decide values.Nodup

/-- A file that its roots and its own figures contradict. -/
def ImportPlan.fileInvalid
    (plan : ImportPlan)
    (file : ImportTransfer) : Bool :=
  match plan.root file.sourceRoot, plan.root file.destinationRoot with
  | some source, some destination =>
      file.bytes != file.sourceIdentity.bytes ||
        file.sourceIdentity.links == "0" ||
        source.device != file.sourceIdentity.device ||
        destination.device != file.destinationDevice ||
        (file.mode == .relocate && source.device != destination.device)
  | _, _ => true

/-- What two files with the same source file must agree on. -/
def ImportTransfer.sourceFacts
    (file : ImportTransfer) :
    String × String × SourceIdentity × String × String :=
  (file.sourceRoot, file.sourcePath, file.sourceIdentity, file.sha256,
    file.bytes)

/-- Placements repeat no pair, and a source file only as copies of one file. -/
def placementsValid : List ImportTransfer → List ImportTransfer → Bool
  | _, [] => true
  | earlier, file :: later =>
      let sourceFileId := file.placement.map Placement.sourceFileId
      let previous := earlier.find? fun other =>
        other.placement.map Placement.sourceFileId == sourceFileId
      !(earlier.map ImportTransfer.placement).contains file.placement &&
        (previous.all fun other =>
          other.mode == .copy && file.mode == .copy &&
            other.sourceFacts == file.sourceFacts) &&
        placementsValid (file :: earlier) later

/-- `parseImportPlan` accepts these plans. -/
def ImportPlan.isValid
    (plan : ImportPlan) : Bool :=
  plan.matchesSchema isUuid &&
    unique (plan.owners.map PlanOwner.sourceId) &&
    unique (plan.owners.map fun owner => owner.destinationId.toLower) &&
    unique (plan.roots.map PlanRoot.id) &&
    unique (plan.roots.map PlanRoot.path) &&
    unique (plan.roots.map fun root => (root.device, root.inode)) &&
    unique (plan.files.map ImportTransfer.id) &&
    unique (plan.files.map fun file =>
      joinPath (((plan.root file.destinationRoot).map PlanRoot.path).getD "/")
        file.destinationPath) &&
    unique (plan.files.map fun file =>
      (file.destinationRoot, file.destinationPath)) &&
    !plan.files.any plan.fileInvalid &&
    (plan.version == .one || placementsValid [] plan.files)

/-- A plan that was parsed. -/
abbrev ParsedPlan := { plan : ImportPlan // plan.isValid isUuid = true }

/-- Parse a plan. -/
def parseImportPlan
    (input : Input ImportPlan) : Except Refusal (ParsedPlan isUuid) :=
  input.parse (ImportPlan.isValid isUuid) "import_plan_invalid"

/-- What was expected of the imported records and what was found. -/
structure Comparison where
  expectedSha256 : String
  actualSha256 : String
deriving DecidableEq

/-- The verification of an import. -/
structure ImportVerification where
  manifestSha256 : String
  planSha256 : String
  records : Comparison
  relationships : Comparison
  permissions : Comparison
  regenerationRunId : String
deriving DecidableEq

/-- The comparison's part of the verification schema. -/
def Comparison.matchesSchema
    (comparison : Comparison) : Bool :=
  isImportHash comparison.expectedSha256 &&
    isImportHash comparison.actualSha256

/-- `importVerificationSchema` -/
def ImportVerification.matchesSchema
    (verification : ImportVerification) : Bool :=
  isImportHash verification.manifestSha256 &&
    isImportHash verification.planSha256 &&
    verification.records.matchesSchema &&
    verification.relationships.matchesSchema &&
    verification.permissions.matchesSchema &&
    isUuid verification.regenerationRunId

end Plan

/-- What was found of the imported records is what was expected. -/
def ImportVerification.matchesExpected
    (verification : ImportVerification) : Bool :=
  verification.records.expectedSha256 == verification.records.actualSha256 &&
    verification.relationships.expectedSha256 ==
      verification.relationships.actualSha256 &&
    verification.permissions.expectedSha256 ==
      verification.permissions.actualSha256

end Frameleaf.Manager
