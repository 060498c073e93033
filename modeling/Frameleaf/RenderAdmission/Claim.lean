import Frameleaf.MediaOperation.Row
import Frameleaf.RenderAdmission.Output

namespace Frameleaf.RenderAdmission

open MediaOperation

/-!
# Which operations a render worker may claim

A claim passes one gate after the other; the first gate that it does not pass
names the reason of its refusal.
-/

/-- Why a worker is not given an operation. -/
inductive RenderWorkerRefusalReason where
  | workerRevoked
  | sessionExpired
  | conformanceStale
  | engineDigestMismatch
  | destinationMismatch
  | workerMismatch
  | scopeExceeded
  | workerConcurrency
  | userConcurrency
  | gpuMemoryInsufficient
  | destinationUnavailable
  | codecUnsupported
deriving DecidableEq, Repr

/-- Whether a destination can take work. -/
inductive HealthState where
  | available
  | unavailable
  | unknown
deriving DecidableEq, Repr

/-- The worker of a claim. -/
structure Worker where
  id : String
  name : String
  destination : MediaOperationDestination
  revoked : Bool
  kinds : List MediaOperationKind
  activeOperations : Number
  maxConcurrentOperations : Number
  engineDigest : Option String
  conformanceMaxAgeMs : Number

/-- The session of a claim, with what its worker was admitted with. -/
structure Session where
  expiresAt : Number
  revoked : Bool
  scopes : List MediaOperationKind
  gpuMemoryBytes : Option Number
  engineDigest : Option String
  conformanceReportedAt : Number
  capabilities : Option Capabilities

/-- The operation of a claim. -/
structure Operation where
  kind : MediaOperationKind
  destination : MediaOperationDestination
  destinationDetail : Option String
  snapshot : Record
  settings : Option Record

/-- The account of an operation. -/
structure Owner where
  activeOperations : Number
  maxConcurrentOperations : Number

/-- All that a claim is decided by. -/
structure ClaimAdmissionInput where
  worker : Worker
  session : Session
  operation : Operation
  owner : Owner
  destinationHealth : HealthState
  now : Number

/-- How far a worker's clock may be ahead. -/
def clockSkewMs : Number :=
  .finite (5 * 60 * 1000)

/-- The text that names something. -/
def named
    (text : Option String) : Option String :=
  text.filter (· ≠ "")

/-- The text of a snapshot under some name. -/
def snapshotString
    (snapshot : Record)
    (key : String) : Option String :=
  named (asString (snapshot key))

/-- Decimal digits only. -/
def isDigits
    (text : String) : Bool :=
  text ≠ "" && text.toList.all Char.isDigit

/-- The number of a snapshot under some name. -/
def snapshotNumber
    (snapshot : Record)
    (key : String) : Option Number :=
  match snapshot key with
  | some (.number value) => if value.isFinite then some value else none
  | some (.string text) =>
      if isDigits text then some (.ofDigits text) else none
  | _ => none

/-- The session is still evidence of a qualified renderer. -/
def isQualifiedRenderSession
    (worker : Worker)
    (session : Session)
    (now : Number) : Bool :=
  let reportedAt := session.conformanceReportedAt
  if worker.revoked || session.revoked || session.expiresAt.le now then
    false
  else if reportedAt.isNone || (now.add clockSkewMs).lt reportedAt ||
      worker.conformanceMaxAgeMs.lt (now.sub reportedAt) then
    false
  else if (named worker.engineDigest).isSome ∧
      worker.engineDigest ≠ session.engineDigest then
    false
  else
    session.scopes.any isRenderWorkerMediaOperationKind

/-- The paired profiles of an output need the engine that was measured. -/
def pairedRefusal
    (input : ClaimAdmissionInput)
    (output : RequiredOutput) : Option RenderWorkerRefusalReason :=
  let requiredEngine := snapshotString input.operation.snapshot "engineDigest"
  if output.profiles.isNone then
    none
  else if requiredEngine = none ∨ named input.worker.engineDigest = none ∨
      input.worker.engineDigest ≠ input.session.engineDigest ∨
      input.session.engineDigest ≠ requiredEngine then
    some .engineDigestMismatch
  else if !isQualifiedRenderSession input.worker input.session input.now then
    some .conformanceStale
  else
    none

/-- The session has verified less memory than the operation needs. -/
def lacksMemory
    (input : ClaimAdmissionInput) : Bool :=
  let gpuHint := snapshotNumber input.operation.snapshot "gpuMemoryHintBytes"
  match input.operation.settings.bind renderMemoryOf,
      input.session.gpuMemoryBytes with
  | some requiredMemory, some bytes =>
      !bytes.isSafeInteger || bytes.lt (Number.max (.finite requiredMemory)
        (gpuHint.getD (.finite 0)))
  | _, _ => true

/-- The gates of a claim up to the engine that its snapshot names. -/
def workerRefusal
    (input : ClaimAdmissionInput) : Option RenderWorkerRefusalReason :=
  let { worker, session, operation, destinationHealth, now, .. } := input
  let requiredEngine := snapshotString operation.snapshot "engineDigest"
  let detail := named operation.destinationDetail
  if worker.revoked || session.revoked then
    some .workerRevoked
  else if session.expiresAt.le now then
    some .sessionExpired
  else if operation.destination ≠ worker.destination then
    some .destinationMismatch
  else if detail.isSome ∧ detail ≠ some worker.id ∧
      detail ≠ some worker.name then
    some .workerMismatch
  else if !isRenderWorkerMediaOperationKind operation.kind ||
      operation.kind ∉ session.scopes || operation.kind ∉ worker.kinds then
    some .scopeExceeded
  else if destinationHealth = .unavailable then
    some .destinationUnavailable
  else if requiredEngine.isSome ∧ (named session.engineDigest).isSome ∧
      requiredEngine ≠ session.engineDigest then
    some .engineDigestMismatch
  else
    none

/-- The gates of a claim that count operations. -/
def concurrencyRefusal
    (input : ClaimAdmissionInput) : Option RenderWorkerRefusalReason :=
  if input.worker.maxConcurrentOperations.le
      input.worker.activeOperations then
    some .workerConcurrency
  else if input.owner.maxConcurrentOperations.le
      input.owner.activeOperations then
    some .userConcurrency
  else
    none

/-- Why a worker may not take an operation; nothing where it may. -/
def evaluateClaimAdmission
    (language : Language)
    (input : ClaimAdmissionInput) : Option RenderWorkerRefusalReason :=
  match workerRefusal input with
  | some reason => some reason
  | none =>
      let output := input.operation.settings.bind requiredOutput
      match output.bind (pairedRefusal input) with
      | some reason => some reason
      | none =>
          if output.any (fun output =>
              !provesOutput language input.session.capabilities output) then
            some .codecUnsupported
          else if lacksMemory input then
            some .gpuMemoryInsufficient
          else
            concurrencyRefusal input

/-- The machine of a session, as an export may be offered for it. -/
def candidateOf
    (session : Session)
    (colorPrecision : Option RenderColorPrecision) : RenderOutputCandidate where
  gpuMemoryBytes := session.gpuMemoryBytes
  codecs := (session.capabilities.map (·.codecs)).getD []
  formats := session.capabilities.map (·.formats)
  colorPrecision
  engineDigest := session.engineDigest

end Frameleaf.RenderAdmission
