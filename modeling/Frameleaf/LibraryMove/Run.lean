import Frameleaf.LibraryMove.World

namespace Frameleaf.LibraryMove

open Manager Programs

/-!
# The programs of a library move

The steps of a move, the way back to the original folder, and how the manager
launches, resumes and recovers an operation.  Everything is written as in the
source, an action for each call that leaves the process or reads its memory.
-/

/-- A part of the manager's work on a move. -/
abbrev Work (α : Type) := Job Action Answer Failure α

/-- Where the manager keeps its own files. -/
structure Places where
  directory : Path
  backups : Path

/-- Do not go on. -/
def refuse {α : Type}
    (code : String) : Work α :=
  throw (.code code)

/-- Perform one action. -/
def perform
    (action : Action) : Program Action Answer (Answer action) :=
  act action

/-- Read the operation in memory. -/
def readMemory : Work MoveOperation :=
  ExceptT.lift (perform .readMemory)

/-- Change the operation in memory. -/
def edit
    (change : MoveOperation → MoveOperation) : Work PUnit :=
  ExceptT.lift (perform (.edit change))

/-- Save the operation. -/
def save : Work PUnit :=
  ExceptT.mk (perform .save)

/-- Change the receipts in memory. -/
def editReceipts
    (change : Receipts → Receipts) : Work PUnit :=
  edit fun operation => { operation with receipts := change operation.receipts }

/-- Verify something. -/
def verify
    (check : Check) : Work PUnit :=
  ExceptT.mk (perform (.verify check))

/-- The containers of the installation. -/
def inventory : Work (List Container) :=
  ExceptT.mk (perform .inventory)

/-- The process or the marker asks to stop the move. -/
def isCancelled : Work Bool :=
  ExceptT.mk (perform .isCancelled)

/-- Do not go on once the move is to stop. -/
def refuseIfCancelled : Work PUnit := do
  let cancelled ← isCancelled
  if cancelled then
    refuse "media_move_cancelled"

/-- The identity of a folder. -/
def identity
    (path : Path) : Work String :=
  ExceptT.mk (perform (.identify path))

/-- The one media folder of an installation that can be moved. -/
def movable
    (installation : Option Installation) : Except Failure Installation :=
  match installation with
  | none =>
      .error (.code "no_installation")
  | some installation =>
      match installation.mounts with
      | [mount] =>
          if mount.type ≠ .bind ∨ mount.readOnly then
            .error (.code "unsupported_media_mappings")
          else
            .ok installation
      | _ =>
          .error (.code "unsupported_media_mappings")

/-- The installation, unless it cannot be moved. -/
def current : Work Installation := do
  let installation : Option Installation ←
    ExceptT.lift (perform .getInstallation)
  ExceptT.mk (.done (movable installation))

/-- The first mapping of an installation. -/
def Installation.library
    (installation : Installation) : Mount :=
  installation.mounts.headD
    { type := .volume, source := [], target := [], readOnly := true }

/-- The new drive overlaps a folder that is in use. -/
def overlaps
    (places : Places)
    (installation : Installation)
    (root : Path) : Bool :=
  [installation.library.source, installation.databaseRoot, places.directory,
    places.backups].any (overlap root)

/-- The folder that a move copies to. -/
def destinationOf
    (review : Review)
    (id : OperationId) : Path :=
  review.root ++
    ["frameleaf-" ++ review.current.id ++ "-media-" ++ id]

/-- The installation after a move. -/
def Installation.movedTo
    (installation : Installation)
    (destination : Path) : Installation :=
  { installation with
    mounts := [{ installation.library with source := destination }] }

/-- A service maps a folder that is moved. -/
def Service.maps
    (service : Service)
    (mount : Mount) : Bool :=
  (service.volumes.filter (· = mount)).length = 1

/-- The stack with its library at another folder. -/
def configuration
    (compose : Compose)
    (mount : Mount)
    (destination : Path) : Except Failure Compose :=
  match compose.find? fun service => service.name = serverService with
  | none =>
      .error (.code "media_mapping_changed")
  | some server =>
      if server.maps mount then
        .ok (compose.map fun service =>
          if service.name = serverService then
            { service with
              volumes := service.volumes.map fun volume =>
                if volume = mount then
                  { volume with source := destination }
                else
                  volume }
          else
            service)
      else
        .error (.code "media_mapping_changed")

/-- Whether the folders are still those that were reviewed. -/
def verifyIdentities
    (review : Review) : Work PUnit := do
  let source ← identity review.current.library.source
  if source ≠ review.sourceIdentity then
    refuse "media_mount_changed"
  let root ← identity review.root
  if root ≠ review.rootIdentity then
    refuse "media_mount_changed"

/-- No container of the installation runs or would start by itself. -/
def verifyInstallation : Work PUnit := do
  let owned ← inventory
  if owned.any fun container =>
      container.running || container.restart.name ≠ "no" then
    refuse "previous_installation_not_fenced"
  verify .autostart

/-- Stop containers and keep them from starting by themselves. -/
def stopContainers : List Container → Work PUnit
  | [] =>
      pure ⟨⟩
  | container :: rest => do
      ExceptT.mk (perform (.restartPolicy container.service { name := "no" }))
      ExceptT.mk (perform (.stopContainer container.service))
      stopContainers rest

/-- Stop the installation. -/
def stopInstallation
    (installation : Installation) : Work PUnit := do
  verify .autostart
  verify (.media installation.mounts)
  let owned ← inventory
  verify .autostart
  stopContainers owned
  verifyInstallation

/-- Run the copy helper. -/
def helper
    (action : HelperAction)
    (destination : Path) : Work CopyReceipt :=
  ExceptT.mk (perform (.help action destination))

/-- The server runs. -/
def serverRunning : Work Bool := do
  let containers ← inventory
  return containers.any fun container =>
    container.service = serverService && container.running

/-- Ask the server. -/
def ask
    (request : ServerRequest) : Work ServerPauseStatus :=
  ExceptT.mk (perform (.ask request))

/-- Lift the pause once the server answers, for a number of attempts. -/
def resumeServerFor : ℕ → Work Bool
  | 0 =>
      return false
  | attempts + 1 => do
      let resumed ←
        tryCatch
          (do
            let running ← serverRunning
            if running then
              let _ ← ask .resume
              editReceipts fun receipts => { receipts with serverResumed := true }
              save
            return running)
          fun _ => return false
      if resumed then
        return true
      else
        resumeServerFor attempts

/-- Lift the pause once the server answers; its own lease lifts it else. -/
def resumeServer : Work Bool := do
  let attempts : ℕ ← ExceptT.lift (perform .deadline)
  resumeServerFor (attempts + 1)

/-- Wait until nothing is in flight, for a number of attempts. -/
def drain
    (operationId : OperationId) : ℕ → ServerPauseStatus → Work PUnit
  | attempts, status =>
      if status.drained then
        pure ⟨⟩
      else do
        refuseIfCancelled
        match attempts with
        | 0 =>
            refuse "media_quiescence_timeout"
        | attempts + 1 => do
            let status ← ask .status
            if !status.paused ∨ status.operationId ≠ some operationId then
              refuse "media_quiescence_lost"
            drain operationId attempts status

/-- Pause a running server until nothing is in flight. -/
def quiesce
    (operationId : OperationId) : Work PUnit := do
  let running ← serverRunning
  if running then
    let attempts : ℕ ← ExceptT.lift (perform .deadline)
    tryCatch
      (do
        let status ← ask .pause
        drain operationId attempts status)
      fun failure => do
        let _ ← resumeServer
        match failure with
        | .refused refusal =>
            throw (.refused refusal)
        | .broken =>
            refuse "media_quiescence_unavailable"

/-- Put the restart policies back. -/
def restorePoliciesOf
    (containers : List Container) :
    List (String × RestartPolicy) → Work PUnit
  | [] =>
      pure ⟨⟩
  | (service, policy) :: rest =>
      if containers.any fun container => container.service = service then do
        ExceptT.mk (perform (.restartPolicy service
          (if policy.name = "on-failure" then policy
            else { name := policy.name })))
        restorePoliciesOf containers rest
      else
        refuse "managed_container_changed"

/-- Put the restart policies from before the move back. -/
def restorePolicies : Work PUnit := do
  let containers ← inventory
  let operation ← readMemory
  restorePoliciesOf containers (operation.receipts.writerPolicies.getD [])

/-- Remember that a step is completed. -/
def MoveOperation.complete
    (name : String)
    (receipt : StepReceipt)
    (operation : MoveOperation) : MoveOperation :=
  { operation with
    receipts :=
      { operation.receipts with
        steps := (name, receipt) ::
          operation.receipts.steps.filter (·.1 ≠ name) }
    completed := operation.completed ++ [name]
    step := none }

/-- The receipt of a completed step. -/
def MoveOperation.receipt
    (operation : MoveOperation)
    (name : String) : StepReceipt :=
  ((operation.receipts.steps.find? (·.1 = name)).map (·.2)).getD .done

/-- Run one journaled step once. -/
def step
    (name : String)
    (action : Work StepReceipt) : Work StepReceipt := do
  let operation ← readMemory
  if name ∈ operation.completed then
    return operation.receipt name
  else do
    edit fun operation => { operation with step := some name }
    save
    let receipt ← action
    edit (MoveOperation.complete name receipt)
    save
    return receipt

/-- Record the restart policies of the writers and stop them. -/
def stopWriters
    (review : Review) : Work StepReceipt := do
  let installation ← current
  if installation ≠ review.current then
    refuse "installation_changed"
  verify (.storage review.root review.bytes)
  verify (.media review.current.mounts)
  let operation ← readMemory
  quiesce operation.id
  let writers ← inventory
  editReceipts fun receipts =>
    { receipts with
      writerPolicies := receipts.writerPolicies.or
        (some (writers.map fun container =>
          (container.service, container.restart))) }
  save
  stopInstallation review.current
  return .done

/-- The checksum of the recovery point's dump, which is taken once. -/
def checkpointDump
    (operation : MoveOperation)
    (dump : Path) : Work String :=
  match operation.receipts.checkpointDump with
  | some receipt =>
      pure receipt
  | none => do
      verify .dump
      identity dump

/-- Keep a database recovery point with the stack of the original folder. -/
def checkpoint
    (places : Places) : Work PUnit := do
  let operation ← readMemory
  let dump := places.directory ++ ["checkpoints", operation.id, "database.dump"]
  let receipt ← checkpointDump operation dump
  let present ← identity dump
  if present ≠ receipt then
    refuse "checkpoint_dump_changed"
  editReceipts fun receipts => { receipts with checkpointDump := some receipt }
  save
  ExceptT.mk (perform .copyCompose)
  verify .snapshot

/-- Take the recovery point while only the database runs. -/
def takeCheckpoint
    (places : Places)
    (review : Review) : Work StepReceipt := do
  stopInstallation review.current
  ExceptT.mk (perform (.composeUp ["database"]))
  verify .snapshot
  checkpoint places
  verify .snapshot
  return .done

/-- Verify the fence, unless the library may run from the new folder. -/
def verifyFence
    (review : Review) : Work PUnit := do
  let operation ← readMemory
  if !operation.receipts.writesIntent then
    verifyInstallation
    verify (.media review.current.mounts)

/-- Create the destination, unless this move has created it. -/
def claimDestination
    (destination : Path) : Work PUnit := do
  let operation ← readMemory
  let created ← ExceptT.mk (perform (.makeDirectory destination))
  if !created then
    match operation.receipts.destination with
    | some owned => do
        if owned.1 ≠ destination then
          refuse "media_destination_unverified"
        let present ← identity destination
        if owned.2 ≠ present then
          refuse "media_destination_unverified"
    | none =>
        refuse "media_destination_unverified"

/-- Copy the library. -/
def copyLibrary
    (review : Review)
    (destination : Path)
    (frozen : StepReceipt) : Work StepReceipt := do
  verify (.storage review.root
    (match frozen with
      | .copied receipt => receipt.bytes
      | _ => 0))
  refuseIfCancelled
  claimDestination destination
  let present ← identity destination
  editReceipts fun receipts =>
    { receipts with destination := some (destination, present) }
  save
  return .copied (← helper .copy destination)

/-- Write the stack and the installation with the copy. -/
def turnStack
    (review : Review)
    (destination : Path) : Option Compose → Work StepReceipt
  | none =>
      throw .broken
  | some original => do
      let next := review.current.movedTo destination
      let moved ← ExceptT.mk
        (.done (configuration original review.current.library destination))
      ExceptT.mk (perform (.writeStack moved))
      ExceptT.mk (perform (.setInstallation next))
      ExceptT.mk (perform (.setRetained {
        source := review.current.library.source
        destination := destination
        installation := review.current }))
      return .switched next

/-- Switch the stack and the installation to the copy. -/
def switchLibrary
    (review : Review)
    (destination : Path) : Work StepReceipt := do
  let next := review.current.movedTo destination
  refuseIfCancelled
  let _ ← helper .verify destination
  verifyIdentities review
  verifyInstallation
  verify .physicalPaths
  verify (.storage destination 0)
  let existing : Option Installation ←
    ExceptT.lift (perform .getInstallation)
  if existing ≠ some review.current ∧ existing ≠ some next then
    refuse "installation_changed"
  let checkpoint : Option Compose ← ExceptT.mk (perform .readCheckpoint)
  turnStack review destination checkpoint

/-- Check that the server runs from the new folder. -/
def checkStarted
    (review : Review)
    (destination : Path) : Work StepReceipt := do
  restorePolicies
  let containers ← inventory
  match containers.find? fun container =>
      container.service = serverService with
  | none =>
      refuse "media_mapping_changed"
  | some server => do
      if !server.running ∨ ¬server.mounts.any (fun mount =>
          mount.type = .bind && mount.source = destination &&
            mount.target = review.current.library.target &&
            !mount.readOnly) then
        refuse "media_mapping_changed"
      verify .health
      verify .access
      verify .library
      return .done

/-- Start the library from the new folder; from here on there is no way back. -/
def startMoved
    (review : Review)
    (destination : Path) : Work StepReceipt := do
  let cancelled ← isCancelled
  let operation ← readMemory
  if cancelled ∧ !operation.receipts.writesIntent then
    refuse "media_move_cancelled"
  let next := review.current.movedTo destination
  verify (.media (review.current.mounts ++ next.mounts))
  verify .physicalPaths
  refuseIfCancelled
  editReceipts fun receipts => { receipts with writesIntent := true }
  save
  ExceptT.mk (perform (.composeUp []))
  let started ←
    tryCatch
      (do
        let receipt ← checkStarted review destination
        return Except.ok receipt)
      fun failure => return Except.error failure
  let _ ← resumeServer
  ExceptT.mk (.done started)

/-- The stack of the original folder, from the recovery point if there is one. -/
def originalStack
    (operation : MoveOperation)
    (review : Review) : Work Compose := do
  let checkpoint : Option Compose ← ExceptT.mk (perform .readCheckpoint)
  match checkpoint with
  | some original =>
      return original
  | none => do
      if "move-checkpoint" ∈ operation.completed then
        throw .broken
      let installation ← current
      if installation ≠ review.current then
        refuse "installation_changed"
      ExceptT.mk (perform .readStack)

/-- Verify the library as it was frozen, unless it may run again. -/
def verifyFrozen
    (operation : MoveOperation)
    (review : Review) : Work PUnit := do
  if !operation.receipts.recoveryWritesIntent ∧
      "move-freeze" ∈ operation.completed then
    let _ ← helper .freeze review.root

/-- Start the library in its original folder. -/
def startOriginal
    (review : Review)
    (original : Compose) : Work PUnit := do
  ExceptT.mk (perform (.writeStack original))
  ExceptT.mk (perform (.setInstallation review.current))
  editReceipts fun receipts => { receipts with recoveryWritesIntent := true }
  save
  ExceptT.mk (perform (.composeUp []))
  restorePolicies
  let _ ← resumeServer
  editReceipts fun receipts =>
    { receipts with
      cancelled := some "media_move_cancelled_original_retained" }

/-- Verify the original folder and start the library there. -/
def returnMove
    (operation : MoveOperation)
    (review : Review) : Work PUnit := do
  let helping ← ExceptT.mk (perform .isHelping)
  if helping then
    refuse "media_copy_still_running"
  let original ← originalStack operation review
  let source ← identity review.current.library.source
  if source ≠ review.sourceIdentity then
    refuse "media_mount_changed"
  verifyFrozen operation review
  verify (.media review.current.mounts)
  startOriginal review original

/-- Stop the move in the original folder. -/
def recoverMove : Work PUnit := do
  let operation ← readMemory
  if operation.receipts.writesIntent then
    refuse "media_move_reverse_required"
  editReceipts fun receipts => { receipts with recoveryIntent := true }
  save
  let found : Option Review ← ExceptT.lift (perform .getReview)
  match found with
  | none =>
      refuse "review_missing"
  | some review =>
      returnMove operation review

/-- Move the library forward. -/
def moveForward
    (places : Places)
    (operation : MoveOperation)
    (review : Review) : Work PUnit := do
  refuseIfCancelled
  if overlaps places review.current review.root then
    refuse "media_move_overlap"
  verify .physicalPaths
  verifyIdentities review
  let destination := destinationOf review operation.id
  let _ ← step "move-stop-writers" (stopWriters review)
  let _ ← step "move-checkpoint" (takeCheckpoint places review)
  let _ ← step "move-fence-stack" do
    stopInstallation review.current
    return .done
  verifyFence review
  let frozen ← step "move-freeze" do
    return .copied (← helper .freeze review.root)
  let _ ← step "move-copy" (copyLibrary review destination frozen)
  let _ ← step "move-verify" do
    return .copied (← helper .verify destination)
  let _ ← step "move-switch" (switchLibrary review destination)
  let _ ← step "move-start" (startMoved review destination)

/-- Run a move from wherever it is. -/
def run
    (places : Places) : Work PUnit := do
  let operation ← readMemory
  let found : Option Review ← ExceptT.lift (perform .getReview)
  match found with
  | none =>
      refuse "review_missing"
  | some review =>
      if operation.receipts.recoveryIntent then
        recoverMove
      else
        moveForward places operation review

/-- Journal that an operation is complete. -/
def settle : Work PUnit := do
  edit fun operation =>
    { operation with
      state := .complete
      error := operation.receipts.cancelled }
  save

/-- The code under which a failure is journaled. -/
def Failure.journaled
    (unknown : String) : Failure → String
  | .refused refusal => refusal.code
  | .broken => unknown

/-- The detail that is journaled with a failure. -/
def Failure.detail : Failure → Option String
  | .refused refusal => refusal.detail
  | .broken => none

/-- Run work and journal how it ends. -/
def launch
    (work : Work PUnit) : Work PUnit :=
  tryCatch
    (do
      work
      settle)
    fun failure => do
      edit fun operation =>
        { operation with
          state := .failed
          error := some (failure.journaled "operation_failed")
          detail := failure.detail }
      save

/-- Resume an operation that has failed or was interrupted. -/
def resumeOperation
    (places : Places) : Work PUnit := do
  edit fun operation =>
    { operation with state := .running, error := none, detail := none }
  save
  launch (run places)

/-- Recover an operation that has failed or was interrupted. -/
def recoverOperation : Work PUnit :=
  tryCatch
    (do
      recoverMove
      settle)
    fun failure => do
      edit fun operation =>
        { operation with
          state := .failed
          error := some (failure.journaled "recovery_failed") }
      save
      throw failure

end Frameleaf.LibraryMove
