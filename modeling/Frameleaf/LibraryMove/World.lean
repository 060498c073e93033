import Mathlib.Data.List.Basic
import Frameleaf.Lib.Program
import Frameleaf.Manager.Contracts

namespace Frameleaf.LibraryMove

open Manager Programs

/-!
# What a library move works on

A move copies the library's one media folder to another drive and switches the
stack to the copy.  The manager keeps its journal in the operation store, the
stack's `compose.json` and the marker of a stop in files, and works on the
containers through Docker.  A process of the manager has the operation and the
requests to stop in its memory and loses both when it ends.

Paths are lists of resolved components.  What the manager only verifies, such
as storage, other containers or the health of the server, answers as it likes.
-/

/-- A resolved path. -/
abbrev Path := List String

/-- One of the paths lies in the other. -/
def overlap
    (first second : Path) : Bool :=
  first.isPrefixOf second || second.isPrefixOf first

/-- What is mapped into a container. -/
inductive MountType where
  | bind
  | volume
deriving DecidableEq, Repr

/-- A mapping into a container, in an installation and in a stack. -/
structure Mount where
  type : MountType
  source : Path
  target : Path
  readOnly : Bool
deriving DecidableEq, Repr

/-- The installed library. -/
structure Installation where
  id : String
  project : String
  mounts : List Mount
  databaseRoot : Path
deriving DecidableEq, Repr

/-- When Docker starts a container by itself. -/
structure RestartPolicy where
  name : String
  maximumRetryCount : ℕ := 0
deriving DecidableEq, Repr

/-- A service of the stack. -/
structure Service where
  name : String
  restart : RestartPolicy
  volumes : List Mount
deriving DecidableEq, Repr

/-- The services of a `compose.json`. -/
abbrev Compose := List Service

/-- A container of the installation. -/
structure Container where
  service : String
  running : Bool
  restart : RestartPolicy
  mounts : List Mount
deriving DecidableEq, Repr

/-- The service that serves the library. -/
def serverService : String := "frameleaf-server"

/-- A reviewed move. -/
structure Review where
  id : String
  expires : ℤ
  current : Installation
  root : Path
  sourceIdentity : String
  rootIdentity : String
  files : ℕ
  bytes : ℕ
deriving DecidableEq, Repr

/-- What the copy helper counted. -/
structure CopyReceipt where
  files : ℕ
  bytes : ℕ
deriving DecidableEq, Repr

/-- What a step of the move is remembered by. -/
inductive StepReceipt where
  | done
  | copied (receipt : CopyReceipt)
  | switched (installation : Installation)
deriving DecidableEq, Repr

/-- The receipts of a move. -/
structure Receipts where
  steps : List (String × StepReceipt) := []
  writerPolicies : Option (List (String × RestartPolicy)) := none
  checkpointDump : Option String := none
  destination : Option (Path × String) := none
  writesIntent : Bool := false
  serverResumed : Bool := false
  recoveryIntent : Bool := false
  recoveryWritesIntent : Bool := false
  cancelled : Option String := none
deriving DecidableEq, Repr

/-- A journaled move. -/
structure MoveOperation where
  id : OperationId
  reviewId : String
  state : OperationState
  step : Option String := none
  completed : List String := []
  error : Option String := none
  detail : Option String := none
  receipts : Receipts := {}
deriving DecidableEq, Repr

/-- What the manager remembers of the folder that was moved away from. -/
structure RetainedMedia where
  source : Path
  destination : Path
  installation : Installation
deriving DecidableEq, Repr

/-- What lies at a path. -/
inductive FileEntry where
  | directory
  | file (bytes : List UInt8)
deriving DecidableEq, Repr

/-- Why the manager did not go on. -/
inductive Failure where
  | refused (refusal : Refusal)
  /-- Any other error. -/
  | broken
deriving DecidableEq, Repr

/-- A refusal with a code only. -/
def Failure.code
    (code : String) : Failure :=
  .refused { code }

/-- What the server says of its pause. -/
structure ServerPauseStatus where
  paused : Bool
  operationId : Option OperationId
  drained : Bool
deriving DecidableEq, Repr

/-- The world of a move: what lasts, and the memory of the process. -/
structure World where
  review : Option Review
  journal : MoveOperation
  installation : Option Installation
  retained : Option RetainedMedia
  /-- `stack/compose.json` -/
  stack : Compose
  /-- The `compose.json` beside the database recovery point. -/
  checkpoint : Option Compose
  /-- The marker of a stop. -/
  cancel : Bool
  containers : List Container
  /-- The folders that a copy helper which still runs can write to. -/
  helper : Option (List Path)
  /-- The files of both drives. -/
  files : Path → Option FileEntry
  /-- The operation in the memory of the process. -/
  memory : MoveOperation
  /-- The process was asked to stop the move. -/
  stopping : Bool
  /-- Requests to stop whose marker is not written yet. -/
  stops : ℕ

/-- What the manager verifies. -/
inductive Check where
  | physicalPaths
  | storage (path : Path) (bytes : ℕ)
  /-- No other container can write to these folders. -/
  | media (mounts : List Mount)
  | autostart
  | dump
  | snapshot
  | health
  | access
  | library
deriving DecidableEq, Repr

/-- What the copy helper is run for. -/
inductive HelperAction where
  | freeze
  | copy
  | verify
deriving DecidableEq, Repr

/-- What the server is asked. -/
inductive ServerRequest where
  | pause
  | status
  | resume
deriving DecidableEq, Repr

/-- One action of the manager. -/
inductive Action where
  | readMemory
  | edit (change : MoveOperation → MoveOperation)
  | save
  | getReview
  | getInstallation
  | setInstallation (installation : Installation)
  | setRetained (retained : RetainedMedia)
  | verify (check : Check)
  | identify (path : Path)
  | isCancelled
  | inventory
  | restartPolicy (service : String) (policy : RestartPolicy)
  | stopContainer (service : String)
  /-- `docker compose up`, of all services when none is named. -/
  | composeUp (services : List String)
  | readCheckpoint
  | readStack
  | writeStack (compose : Compose)
  /-- Copy the stack's `compose.json` to the recovery point. -/
  | copyCompose
  | makeDirectory (path : Path)
  | help (action : HelperAction) (destination : Path)
  | isHelping
  | ask (request : ServerRequest)
  /-- How often the server is asked before the deadline. -/
  | deadline

/-- What an action answers. -/
def Answer : Action → Type
  | .readMemory => MoveOperation
  | .edit _ => PUnit
  | .getReview => Option Review
  | .getInstallation => Option Installation
  | .deadline => ℕ
  | .save | .setInstallation _ | .setRetained _ | .verify _
  | .restartPolicy .. | .stopContainer _ | .composeUp _ | .writeStack _
  | .copyCompose => Except Failure PUnit
  | .identify _ => Except Failure String
  | .isCancelled | .makeDirectory _ | .isHelping => Except Failure Bool
  | .inventory => Except Failure (List Container)
  | .readCheckpoint => Except Failure (Option Compose)
  | .readStack => Except Failure Compose
  | .help .. => Except Failure CopyReceipt
  | .ask _ => Except Failure ServerPauseStatus

/-- What happens to an action beyond the manager's control. -/
structure Fate where
  failure : Option Failure := none
  /-- A failed action had its effect all the same. -/
  applied : Bool := false
  /-- The services that a failed start reached. -/
  services : List String := []
  identity : String := ""
  copied : CopyReceipt := { files := 0, bytes := 0 }
  /-- What the copy helper wrote. -/
  written : List (Path × FileEntry) := []
  /-- The copy helper does not run any more. -/
  exits : Bool := true
  status : ServerPauseStatus :=
    { paused := true, operationId := none, drained := true }
  polls : ℕ := 0

/-- The outcome of an action that may fail with or without its effect. -/
def Fate.attempt
    {α : Type}
    (fate : Fate)
    (value : α)
    (before after : World) : Except Failure α × World :=
  match fate.failure with
  | none =>
      (.ok value, after)
  | some failure =>
      (.error failure, if fate.applied then after else before)

/-- The outcome of a statement of the store, which has no effect if it fails. -/
def Fate.statement
    (fate : Fate)
    (before after : World) : Except Failure PUnit × World :=
  match fate.failure with
  | none =>
      (.ok ⟨⟩, after)
  | some failure =>
      (.error failure, before)

/-- The outcome of an action that only reads. -/
def Fate.read
    {α : Type}
    (fate : Fate)
    (value : α)
    (world : World) : Except Failure α × World :=
  match fate.failure with
  | none =>
      (.ok value, world)
  | some failure =>
      (.error failure, world)

/-- Change the container of a service. -/
def World.changeContainer
    (world : World)
    (service : String)
    (change : Container → Container) : World :=
  { world with
    containers := world.containers.map fun container =>
      if container.service = service then change container else container }

/-- The container of a service after it is started. -/
def Service.up
    (service : Service)
    (containers : List Container) : Container :=
  match containers.find? fun container =>
      container.service = service.name ∧
        container.mounts = service.volumes with
  | some container =>
      { container with running := true }
  | none =>
      { service := service.name
        running := true
        restart := service.restart
        mounts := service.volumes }

/-- Start some services of the stack. -/
def World.up
    (world : World)
    (services : List String) : World :=
  let started := world.stack.filter fun service => service.name ∈ services
  { world with
    containers :=
      (world.containers.filter fun container =>
        container.service ∉ started.map Service.name) ++
      started.map fun service => service.up world.containers }

/-- Start all services of the stack and remove all other containers. -/
def World.upAll
    (world : World) : World :=
  { world with
    containers := world.stack.map fun service =>
      service.up world.containers }

/-- Start services; a failed start may have reached some of them. -/
def World.composeUp
    (world : World)
    (fate : Fate)
    (services : List String) : Except Failure PUnit × World :=
  match fate.failure with
  | none =>
      (.ok ⟨⟩,
        match services with
        | [] => world.upAll
        | names => world.up names)
  | some failure =>
      (.error failure,
        world.up (match services with
          | [] => fate.services
          | names => fate.services.filter (· ∈ names)))

/-- Write an entry to a path. -/
def World.write
    (world : World)
    (path : Path)
    (entry : FileEntry) : World :=
  { world with
    files := fun other => if other = path then some entry else
      world.files other }

/-- Write entries to those of their paths that lie in some folders. -/
def World.writeIn
    (world : World)
    (folders : List Path) :
    List (Path × FileEntry) → World
  | [] =>
      world
  | (path, entry) :: rest =>
      if folders.any fun folder => folder.isPrefixOf path then
        (world.write path entry).writeIn folders rest
      else
        world.writeIn folders rest

/-- The folders that the copy helper can write to. -/
def HelperAction.writable
    (destination : Path) : HelperAction → List Path
  | .copy => [destination]
  | .freeze | .verify => []

/-- Run the copy helper, unless it still runs. -/
def World.help
    (world : World)
    (fate : Fate)
    (action : HelperAction)
    (destination : Path) : Except Failure CopyReceipt × World :=
  match world.helper with
  | some _ =>
      (.error (.code "media_copy_still_running"), world)
  | none =>
      let folders := action.writable destination
      let later := world.writeIn folders fate.written
      match fate.failure with
      | none =>
          (.ok fate.copied, later)
      | some failure =>
          (.error failure,
            { later with
              helper := if fate.exits then none else some folders })

/-- Perform one action. -/
def World.perform :
    (action : Action) → Fate → World → Answer action × World
  | .readMemory, _, world =>
      (world.memory, world)
  | .edit change, _, world =>
      (⟨⟩, { world with memory := change world.memory })
  | .save, fate, world =>
      fate.statement world { world with journal := world.memory }
  | .getReview, _, world =>
      (world.review, world)
  | .getInstallation, _, world =>
      (world.installation, world)
  | .setInstallation installation, fate, world =>
      fate.statement world { world with installation := some installation }
  | .setRetained retained, fate, world =>
      fate.statement world { world with retained := some retained }
  | .verify _, fate, world =>
      fate.read ⟨⟩ world
  | .identify _, fate, world =>
      fate.read fate.identity world
  | .isCancelled, fate, world =>
      fate.read (world.stopping || world.cancel) world
  | .inventory, fate, world =>
      fate.read world.containers world
  | .restartPolicy service policy, fate, world =>
      fate.attempt ⟨⟩ world
        (world.changeContainer service fun container =>
          { container with restart := policy })
  | .stopContainer service, fate, world =>
      fate.attempt ⟨⟩ world
        (world.changeContainer service fun container =>
          { container with running := false })
  | .composeUp services, fate, world =>
      world.composeUp fate services
  | .readCheckpoint, fate, world =>
      fate.read world.checkpoint world
  | .readStack, fate, world =>
      fate.read world.stack world
  | .writeStack compose, fate, world =>
      fate.attempt ⟨⟩ world { world with stack := compose }
  | .copyCompose, fate, world =>
      fate.attempt ⟨⟩ world { world with checkpoint := some world.stack }
  | .makeDirectory path, fate, world =>
      match world.files path with
      | some _ =>
          fate.read false world
      | none =>
          fate.attempt true world (world.write path .directory)
  | .help action destination, fate, world =>
      world.help fate action destination
  | .isHelping, fate, world =>
      fate.read world.helper.isSome world
  | .ask _, fate, world =>
      fate.read fate.status world
  | .deadline, fate, world =>
      (fate.polls, world)

/-- The store and the memory of the process answer at once. -/
def Action.awaits : Action → Bool
  | .readMemory | .edit _ | .save | .getReview | .getInstallation
  | .setInstallation _ | .setRetained _ | .deadline => false
  | _ => true

/-- What others do while the manager awaits an action. -/
inductive Disturbance where
  /-- A request to stop is accepted. -/
  | stopAccepted
  /-- The marker of an accepted request is written, or fails to be. -/
  | stopMarked (written : Bool)
  /-- The library's server writes to a mounted folder. -/
  | serverWrites (path : Path) (entry : FileEntry)
  /-- A copy helper that still runs writes, or ends. -/
  | helperWrites (path : Path) (entry : FileEntry)
  | helperEnds

/-- A container can write to a path. -/
def Container.canWrite
    (container : Container)
    (path : Path) : Bool :=
  container.running && container.mounts.any fun mount =>
    !mount.readOnly && mount.source.isPrefixOf path

/-- What is different after a disturbance. -/
def World.disturb
    (world : World) : Disturbance → World
  | .stopAccepted =>
      if world.journal.state = .complete ∨
          world.journal.receipts.writesIntent then
        world
      else
        { world with stopping := true, stops := world.stops + 1 }
  | .stopMarked written =>
      match world.stops with
      | 0 =>
          world
      | stops + 1 =>
          { world with
            stops := stops
            cancel := world.cancel || written }
  | .serverWrites path entry =>
      if world.containers.any (·.canWrite path) then
        world.write path entry
      else
        world
  | .helperWrites path entry =>
      match world.helper with
      | some folders =>
          world.writeIn folders [(path, entry)]
      | none =>
          world
  | .helperEnds =>
      { world with helper := none }

/-- The setting of a move. -/
abbrev setting : Setting Action Answer where
  World := World
  Fate := Fate
  Disturbance := Disturbance
  perform := World.perform
  awaits := Action.awaits
  disturb := World.disturb

end Frameleaf.LibraryMove
