import Frameleaf.Lib.Trace
import Frameleaf.LibraryMove.Run

namespace Frameleaf.LibraryMove

open Manager Programs Trace

/-!
# Runs of a library move

A run performs the actions of the program that works on the move one by one.
Between them others disturb the world, requests arrive, and the process of the
manager may end at any moment and be started again.
-/

/-- What is left of the work on a move. -/
abbrev Remaining := Program Action Answer (Except Failure PUnit)

/-- The world and the program that works on the move, if there is one. -/
structure System where
  world : World
  executing : Option Remaining

/-- What happens next. -/
inductive Step where
  /-- The program performs its next action. -/
  | advance (fate : Fate)
  | disturb (disturbance : Disturbance)
  /-- A request to stop the move arrives. -/
  | stop
  | resume
  | recover
  /-- The process ends and a new one starts. -/
  | restart

/-- What a step answers. -/
inductive Response where
  | silent
  | accepted
  | begun
  | refused (refusal : Refusal)
  | ended (result : Except Failure PUnit)

/-- Others can act before the next action of the program. -/
def awaiting : Option Remaining → Bool
  | some (.perform action _) => action.awaits
  | some (.done _) => true
  | none => true

/-- The program goes on until it is done. -/
def System.continue
    (world : World)
    (remaining : Remaining)
    (response : Response) : System × Response :=
  match remaining with
  | .done result =>
      ({ world, executing := none }, .ended result)
  | .perform action next =>
      ({ world, executing := some (.perform action next) }, response)

/-- The operation can be resumed or recovered. -/
def MoveOperation.isRecoverable
    (operation : MoveOperation) : Bool :=
  operation.state = .failed || operation.state = .interrupted

/-- A request begins to work on the operation that is read from the store. -/
def System.begin
    (system : System)
    (work : Work PUnit) : System × Response :=
  if system.executing.isSome ∨ !system.world.journal.isRecoverable then
    (system, .refused { code := "operation_not_recoverable" })
  else
    System.continue { system.world with memory := system.world.journal } work.run
      .begun

/-- The answer to a request to stop. -/
def World.stopAnswer
    (world : World) : Response :=
  if world.journal.state = .complete then
    .refused { code := "operation_not_recoverable" }
  else if world.journal.receipts.writesIntent then
    .refused { code := "media_move_reverse_required" }
  else
    .accepted

/-- What a new process makes of the journaled operation. -/
def MoveOperation.interrupt
    (operation : MoveOperation) : MoveOperation :=
  if operation.state = .running then
    { operation with
      state := .interrupted
      error := some "operation_interrupted" }
  else
    operation

/-- The world that a new process finds. -/
def World.restart
    (world : World) : World :=
  { world with
    journal := world.journal.interrupt
    memory := world.journal.interrupt
    stopping := false
    stops := 0 }

/-- One step of a run. -/
def System.perform
    (places : Places)
    (system : System) :
    Step → System × Response
  | .advance fate =>
      match system.executing with
      | some (.perform action next) =>
          let (answer, world) := system.world.perform action fate
          System.continue world (next answer) .silent
      | _ =>
          (system, .silent)
  | .disturb disturbance =>
      if awaiting system.executing then
        ({ system with world := system.world.disturb disturbance }, .silent)
      else
        (system, .silent)
  | .stop =>
      if awaiting system.executing then
        ({ system with world := system.world.disturb .stopAccepted },
          system.world.stopAnswer)
      else
        (system, .silent)
  | .resume =>
      system.begin (resumeOperation places)
  | .recover =>
      system.begin recoverOperation
  | .restart =>
      ({ world := system.world.restart, executing := none }, .silent)

/-- The operation that a move is started as. -/
def newMove
    (id : OperationId)
    (review : Review) : MoveOperation where
  id := id
  reviewId := review.id
  state := .running

/-- Start a reviewed move. -/
def System.start
    (places : Places)
    (world : World)
    (id : OperationId)
    (now : ℤ) : Except Failure System :=
  match world.review with
  | none =>
      .error (.code "review_expired")
  | some review => do
      let installation ← movable world.installation
      if review.expires < now ∨ review.current ≠ installation then
        .error (.code "review_expired")
      else
        let operation := newMove id review
        .ok (System.continue
          { world with journal := operation, memory := operation }
          (launch (run places)).run .begun).1

open Manager Programs

/-!
## What always holds of a library move

Once the intent to write to the new folder is journaled, the stack and every
running server are at the new folder and nobody has asked to stop; until then no
server was ever started there.  A program owns the move while its memory could
be journaled at any moment.
-/

/-- What a move was reviewed as and started from. -/
structure Move where
  places : Places
  review : Review
  id : OperationId
  original : Compose

/-- The library's mapping in the original stack. -/
def Move.mount
    (move : Move) : Mount :=
  move.review.current.library

/-- The original folder. -/
def Move.source
    (move : Move) : Path :=
  move.mount.source

/-- The folder that the move copies to. -/
def Move.destination
    (move : Move) : Path :=
  destinationOf move.review move.id

/-- The library's mapping after the move. -/
def Move.movedMount
    (move : Move) : Mount :=
  { move.mount with source := move.destination }

/-- The stack after the move. -/
def Move.moved
    (move : Move) : Compose :=
  move.original.map fun service =>
    if service.name = serverService then
      { service with
        volumes := service.volumes.map fun volume =>
          if volume = move.mount then
            { volume with source := move.destination }
          else
            volume }
    else
      service

/-- The move was reviewed and started as the manager does. -/
structure Move.Reviewed
    (move : Move) : Prop where
  /-- The review found the new drive apart from every folder in use. -/
  apart : overlaps move.places move.review.current move.review.root = false
  /-- The server of the original stack maps the library once. -/
  maps : ∃ server,
    (move.original.find? fun service => service.name = serverService) =
        some server ∧
      server.maps move.mount = true
  /-- The destination carries the new identifier of the operation. -/
  fresh : ∀ service ∈ move.original, move.movedMount ∉ service.volumes

/-- The server runs with a mapping. -/
def World.RunsWith
    (world : World)
    (mount : Mount) : Prop :=
  ∃ container ∈ world.containers,
    container.service = serverService ∧ container.running = true ∧
      mount ∈ container.mounts

/-- Whether the server runs with a mapping can be decided. -/
instance
    (world : World)
    (mount : Mount) :
    Decidable (world.RunsWith mount) :=
  inferInstanceAs (Decidable (∃ container ∈ world.containers, _))

/-- The server does not run. -/
def World.Fenced
    (world : World) : Prop :=
  ∀ container ∈ world.containers, container.service = serverService →
    container.running = false

/-- The library is used in its original folder. -/
structure InUse
    (move : Move)
    (world : World) : Prop where
  installation : world.installation = some move.review.current
  stack : world.stack = move.original
  runs : world.RunsWith move.mount

/-- What an operation says of the world, whether it is journaled or not. -/
structure Fits
    (move : Move)
    (operation : MoveOperation)
    (world : World) : Prop where
  id : operation.id = move.id
  review : world.review = some move.review
  helper : ∀ folders, world.helper = some folders →
    ∀ folder ∈ folders, overlap folder move.source = false
  stack : world.stack = move.original ∨ world.stack = move.moved
  checkpoint : world.checkpoint = none ∨ world.checkpoint = some move.original
  exclusive : operation.receipts.writesIntent = true →
    operation.receipts.recoveryIntent = false
  stopped : world.cancel = true ∨ world.stopping = true →
    operation.receipts.writesIntent = false
  stops : world.stops ≠ 0 → world.stopping = true
  started : "move-start" ∈ operation.completed →
    operation.receipts.writesIntent = true
  cancelled : operation.receipts.cancelled ≠ none →
    operation.receipts.recoveryIntent = true
  stackMoved : operation.receipts.writesIntent = true →
    world.stack = move.moved
  switched : "move-switch" ∈ operation.completed →
    operation.receipts.recoveryIntent = false → world.stack = move.moved
  checkpointed : "move-checkpoint" ∈ operation.completed →
    world.checkpoint = some move.original
  prepared : world.stack ≠ move.original →
    "move-checkpoint" ∈ operation.completed
  notMoved : operation.receipts.writesIntent = false →
    ¬world.RunsWith move.movedMount
  notOriginal : operation.receipts.writesIntent = true →
    ¬world.RunsWith move.mount

/-- How a completed operation has ended. -/
def Ended
    (move : Move)
    (operation : MoveOperation)
    (world : World) : Prop :=
  operation.state = .complete →
    (operation.receipts.cancelled ≠ none →
      operation.receipts.writesIntent = false ∧ InUse move world) ∧
    (operation.receipts.cancelled = none →
      operation.receipts.writesIntent = true)

/-- What holds in every state. -/
structure Sound
    (move : Move)
    (world : World) : Prop where
  fits : Fits move world.journal world
  ended : Ended move world.journal world

/-- No file of the original folder is different. -/
def Untouched
    (move : Move)
    (before after : World) : Prop :=
  ∀ path, move.source.isPrefixOf path = true →
    after.files path = before.files path

/-- What lasts through every action of a program. -/
structure Lasting
    (move : Move)
    (before after : World) : Prop where
  untouched : Untouched move before after
  intent : before.journal.receipts.writesIntent = true →
    after.journal.receipts.writesIntent = true

theorem Lasting.refl
    (move : Move)
    (world : World) :
    Lasting move world world where
  untouched := fun _ _ => rfl
  intent := id

variable {move : Move} {before after world : World}

theorem Lasting.same
    (files : after.files = before.files)
    (journal : after.journal = before.journal) :
    Lasting move before after where
  untouched := by
    intro path _
    rw [files]
  intent := by
    rw [journal]
    exact id

/-- What every action of a program does. -/
def duty
    (move : Move) : Duty setting where
  invariant := Sound move
  guarantee := Lasting move

/-- A program works on the move and awaits an action. -/
structure Owned
    (move : Move)
    (world : World) : Prop where
  journal : Fits move world.journal world
  memory : Fits move world.memory world
  intent : world.memory.receipts.writesIntent =
    world.journal.receipts.writesIntent
  journalOpen : world.journal.state ≠ .complete
  memoryOpen : world.memory.state ≠ .complete

theorem Owned.sound
    (owned : Owned move world) :
    Sound move world where
  fits := owned.journal
  ended := fun isComplete => absurd isComplete owned.journalOpen

/-- The worlds differ in nothing that a move depends on. -/
structure Quiet
    (move : Move)
    (before after : World) : Prop where
  review : after.review = before.review
  journal : after.journal = before.journal
  memory : after.memory = before.memory
  installation : after.installation = before.installation
  stack : after.stack = before.stack
  checkpoint : after.checkpoint = before.checkpoint
  containers : after.containers = before.containers
  cancel : after.cancel = before.cancel
  stopping : after.stopping = before.stopping
  stops : after.stops = before.stops
  helper : ∀ folders, after.helper = some folders →
    before.helper = some folders ∨
      ∀ folder ∈ folders, overlap folder move.source = false

/-- An operation fits worlds that differ in nothing important. -/
theorem Fits.quiet
    {operation : MoveOperation}
    (fits : Fits move operation before)
    (quiet : Quiet move before after) :
    Fits move operation after where
  id := fits.id
  review := quiet.review ▸ fits.review
  helper := by
    intro folders isHelping
    rcases quiet.helper folders isHelping with same | apart
    · exact fits.helper folders same
    · exact apart
  stack := by
    rw [quiet.stack]
    exact fits.stack
  checkpoint := by
    rw [quiet.checkpoint]
    exact fits.checkpoint
  exclusive := fits.exclusive
  stopped := by
    rw [quiet.cancel, quiet.stopping]
    exact fits.stopped
  stops := by
    rw [quiet.stops, quiet.stopping]
    exact fits.stops
  started := fits.started
  cancelled := fits.cancelled
  stackMoved := by
    rw [quiet.stack]
    exact fits.stackMoved
  switched := by
    rw [quiet.stack]
    exact fits.switched
  checkpointed := by
    rw [quiet.checkpoint]
    exact fits.checkpointed
  prepared := by
    rw [quiet.stack]
    exact fits.prepared
  notMoved := by
    rw [World.RunsWith, quiet.containers]
    exact fits.notMoved
  notOriginal := by
    rw [World.RunsWith, quiet.containers]
    exact fits.notOriginal

theorem Owned.quiet
    (owned : Owned move before)
    (quiet : Quiet move before after) :
    Owned move after where
  journal := quiet.journal ▸ owned.journal.quiet quiet
  memory := quiet.memory ▸ owned.memory.quiet quiet
  intent := by
    rw [quiet.memory, quiet.journal]
    exact owned.intent
  journalOpen := quiet.journal ▸ owned.journalOpen
  memoryOpen := quiet.memory ▸ owned.memoryOpen

/-- An operation with more notes, and the same way ahead. -/
structure Noted
    (before after : MoveOperation) : Prop where
  id : after.id = before.id
  state : after.state ≠ .complete ∨ after.state = before.state
  writesIntent :
    after.receipts.writesIntent = before.receipts.writesIntent
  recoveryIntent :
    after.receipts.recoveryIntent = before.receipts.recoveryIntent
  cancelled : after.receipts.cancelled = before.receipts.cancelled
  completed : ∀ name ∈ before.completed, name ∈ after.completed
  started : "move-start" ∈ after.completed →
    "move-start" ∈ before.completed ∨ before.receipts.writesIntent = true
  checkpointed : "move-checkpoint" ∈ after.completed →
    "move-checkpoint" ∈ before.completed
  switched : "move-switch" ∈ after.completed →
    "move-switch" ∈ before.completed

/-- A noted operation fits where the operation did. -/
theorem Fits.noted
    {before after : MoveOperation}
    (fits : Fits move before world)
    (noted : Noted before after) :
    Fits move after world where
  id := noted.id.trans fits.id
  review := fits.review
  helper := fits.helper
  stack := fits.stack
  checkpoint := fits.checkpoint
  exclusive := by
    rw [noted.writesIntent, noted.recoveryIntent]
    exact fits.exclusive
  stopped := by
    rw [noted.writesIntent]
    exact fits.stopped
  stops := fits.stops
  started := by
    intro isStarted
    rw [noted.writesIntent]
    rcases noted.started isStarted with before | intended
    · exact fits.started before
    · exact intended
  cancelled := by
    rw [noted.cancelled, noted.recoveryIntent]
    exact fits.cancelled
  stackMoved := by
    rw [noted.writesIntent]
    exact fits.stackMoved
  switched := by
    rw [noted.recoveryIntent]
    exact fun isSwitched => fits.switched (noted.switched isSwitched)
  checkpointed := fun isCheckpointed =>
    fits.checkpointed (noted.checkpointed isCheckpointed)
  prepared := fun differs => noted.completed _ (fits.prepared differs)
  notMoved := by
    rw [noted.writesIntent]
    exact fits.notMoved
  notOriginal := by
    rw [noted.writesIntent]
    exact fits.notOriginal

/-- The containers of another world, with none of them started. -/
structure Calmed
    (before after : World) : Prop where
  rest : after = { before with containers := after.containers }
  runs : ∀ mount, after.RunsWith mount → before.RunsWith mount
  fenced : before.Fenced → after.Fenced

theorem Fits.calmed
    {operation : MoveOperation}
    (fits : Fits move operation before)
    (calmed : Calmed before after) :
    Fits move operation after := by
  have notMoved : operation.receipts.writesIntent = false →
      ¬after.RunsWith move.movedMount :=
    fun unintended runs => fits.notMoved unintended (calmed.runs _ runs)
  have notOriginal : operation.receipts.writesIntent = true →
      ¬after.RunsWith move.mount :=
    fun intended runs => fits.notOriginal intended (calmed.runs _ runs)
  have rest := calmed.rest
  generalize after.containers = containers at rest
  subst rest
  exact { fits with notMoved := notMoved, notOriginal := notOriginal }

theorem Owned.calmed
    (owned : Owned move before)
    (calmed : Calmed before after) :
    Owned move after := by
  have journal := owned.journal.calmed calmed
  have memory := owned.memory.calmed calmed
  have rest := calmed.rest
  generalize after.containers = containers at rest
  subst rest
  exact { owned with journal := journal, memory := memory }

/-- Changing how containers restart, or stopping them, starts none. -/
theorem calmed_changeContainer
    (world : World)
    (service : String)
    {change : Container → Container}
    (sameService : ∀ container, (change container).service = container.service)
    (sameMounts : ∀ container, (change container).mounts = container.mounts)
    (notStarted : ∀ container, (change container).running = true →
      container.running = true) :
    Calmed world (world.changeContainer service change) where
  rest := rfl
  runs := by
    rintro mount ⟨container, member, isServer, runs, mounted⟩
    obtain ⟨before, isBefore, rfl⟩ := List.mem_map.mp member
    refine ⟨before, isBefore, ?_⟩
    split at isServer <;> rename_i named
    · rw [if_pos named] at runs mounted
      rw [sameService] at isServer
      rw [sameMounts] at mounted
      exact ⟨isServer, notStarted _ runs, mounted⟩
    · rw [if_neg named] at runs mounted
      exact ⟨isServer, runs, mounted⟩
  fenced := by
    intro fenced container member isServer
    obtain ⟨before, isBefore, rfl⟩ := List.mem_map.mp member
    split at isServer <;> rename_i named
    · rw [if_pos named]
      rw [sameService] at isServer
      have stopped := fenced before isBefore isServer
      by_contra starts
      rw [Bool.not_eq_false] at starts
      rw [notStarted before starts] at stopped
      simp at stopped
    · rw [if_neg named]
      exact fenced before isBefore isServer

theorem calmed_policies
    (world : World)
    (service : String)
    (policy : RestartPolicy) :
    Calmed world (world.changeContainer service fun container =>
      { container with restart := policy }) :=
  calmed_changeContainer world service (fun _ => rfl) (fun _ => rfl)
    fun _ => id

theorem calmed_stops
    (world : World)
    (service : String) :
    Calmed world (world.changeContainer service fun container =>
      { container with running := false }) :=
  calmed_changeContainer world service (fun _ => rfl) (fun _ => rfl) (by simp)

/-- A started service has its name. -/
@[simp] theorem Service.up_service
    (service : Service)
    (containers : List Container) :
    (service.up containers).service = service.name := by
  rw [Service.up]
  split
  · rename_i found
    have named := List.find?_some found
    rw [decide_eq_true_eq] at named
    exact named.1
  · rfl

/-- A started service has its mappings. -/
@[simp] theorem Service.up_mounts
    (service : Service)
    (containers : List Container) :
    (service.up containers).mounts = service.volumes := by
  rw [Service.up]
  split
  · rename_i found
    have named := List.find?_some found
    rw [decide_eq_true_eq] at named
    exact named.2
  · rfl

/-- A started service runs. -/
@[simp] theorem Service.up_running
    (service : Service)
    (containers : List Container) :
    (service.up containers).running = true := by
  rw [Service.up]
  split
  · rfl
  · rfl

theorem calmed_up
    (world : World)
    {services : List String}
    (other : serverService ∉ services) :
    Calmed world (world.up services) := by
  have fromBefore : ∀ container ∈ (world.up services).containers,
      container.service = serverService → container ∈ world.containers := by
    intro container member isServer
    rcases List.mem_append.mp member with kept | started
    · exact List.mem_of_mem_filter kept
    · obtain ⟨service, isStarted, rfl⟩ := List.mem_map.mp started
      have named := (List.mem_filter.mp isStarted).2
      rw [Service.up_service] at isServer
      rw [isServer, decide_eq_true_eq] at named
      exact absurd named other
  constructor
  · rfl
  · rintro mount ⟨container, member, isServer, runs, mounted⟩
    exact ⟨container, fromBefore container member isServer, isServer, runs,
      mounted⟩
  · intro fenced container member isServer
    exact fenced container (fromBefore container member isServer) isServer

end Frameleaf.LibraryMove
