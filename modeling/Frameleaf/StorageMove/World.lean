import Mathlib.Data.List.Basic
import Mathlib.Data.Int.Notation
import Frameleaf.Lib.Program

namespace Frameleaf.StorageMove

open Programs

/-!
# What a storage move works on

A file of an asset or of a person is moved to a new path of the library.  The
move works on the file system, which can be spread over several devices, and on
the database, which records where the entity has its file and which move of it
is under way.  The world is the one of a single entity and path type.

A process of the server has a transaction open at most, and loses it together
with its memory when it ends.
-/

/-- A path of the library. -/
structure LibraryPath where
  text : String
  notEmpty : text ≠ ""
deriving DecidableEq, Repr

/-- A path of the library, or where a move stages a copy beside its new path. -/
inductive FilePath where
  | library (path : LibraryPath)
  | staged (target : LibraryPath) (moveId : String)
deriving DecidableEq, Repr

/-- Where a move across file systems stages its copy. -/
def getStagedMovePath
    (target : LibraryPath)
    (moveId : String) : FilePath :=
  .staged target moveId

/-- The kinds of generated files. -/
inductive AssetFileType where
  | fullSize
  | preview
  | hdrPreview
  | hdrFullSize
  | thumbnail
  | sidecar
  | encodedVideo
deriving DecidableEq, Repr

/-- The kinds of files that are moved. -/
inductive PathType where
  | original
  | file (type : AssetFileType)
  | face
  | profile
deriving DecidableEq, Repr

/-- The path types of `ASSET_MOVE_PATH_TYPES`. -/
def PathType.isAssetMove : PathType → Bool
  | .original | .file _ => true
  | .face | .profile => false

/-- What the caller knows of the file. -/
structure AssetInfo where
  sizeInBytes : ℕ
  checksum : List UInt8
deriving DecidableEq, Repr

/-- A request to move the file of an entity. -/
structure MoveRequest where
  ownerId : Option String
  pathType : PathType
  /-- Where the database records the file, unless it records no path. -/
  oldPath : Option LibraryPath
  newPath : LibraryPath
  assetInfo : Option AssetInfo
deriving DecidableEq, Repr

/-- A row of `move_history`. -/
structure MoveRecord where
  id : String
  oldPath : LibraryPath
  newPath : LibraryPath
deriving DecidableEq, Repr

/-- The rows of the entity. -/
structure Rows where
  /-- The path in the entity's row, if there is such a row. -/
  path : Option (Option LibraryPath)
  move : Option MoveRecord
deriving DecidableEq, Repr

/-- A file. -/
structure StoredFile where
  bytes : List UInt8
  atime : ℤ
  mtime : ℤ
deriving DecidableEq, Repr

/-- What is known of a file without reading it. -/
structure Stats where
  size : ℕ
  atime : ℤ
  mtime : ℤ
deriving DecidableEq, Repr

/-- What is known of a file without reading it. -/
def StoredFile.stats
    (file : StoredFile) : Stats where
  size := file.bytes.length
  atime := file.atime
  mtime := file.mtime

/-- What the file system did in a move. -/
structure MoveState where
  crossDevice : Bool := false
  placed : Bool := false
deriving DecidableEq, Repr

/-- What a process of the server runs on. -/
structure Machine where
  /-- The device of a path; a staged copy lies beside its target. -/
  device : LibraryPath → ℕ
  /-- The digest that is as long as a checksum. -/
  digest : ℕ → List UInt8 → List UInt8
  hashVerificationEnabled : Bool

/-- The device of a path. -/
def Machine.deviceOf
    (machine : Machine) : FilePath → ℕ
  | .library path | .staged path _ => machine.device path

/-- What is at each path. -/
abbrev Files := FilePath → Option StoredFile

/-- What lasts, and the transaction and the memory of the process. -/
structure World where
  files : Files
  rows : Rows
  transaction : Option Rows
  memory : MoveState

/-- Why an action failed. -/
inductive Failure where
  /-- `ENOENT` -/
  | missing
  /-- `EXDEV` -/
  | crossDevice
  | noResult
  | broken
deriving DecidableEq, Repr

/-- One action of the server. -/
inductive Action where
  | ensureFolders (path : LibraryPath)
  | checkFileExists (path : FilePath)
  | stat (path : FilePath)
  | getConfig
  | hashFileMatching (path : FilePath) (checksum : List UInt8)
  | rename (source target : FilePath)
  | copyFile (source target : FilePath)
  | utimes (path : FilePath) (atime mtime : ℤ)
  | unlink (path : FilePath)
  | getByEntity
  | createMove (oldPath newPath : LibraryPath)
  | updateMove (id : String) (oldPath newPath : LibraryPath)
  | deleteMove (id : String)
  | updatePerson (ownerId : String) (thumbnailPath : LibraryPath)
  | begin
  | lockFilePaths (paths : List LibraryPath)
  | isReferenced (paths : List LibraryPath)
  | readMovedFile
  | saveMovedPath (source target : LibraryPath)
  | commit
  | rollback
  | recollect
  | remember (state : MoveState)
deriving DecidableEq, Repr

/-- What an action answers. -/
def Answer : Action → Type
  | .checkFileExists _ => Bool
  | .recollect => MoveState
  | .remember _ | .rollback => PUnit
  | .stat _ => Except Failure Stats
  | .getConfig | .isReferenced _ | .deleteMove _ => Except Failure Bool
  | .hashFileMatching .. => Except Failure (List UInt8)
  | .getByEntity => Except Failure (Option MoveRecord)
  | .createMove .. | .updateMove .. => Except Failure MoveRecord
  | .readMovedFile => Except Failure (Option (Option LibraryPath))
  | .ensureFolders _ | .rename .. | .copyFile .. | .utimes .. | .unlink _
  | .updatePerson .. | .begin | .lockFilePaths _ | .saveMovedPath ..
  | .commit => Except Failure PUnit

/-- What happens to an action beyond the server's control. -/
structure Fate where
  failure : Option Failure := none
  /-- A failed statement of the database had its effect all the same. -/
  applied : Bool := false
  /-- What a failed copy wrote. -/
  written : Option StoredFile := none
  /-- The times of a copied file. -/
  copied : ℤ := 0
  /-- A backup refers to a path. -/
  referenced : Bool := false
  /-- The id of a new row. -/
  id : String := ""
deriving DecidableEq, Repr

/-- The rows that a statement works on. -/
def World.current
    (world : World) : Rows :=
  world.transaction.getD world.rows

/-- Change the rows, inside the transaction if one is open. -/
def World.setRows
    (world : World)
    (rows : Rows) : World :=
  match world.transaction with
  | none =>
      { world with rows := rows }
  | some _ =>
      { world with transaction := some rows }

/-- Put a file or nothing at a path. -/
def World.put
    (world : World)
    (path : FilePath)
    (file : Option StoredFile) : World :=
  { world with
    files := fun other => if other = path then file else world.files other }

/-- The outcome of an action that only reads. -/
def Fate.read
    {α : Type}
    (fate : Fate)
    (value : α)
    (world : World) : Except Failure α × World :=
  match fate.failure with
  | none =>
      (.ok value, world)
  | some failure =>
      (.error failure, world)

/-- The outcome of a statement that changes rows. -/
def Fate.statement
    {α : Type}
    (fate : Fate)
    (value : α)
    (world : World)
    (rows : Rows) : Except Failure α × World :=
  match fate.failure with
  | none =>
      (.ok value, world.setRows rows)
  | some failure =>
      (.error failure, if fate.applied then world.setRows rows else world)

/-- The outcome of an action that works on a file. -/
def Fate.fileAction
    {α : Type}
    (fate : Fate)
    (world : World)
    (path : FilePath)
    (act : StoredFile → Except Failure α × World) :
    Except Failure α × World :=
  match fate.failure with
  | some failure =>
      (.error failure, world)
  | none =>
      match world.files path with
      | none =>
          (.error .missing, world)
      | some file =>
          act file

/-- Rename a file on one device. -/
def World.rename
    (world : World)
    (machine : Machine)
    (fate : Fate)
    (source target : FilePath) : Except Failure PUnit × World :=
  fate.fileAction world source fun file =>
    if machine.deviceOf source = machine.deviceOf target then
      (.ok ⟨⟩, (world.put source none).put target (some file))
    else
      (.error .crossDevice, world)

/-- Copy a file; a failed copy may have written a part. -/
def World.copyFile
    (world : World)
    (fate : Fate)
    (source target : FilePath) : Except Failure PUnit × World :=
  match fate.failure, fate.written with
  | some failure, some part =>
      (.error failure, world.put target (some part))
  | _, _ =>
      fate.fileAction world source fun file =>
        (.ok ⟨⟩, world.put target
          (some { file with atime := fate.copied, mtime := fate.copied }))

/-- Remove a file; a missing file is no failure. -/
def World.unlink
    (world : World)
    (fate : Fate)
    (path : FilePath) : Except Failure PUnit × World :=
  match fate.failure with
  | none =>
      (.ok ⟨⟩, world.put path none)
  | some failure =>
      (.error failure, world)

/--
Record a move; an entity has one record for a path type.  The statement also
fails where the move of another entity has the same new path.
-/
def World.createMove
    (world : World)
    (fate : Fate)
    (oldPath newPath : LibraryPath) : Except Failure MoveRecord × World :=
  match world.current.move with
  | some _ =>
      (.error .broken, world)
  | none =>
      let record := { id := fate.id, oldPath, newPath }
      fate.statement record world { world.current with move := some record }

/-- Change the recorded move with an id. -/
def World.updateMove
    (world : World)
    (fate : Fate)
    (id : String)
    (oldPath newPath : LibraryPath) : Except Failure MoveRecord × World :=
  if world.current.move.any (·.id = id) then
    let record := { id, oldPath, newPath }
    fate.statement record world { world.current with move := some record }
  else
    (.error .noResult, world)

/-- Delete the recorded move with an id and tell whether there was one. -/
def World.deleteMove
    (world : World)
    (fate : Fate)
    (id : String) : Except Failure Bool × World :=
  if world.current.move.any (·.id = id) then
    fate.statement true world { world.current with move := none }
  else
    fate.read false world

/-- Save the path in the row of a person. -/
def World.updatePerson
    (world : World)
    (fate : Fate)
    (thumbnailPath : LibraryPath) : Except Failure PUnit × World :=
  match world.current.path with
  | some _ =>
      fate.statement ⟨⟩ world
        { world.current with path := some (some thumbnailPath) }
  | none =>
      (.error .noResult, world)

/-- Point the rows that name a path to another one. -/
def World.saveMovedPath
    (world : World)
    (fate : Fate)
    (source target : LibraryPath) : Except Failure PUnit × World :=
  fate.statement ⟨⟩ world
    (if world.current.path = some (some source) then
      { world.current with path := some (some target) }
    else
      world.current)

/-- Open a transaction. -/
def World.begin
    (world : World)
    (fate : Fate) : Except Failure PUnit × World :=
  match fate.failure with
  | none =>
      (.ok ⟨⟩, { world with transaction := some world.rows })
  | some failure =>
      (.error failure, world)

/-- The world without its transaction. -/
def World.rolledBack
    (world : World) : World :=
  { world with transaction := none }

/-- The world once its transaction is committed. -/
def World.committed
    (world : World) : World :=
  { world with rows := world.current, transaction := none }

/-- Commit the transaction, which is rolled back otherwise. -/
def World.commit
    (world : World)
    (fate : Fate) : Except Failure PUnit × World :=
  match fate.failure with
  | none =>
      (.ok ⟨⟩, world.committed)
  | some failure =>
      (.error failure,
        if fate.applied then world.committed else world.rolledBack)

/-- Perform one action. -/
def World.perform
    (machine : Machine) :
    (action : Action) → Fate → World → Answer action × World
  | .ensureFolders _, fate, world =>
      fate.read ⟨⟩ world
  | .checkFileExists path, _, world =>
      ((world.files path).isSome, world)
  | .stat path, fate, world =>
      fate.fileAction world path fun file => (.ok file.stats, world)
  | .getConfig, fate, world =>
      fate.read machine.hashVerificationEnabled world
  | .hashFileMatching path checksum, fate, world =>
      fate.fileAction world path fun file =>
        (.ok (machine.digest checksum.length file.bytes), world)
  | .rename source target, fate, world =>
      world.rename machine fate source target
  | .copyFile source target, fate, world =>
      world.copyFile fate source target
  | .utimes path atime mtime, fate, world =>
      fate.fileAction world path fun file =>
        (.ok ⟨⟩, world.put path (some { file with atime, mtime }))
  | .unlink path, fate, world =>
      world.unlink fate path
  | .getByEntity, fate, world =>
      fate.read world.current.move world
  | .createMove oldPath newPath, fate, world =>
      world.createMove fate oldPath newPath
  | .updateMove id oldPath newPath, fate, world =>
      world.updateMove fate id oldPath newPath
  | .deleteMove id, fate, world =>
      world.deleteMove fate id
  | .updatePerson _ thumbnailPath, fate, world =>
      world.updatePerson fate thumbnailPath
  | .begin, fate, world =>
      world.begin fate
  | .lockFilePaths _, fate, world =>
      fate.read ⟨⟩ world
  | .isReferenced _, fate, world =>
      fate.read fate.referenced world
  | .readMovedFile, fate, world =>
      fate.read world.current.path world
  | .saveMovedPath source target, fate, world =>
      world.saveMovedPath fate source target
  | .commit, fate, world =>
      world.commit fate
  | .rollback, _, world =>
      (⟨⟩, world.rolledBack)
  | .recollect, _, world =>
      (world.memory, world)
  | .remember state, _, world =>
      (⟨⟩, { world with memory := state })

/-- The setting of a storage move, in which nobody else acts. -/
abbrev setting
    (machine : Machine) : Setting Action Answer where
  World := World
  Fate := Fate
  Disturbance := Empty
  perform := World.perform machine
  awaits := fun _ => false
  disturb := fun world _ => world

end Frameleaf.StorageMove
