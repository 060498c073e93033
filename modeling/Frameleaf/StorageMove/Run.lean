import Frameleaf.StorageMove.World

namespace Frameleaf.StorageMove

open Programs

/-!
# The program of a storage move

`StorageCore.moveFile` and what it calls, written as in the source with an
action for each call that leaves the process.  Log messages are left out.
-/

/-- A part of the server's work on a move. -/
abbrev Work (α : Type) := Job Action Answer Failure α

/-- Perform one action. -/
def perform
    (action : Action) : Program Action Answer (Answer action) :=
  act action

/-- Go on whether the work fails or not. -/
def attempt
    {α : Type}
    (work : Work α) : Work (Except Failure α) :=
  ExceptT.lift work.run

/-- Whether there is a file at a path. -/
def checkFileExists
    (path : FilePath) : Work Bool :=
  ExceptT.lift (perform (.checkFileExists path))

/-- The size and the times of a file. -/
def stat
    (path : FilePath) : Work Stats :=
  ExceptT.mk (perform (.stat path))

/-- Rename a file. -/
def renameFile
    (source target : FilePath) : Work PUnit :=
  ExceptT.mk (perform (.rename source target))

/-- Remove a file. -/
def unlink
    (path : FilePath) : Work PUnit :=
  ExceptT.mk (perform (.unlink path))

/-- Record a move. -/
def createMove
    (oldPath newPath : LibraryPath) : Work MoveRecord :=
  ExceptT.mk (perform (.createMove oldPath newPath))

/-- Change a recorded move. -/
def updateMove
    (id : String)
    (oldPath newPath : LibraryPath) : Work MoveRecord :=
  ExceptT.mk (perform (.updateMove id oldPath newPath))

/-- Delete a recorded move, if there is one. -/
def deleteMove
    (id : String) : Work Bool :=
  ExceptT.mk (perform (.deleteMove id))

/-- `MoveRepository.delete`, which fails without a recorded move. -/
def deleteRecordedMove
    (id : String) : Work PUnit := do
  let deleted ← deleteMove id
  if deleted then
    pure ⟨⟩
  else
    throw .noResult

/-- How a rename ended. -/
inductive Renamed where
  | renamed
  | crossDevice
  | failed
deriving DecidableEq, Repr

/-- How a rename ended. -/
def Renamed.of : Except Failure PUnit → Renamed
  | .ok _ => .renamed
  | .error .crossDevice => .crossDevice
  | .error _ => .failed

/-- Rename in place; a move to another file system is reported. -/
def rename
    (source target : FilePath) : Work Renamed := do
  let outcome ← attempt (renameFile source target)
  pure (.of outcome)

/-- Put a renamed file back. -/
def undoRename
    (source target : FilePath) : Work PUnit := do
  let _ ← attempt (renameFile source target)

/-- Remove a staged copy. -/
def removeStaged
    (staged : FilePath) : Work PUnit := do
  let _ ← attempt (unlink staged)

/-- Remove the source of a copy. -/
def removeSource
    (source : LibraryPath) : Work PUnit := do
  let _ ← attempt (unlink (.library source))

/-- The size that the file at the new path should have. -/
def expectedSize
    (oldPath : FilePath) : Option AssetInfo → Work ℕ
  | some info =>
      pure info.sizeInBytes
  | none => do
      let oldStat ← stat oldPath
      pure oldStat.size

/-- The file at the new path is what it should be. -/
def verifyNewPathContentsMatchesExpected
    (oldPath newPath : FilePath)
    (assetInfo : Option AssetInfo) : Work Bool := do
  let newStat ← stat newPath
  let oldPathSize ← expectedSize oldPath assetInfo
  if newStat.size ≠ oldPathSize then
    pure false
  else
    let hashVerificationEnabled ← ExceptT.mk (perform .getConfig)
    match assetInfo, hashVerificationEnabled with
    | some info, true => do
        let newChecksum ← ExceptT.mk
          (perform (.hashFileMatching newPath info.checksum))
        pure (newChecksum = info.checksum)
    | _, _ =>
        pure true

/-- Copy a file beside its new path and verify the copy. -/
def copyAndVerify
    (source staged : FilePath)
    (assetInfo : Option AssetInfo) : Work (Option FilePath) := do
  ExceptT.mk (perform (.copyFile source staged))
  let verified ← verifyNewPathContentsMatchesExpected source staged assetInfo
  if verified then
    let stats ← stat source
    ExceptT.mk (perform (.utimes staged stats.atime stats.mtime))
    pure (some staged)
  else
    removeStaged staged
    pure none

/-- Stage a verified copy, or leave none. -/
def stageCopy
    (source staged : FilePath)
    (assetInfo : Option AssetInfo) : Work (Option FilePath) :=
  tryCatch (copyAndVerify source staged assetInfo) fun _ => do
    removeStaged staged
    pure none

/-- Move a file that is not an asset's: rename, or copy, verify and delete. -/
def moveAcrossFilesystems
    (source target : LibraryPath)
    (moveId : String)
    (assetInfo : Option AssetInfo) : Work Bool := do
  let outcome ← rename (.library source) (.library target)
  match outcome with
  | .renamed =>
      pure true
  | .failed =>
      pure false
  | .crossDevice => do
      let copy ← stageCopy (.library source) (getStagedMovePath target moveId)
        assetInfo
      match copy with
      | none =>
          pure false
      | some staged => do
          let placed ← rename staged (.library target)
          if placed ≠ .renamed then
            removeStaged staged
            pure false
          else
            removeSource source
            pure true

/-- Save the path of a moved file that is not an asset's. -/
def savePath
    (pathType : PathType)
    (newPath : LibraryPath)
    (ownerId : Option String) : Work PUnit :=
  match pathType, ownerId with
  | .face, some owner =>
      ExceptT.mk (perform (.updatePerson owner newPath))
  | _, _ =>
      pure ⟨⟩

/-- Run work in a transaction, which is rolled back if anything fails. -/
def transaction
    {α : Type}
    (work : Work α) : Work α := do
  ExceptT.mk (perform .begin)
  tryCatch
    (do
      let result ← work
      ExceptT.mk (perform .commit)
      pure result)
    fun failure => do
      let _ ← ExceptT.lift (perform .rollback)
      throw failure

/-- The move of an asset's file. -/
structure AssetFileMove where
  moveId : String
  startPath : LibraryPath
  source : LibraryPath
  target : LibraryPath

/-- How the move of an asset's file ended. -/
inductive AssetFileMoveResult where
  | moved
  | failed
  | removed
  | changed
  | deferred
  | mismatched
deriving DecidableEq, Repr

/-- The file system's side of a move. -/
structure AssetFileMoveOperations where
  rename : Work Bool
  finish : Work PUnit
  undo : Work PUnit

/-- Save the new path and forget the move, or undo it. -/
def saveMove
    (move : AssetFileMove)
    (operations : AssetFileMoveOperations) : Work PUnit :=
  tryCatch
    (do
      ExceptT.mk (perform (.saveMovedPath move.startPath move.target))
      let _ ← deleteMove move.moveId)
    fun failure => do
      operations.undo
      throw failure

/-- Move the file whose path is still the one the move started from. -/
def placeMove
    (move : AssetFileMove)
    (operations : AssetFileMoveOperations) : Work AssetFileMoveResult := do
  let renamed ← operations.rename
  if renamed then
    saveMove move operations
    operations.finish
    pure .moved
  else
    pure .failed

/-- Move the file after its row is read, unless it is used elsewhere. -/
def moveCurrent
    (move : AssetFileMove)
    (operations : AssetFileMoveOperations) :
    Option (Option LibraryPath) → Work AssetFileMoveResult
  | none => do
      let _ ← deleteMove move.moveId
      pure .removed
  | some path =>
      if path ≠ some move.startPath then
        if move.source = move.startPath then do
          let _ ← deleteMove move.moveId
          pure .changed
        else
          pure .changed
      else
        placeMove move operations

/-- The work of `AssetRepository.moveFile` in its transaction. -/
def moveLocked
    (move : AssetFileMove)
    (operations : AssetFileMoveOperations) : Work AssetFileMoveResult := do
  ExceptT.mk (perform
    (.lockFilePaths [move.startPath, move.source, move.target]))
  let referenced ← ExceptT.mk
    (perform (.isReferenced [move.startPath, move.source, move.target]))
  if referenced then
    pure .deferred
  else
    let current ← ExceptT.mk (perform .readMovedFile)
    moveCurrent move operations current

/-- `AssetRepository.moveFile` -/
def AssetRepository.moveFile
    (move : AssetFileMove)
    (operations : AssetFileMoveOperations) : Work AssetFileMoveResult :=
  transaction (moveLocked move operations)

/-- Remember something of what the file system did. -/
def remember
    (change : MoveState → MoveState) : Work PUnit := do
  let state ← ExceptT.lift (perform .recollect)
  ExceptT.lift (perform (.remember (change state)))

/-- The first try of an asset's move, which only renames. -/
def renameOperations
    (source newPath : LibraryPath) : AssetFileMoveOperations where
  rename :=
    if source = newPath then
      pure true
    else do
      let outcome ← rename (.library source) (.library newPath)
      remember fun state =>
        { state with crossDevice := outcome = .crossDevice }
      pure (outcome = .renamed)
  finish := pure ⟨⟩
  undo :=
    if source = newPath then
      pure ⟨⟩
    else
      undoRename (.library newPath) (.library source)

/-- The second try of an asset's move, which places a staged copy. -/
def placeOperations
    (source newPath : LibraryPath)
    (staged : FilePath) : AssetFileMoveOperations where
  rename := do
    let outcome ← rename staged (.library newPath)
    remember fun state => { state with placed := outcome = .renamed }
    pure (outcome = .renamed)
  finish := removeSource source
  undo := do
    remember fun state => { state with placed := false }
    undoRename (.library newPath) staged

/-- Place a staged copy and leave none behind. -/
def placeCopy
    (move : AssetFileMove)
    (staged : FilePath) : Work AssetFileMoveResult := do
  let outcome ← attempt
    (AssetRepository.moveFile move (placeOperations move.source move.target staged))
  let state ← ExceptT.lift (perform .recollect)
  if state.placed then
    ExceptT.mk (.done outcome)
  else
    removeStaged staged
    ExceptT.mk (.done outcome)

/-- Move the file of an asset and tell whether it was moved. -/
def moveAssetFile
    (move : AssetFileMove)
    (assetInfo : Option AssetInfo) : Work Bool := do
  ExceptT.lift (perform (.remember {}))
  let result ← AssetRepository.moveFile move
    (renameOperations move.source move.target)
  let state ← ExceptT.lift (perform .recollect)
  if result = .failed ∧ state.crossDevice then
    let copy ← stageCopy (.library move.source)
      (getStagedMovePath move.target move.moveId) assetInfo
    match copy with
    | none =>
        pure false
    | some staged => do
        let result ← placeCopy move staged
        pure (result = .moved)
  else
    pure (result = .moved)

/-- Move a file that is not an asset's, unless it is at its new path. -/
def placeOtherFile
    (request : MoveRequest)
    (move : MoveRecord) : Work Bool :=
  if move.oldPath = request.newPath then
    pure true
  else
    moveAcrossFilesystems move.oldPath request.newPath move.id
      request.assetInfo

/-- Move a file that is not an asset's and save its path. -/
def moveOtherFile
    (request : MoveRequest)
    (move : MoveRecord) : Work Bool := do
  let moved ← placeOtherFile request move
  if moved then
    savePath request.pathType request.newPath request.ownerId
    deleteRecordedMove move.id
    pure true
  else
    pure false

/-- Where the file of a recorded move is. -/
def findFile
    (move : MoveRecord) : Work (Option LibraryPath) := do
  let isOldPathExists ← checkFileExists (.library move.oldPath)
  let isNewPathExists ← checkFileExists (.library move.newPath)
  pure
    (if isOldPathExists then
      some move.oldPath
    else if isNewPathExists then
      some move.newPath
    else
      none)

/-- The file that a recorded move left is the expected one. -/
def isExpected
    (request : MoveRequest)
    (move : MoveRecord)
    (actualPath : LibraryPath) : Work Bool :=
  if actualPath = move.newPath then
    verifyNewPathContentsMatchesExpected (.library move.oldPath)
      (.library move.newPath) request.assetInfo
  else
    pure true

/-- Take up a recorded move from where its file is. -/
def resume
    (request : MoveRequest)
    (move : MoveRecord) : Work (Option MoveRecord) := do
  let found ← findFile move
  match found with
  | none =>
      pure none
  | some actualPath => do
      let expected ← isExpected request move actualPath
      if expected then
        if move.newPath ≠ request.newPath then
          removeStaged (getStagedMovePath move.newPath move.id)
        let updated ← updateMove move.id actualPath request.newPath
        pure (some updated)
      else
        pure none

/-- Take up the recorded move, or record a new one. -/
def recordMove
    (request : MoveRequest)
    (oldPath : LibraryPath) :
    Option MoveRecord → Work (Option MoveRecord)
  | some move =>
      resume request move
  | none => do
      let created ← createMove oldPath request.newPath
      pure (some created)

/-- Finish a recorded move. -/
def finishMove
    (request : MoveRequest)
    (oldPath : LibraryPath)
    (move : MoveRecord) : Work Bool :=
  if request.pathType = .original ∧ request.assetInfo = none then
    pure false
  else if request.pathType.isAssetMove then
    moveAssetFile
      { moveId := move.id
        startPath := oldPath
        source := move.oldPath
        target := request.newPath }
      request.assetInfo
  else
    moveOtherFile request move

/-- The file is at the new path and recorded there when this returns. -/
def moveFile
    (request : MoveRequest) : Work Bool :=
  match request.oldPath with
  | none =>
      pure false
  | some oldPath =>
      if oldPath = request.newPath then
        pure true
      else do
        ExceptT.mk (perform (.ensureFolders request.newPath))
        let recorded ← ExceptT.mk (perform .getByEntity)
        let move ← recordMove request oldPath recorded
        match move with
        | none =>
            pure false
        | some move =>
            finishMove request oldPath move

end Frameleaf.StorageMove
