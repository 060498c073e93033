import Frameleaf.StorageMove.Runs

namespace Frameleaf.StorageMove

open Programs

/-!
# Moves in which nothing fails

A call of `moveFile` that is not interrupted, none of whose actions fails, while
no backup refers to its paths.
-/

/-- Nothing fails, and nothing is asked of a move but its end. -/
abbrev calm
    (machine : Machine) : Duty ((setting machine).settled {}) :=
  Duty.free _

variable {machine : Machine} {bytes : List UInt8} {world : World}
variable {record : MoveRecord}

theorem settles_action
    {action : Action}
    {after : Answer action → World → Prop}
    (holds : after (World.perform machine action {} world).1
      (World.perform machine action {} world).2) :
    Guarded (calm machine) (perform action) after world := by
  intro disturbances allowed _
  rw [allowed rfl]
  exact ⟨trivial, trivial, holds⟩

theorem settles_as
    {action : Action}
    {after : Answer action → World → Prop}
    {answer : Answer action}
    {later : World}
    (performs : World.perform machine action {} world = (answer, later))
    (holds : after answer later) :
    Guarded (calm machine) (perform action) after world := by
  apply settles_action
  rw [performs]
  exact holds

variable {path : FilePath} {file : StoredFile}

theorem fileAction_isThere
    {α : Type}
    (isThere : world.files path = some file)
    (act : StoredFile → Except Failure α × World) :
    Fate.fileAction {} world path act = act file := by
  unfold Fate.fileAction
  rw [isThere]

variable {failed : Failure → World → Prop}

theorem settles_stat
    {after : Stats → World → Prop}
    (isThere : world.files path = some file)
    (holds : after file.stats world) :
    Achieves (calm machine) (stat path) after failed world :=
  settles_as (fileAction_isThere isThere _) holds

theorem settles_stat_missing
    {after : Stats → World → Prop}
    (missing : world.files path = none)
    (fails : failed .missing world) :
    Achieves (calm machine) (stat path) after failed world := by
  have performs : World.perform machine (.stat path) {} world =
      (Except.error .missing, world) := by
    change Fate.fileAction {} world path _ = _
    unfold Fate.fileAction
    rw [missing]
  exact settles_as performs fails

variable {after : Bool → World → Prop}

theorem settles_getConfig
    (holds : after machine.hashVerificationEnabled world) :
    Achieves (calm machine) (ExceptT.mk (perform .getConfig)) after failed
      world :=
  settles_as rfl holds

theorem settles_hashFileMatching
    {checksum : List UInt8}
    {after : List UInt8 → World → Prop}
    (isThere : world.files path = some file)
    (holds : after (machine.digest checksum.length file.bytes) world) :
    Achieves (calm machine)
      (ExceptT.mk (perform (.hashFileMatching path checksum))) after failed
      world :=
  settles_as (fileAction_isThere isThere _) holds

theorem settles_verify
    {oldPath newPath : FilePath}
    {assetInfo : Option AssetInfo}
    (new : Holds bytes world.files newPath)
    (matching : Matches machine bytes assetInfo)
    (old : assetInfo = none → Holds bytes world.files oldPath)
    (holds : after true world) :
    Achieves (calm machine)
      (verifyNewPathContentsMatchesExpected oldPath newPath assetInfo) after
      failed world := by
  obtain ⟨file, isThere, same⟩ := new
  apply achieves_bind.mpr
  apply settles_stat isThere
  apply achieves_bind.mpr
  cases assetInfo with
  | none =>
      obtain ⟨original, isOriginal, sameOriginal⟩ := old rfl
      apply achieves_bind.mpr
      apply settles_stat isOriginal
      have sameSize : ¬file.stats.size ≠ original.stats.size := by
        simp [StoredFile.stats, same, sameOriginal]
      rw [achieves_pure, if_neg sameSize]
      apply achieves_bind.mpr
      exact settles_getConfig holds
  | some info =>
      obtain ⟨sized, digested⟩ := matching info rfl
      have sameSize : ¬file.stats.size ≠ info.sizeInBytes := by
        simp [StoredFile.stats, same, sized]
      unfold expectedSize
      rw [achieves_pure, if_neg sameSize]
      apply achieves_bind.mpr
      apply settles_getConfig
      cases isEnabled : machine.hashVerificationEnabled with
      | false =>
          exact holds
      | true =>
          apply achieves_bind.mpr
          apply settles_hashFileMatching isThere
          rw [same, digested isEnabled, decide_eq_true rfl]
          exact holds

variable {target source : LibraryPath}

theorem settles_removeStaged
    {moveId : String}
    {after : PUnit → World → Prop}
    (holds : ∀ later, Quiet world later → after ⟨⟩ later) :
    Achieves (calm machine) (removeStaged (getStagedMovePath target moveId))
      after failed world := by
  apply achieves_bind.mpr
  apply achieves_attempt.mpr
  exact settles_as rfl (holds _ (quiet_put _ _ _ _))

/-- A copy is staged beside the new path. -/
theorem settles_stageCopy
    {moveId : String}
    {assetInfo : Option AssetInfo}
    {after : Option FilePath → World → Prop}
    (holds : Holds bytes world.files (.library source))
    (matching : Matches machine bytes assetInfo)
    (copied : ∀ later, Quiet world later → later.memory = world.memory →
      Holds bytes later.files (getStagedMovePath target moveId) →
        after (some (getStagedMovePath target moveId)) later) :
    Achieves (calm machine)
      (stageCopy (.library source) (getStagedMovePath target moveId) assetInfo)
      after failed world := by
  obtain ⟨file, isThere, same⟩ := holds
  apply achieves_tryCatch.mpr
  apply achieves_bind.mpr
  have copies : World.perform machine
      (.copyFile (.library source) (getStagedMovePath target moveId)) {}
      world = (Except.ok PUnit.unit,
        world.put (getStagedMovePath target moveId)
          (some { file with atime := 0, mtime := 0 })) :=
    fileAction_isThere isThere _
  apply settles_as copies
  have quiet := quiet_put world target moveId
    (some { file with atime := 0, mtime := 0 })
  have staged : (world.put (getStagedMovePath target moveId)
      (some { file with atime := 0, mtime := 0 })).files
      (getStagedMovePath target moveId) =
        some { file with atime := 0, mtime := 0 } := by
    rw [World.put_files, if_pos rfl]
  have isSource := (quiet.library source).trans isThere
  have sameMemory : (world.put (getStagedMovePath target moveId)
      (some { file with atime := 0, mtime := 0 })).memory = world.memory :=
    rfl
  generalize world.put (getStagedMovePath target moveId)
    (some { file with atime := 0, mtime := 0 }) = copy at *
  apply achieves_bind.mpr
  apply settles_verify ⟨_, staged, same⟩ matching
    fun _ => ⟨file, isSource, same⟩
  apply achieves_bind.mpr
  apply settles_stat isSource
  have touches : World.perform machine
      (.utimes (getStagedMovePath target moveId) file.atime file.mtime) {}
      copy = (Except.ok PUnit.unit,
        copy.put (getStagedMovePath target moveId) (some file)) :=
    fileAction_isThere staged _
  apply achieves_bind.mpr
  apply settles_as touches
  apply copied
  · exact quiet.trans (quiet_put _ _ _ _)
  · exact sameMemory
  · exact ⟨_, by rw [World.put_files, if_pos rfl], same⟩

theorem settles_rename
    {source target : FilePath}
    {after : Renamed → World → Prop}
    (isThere : world.files source = some file)
    (sameDevice : machine.deviceOf source = machine.deviceOf target)
    (holds : after .renamed (world.renamed source target file)) :
    Achieves (calm machine) (rename source target) after failed world := by
  have renames : World.perform machine (.rename source target) {} world =
      (Except.ok PUnit.unit, world.renamed source target file) := by
    change Fate.fileAction {} world source _ = _
    rw [fileAction_isThere isThere, if_pos sameDevice]
    rfl
  apply achieves_bind.mpr
  apply achieves_attempt.mpr
  exact settles_as renames holds

theorem settles_rename_across
    {source target : FilePath}
    {after : Renamed → World → Prop}
    (isThere : world.files source = some file)
    (across : machine.deviceOf source ≠ machine.deviceOf target)
    (holds : after .crossDevice world) :
    Achieves (calm machine) (rename source target) after failed world := by
  have reports : World.perform machine (.rename source target) {} world =
      (Except.error .crossDevice, world) := by
    change Fate.fileAction {} world source _ = _
    rw [fileAction_isThere isThere, if_neg across]
  apply achieves_bind.mpr
  apply achieves_attempt.mpr
  exact settles_as reports holds

theorem settles_removeSource
    {after : PUnit → World → Prop}
    (placed : Holds bytes world.files (.library target))
    (apart : source ≠ target)
    (holds : ∀ later, later.rows = world.rows →
      later.transaction = world.transaction →
        Holds bytes later.files (.library target) → after ⟨⟩ later) :
    Achieves (calm machine) (removeSource source) after failed world := by
  have removes : World.perform machine (.unlink (.library source)) {} world =
      (Except.ok PUnit.unit, world.put (.library source) none) :=
    rfl
  apply achieves_bind.mpr
  apply achieves_attempt.mpr
  apply settles_as removes
  apply holds
  · rfl
  · rfl
  · have notSource : FilePath.library target ≠ .library source := by
      simpa using Ne.symm apart
    unfold Holds
    rw [World.put_files, if_neg notSource]
    exact placed

theorem staged_device
    (machine : Machine)
    (target : LibraryPath)
    (moveId : String) :
    machine.deviceOf (getStagedMovePath target moveId) =
      machine.deviceOf (.library target) :=
  rfl

variable {request : MoveRequest}

theorem settles_placeOtherFile
    {path : Option LibraryPath}
    (pending : Pending record path world)
    (holds : Holds bytes world.files (.library record.oldPath))
    (matching : Matches machine bytes request.assetInfo)
    (arrives : ∀ later, Pending record path later →
      Holds bytes later.files (.library request.newPath) → after true later) :
    Achieves (calm machine) (placeOtherFile request record) after failed
      world := by
  unfold placeOtherFile
  split
  · rename_i inPlace
    exact arrives world pending (inPlace ▸ holds)
  · rename_i apart
    obtain ⟨file, isThere, same⟩ := holds
    apply achieves_bind.mpr
    by_cases sameDevice : machine.deviceOf (.library record.oldPath) =
        machine.deviceOf (.library request.newPath)
    · apply settles_rename isThere sameDevice
      exact arrives _ ⟨pending.rows, pending.transaction⟩ (holds_renamed same)
    · apply settles_rename_across isThere sameDevice
      apply achieves_bind.mpr
      apply settles_stageCopy ⟨file, isThere, same⟩ matching
      intro later quiet _ staged
      obtain ⟨copy, isCopy, sameCopy⟩ := staged
      have pendingLater := pending.quiet quiet
      apply achieves_bind.mpr
      apply settles_rename isCopy (staged_device _ _ _)
      apply achieves_bind.mpr
      apply settles_removeSource (holds_renamed sameCopy) apart
      intro final rows transaction arrived
      exact arrives final ⟨rows.trans pendingLater.rows,
        transaction.trans pendingLater.transaction⟩ arrived

/-- The path of a person with an owner is saved. -/
def MoveRequest.savesPerson
    (request : MoveRequest) : Bool :=
  request.pathType = .face ∧ request.ownerId.isSome

/-- The path is saved if the file is a person's with an owner. -/
theorem settles_savePath
    {path : Option LibraryPath}
    {after : PUnit → World → Prop}
    (pending : Pending record path world)
    (holds : ∀ later, later.files = world.files →
      Pending record
          (if request.savesPerson then some request.newPath else path) later →
        after ⟨⟩ later) :
    Achieves (calm machine)
      (savePath request.pathType request.newPath request.ownerId) after failed
      world := by
  have isThere : world.current = { path := some path, move := some record } :=
    (World.current_alone pending.transaction).trans pending.rows
  unfold savePath
  split
  · rename_i owner isFace isOwned
    have saves : request.savesPerson = true := by
      simp [MoveRequest.savesPerson, isFace, isOwned]
    rw [saves, if_pos rfl] at holds
    have updates : World.perform machine (.updatePerson owner request.newPath)
        {} world = (Except.ok PUnit.unit, { world with
          rows := { path := some (some request.newPath)
                    move := some record } }) := by
      change World.updatePerson world {} request.newPath = _
      unfold World.updatePerson
      rw [isThere]
      change (Except.ok PUnit.unit, world.setRows _) = _
      rw [World.setRows_alone pending.transaction]
    apply settles_as updates
    apply holds
    · rfl
    · exact ⟨rfl, pending.transaction⟩
  · rename_i other
    have saves : request.savesPerson = false := by
      cases isOwned : request.ownerId with
      | none =>
          simp [MoveRequest.savesPerson, isOwned]
      | some owner =>
          have notFace : request.pathType ≠ .face :=
            fun isFace => other owner isFace isOwned
          simp [MoveRequest.savesPerson, notFace]
    rw [saves, if_neg nofun] at holds
    exact holds world rfl pending

theorem settles_deleteRecordedMove
    {path : Option LibraryPath}
    {after : PUnit → World → Prop}
    (pending : Pending record path world)
    (holds : after ⟨⟩
      { world with rows := { path := some path, move := none } }) :
    Achieves (calm machine) (deleteRecordedMove record.id) after failed
      world := by
  have isThere : world.current = { path := some path, move := some record } :=
    (World.current_alone pending.transaction).trans pending.rows
  have deletes : World.perform machine (.deleteMove record.id) {} world =
      (Except.ok true,
        { world with rows := { path := some path, move := none } }) := by
    change World.deleteMove world {} record.id = _
    unfold World.deleteMove
    rw [isThere, if_pos (by simp)]
    change (Except.ok true, world.setRows _) = _
    rw [World.setRows_alone pending.transaction]
  apply achieves_bind.mpr
  exact settles_as deletes holds

theorem settles_moveOtherFile
    {path : Option LibraryPath}
    (pending : Pending record path world)
    (holds : Holds bytes world.files (.library record.oldPath))
    (matching : Matches machine bytes request.assetInfo)
    (moves : ∀ later,
      later.rows = {
        path := some
          (if request.savesPerson then some request.newPath else path)
        move := none } →
      Holds bytes later.files (.library request.newPath) → after true later) :
    Achieves (calm machine) (moveOtherFile request record) after failed
      world := by
  apply achieves_bind.mpr
  apply settles_placeOtherFile pending holds matching
  intro later pendingLater arrived
  rw [if_pos rfl]
  apply achieves_bind.mpr
  apply settles_savePath pendingLater
  intro saved sameFiles pendingSaved
  apply achieves_bind.mpr
  apply settles_deleteRecordedMove pendingSaved
  apply moves
  · rfl
  · rw [← sameFiles] at arrived
    exact arrived

open Programs

/-!
## Moves of assets in which nothing fails

The transaction of an asset's move saves the new path and forgets the record, or
finds that the new path is on another device, where a copy is placed instead.
-/

variable {move : Move} {world : World} {record : MoveRecord}

section Locked

variable {operations : AssetFileMoveOperations}

variable {failed : Failure → World → Prop}

/-- The new path is saved and the record forgotten. -/
theorem settles_saveMove
    {after : PUnit → World → Prop}
    (opened : Opened move record (move.rows record) world)
    (saves : after ⟨⟩ { world with
      transaction := some {
        path := some (some record.newPath)
        move := none } }) :
    Achieves (calm move.machine)
      (saveMove (move.assetMove record) operations) after failed world := by
  have openedSaved : Opened move record
      { path := some (some record.newPath), move := some record }
      { world with
        transaction := some {
          path := some (some record.newPath)
          move := some record } } :=
    ⟨opened.rows, rfl⟩
  have savesPath : World.perform move.machine
      (.saveMovedPath move.oldPath record.newPath) {} world =
        (Except.ok PUnit.unit, { world with
          transaction := some {
            path := some (some record.newPath)
            move := some record } }) := by
    change World.saveMovedPath world {} _ _ = _
    unfold World.saveMovedPath
    rw [opened.current]
    change (Except.ok PUnit.unit, world.setRows
      (if some (some move.oldPath) = some (some move.oldPath) then _ else _)) = _
    rw [if_pos rfl, opened.setRows]
    rfl
  have deletes : World.perform move.machine (.deleteMove record.id) {}
      { world with
        transaction := some {
          path := some (some record.newPath)
          move := some record } } =
        (Except.ok true, { world with
          transaction := some {
            path := some (some record.newPath)
            move := none } }) := by
    change World.deleteMove _ {} record.id = _
    unfold World.deleteMove
    rw [openedSaved.current, if_pos (by simp)]
    change (Except.ok true, World.setRows _ _) = _
    rw [openedSaved.setRows]
  apply achieves_tryCatch.mpr
  apply achieves_bind.mpr
  apply settles_as savesPath
  apply achieves_bind.mpr
  exact settles_as deletes saves

variable {after : AssetFileMoveResult → World → Prop}

theorem settles_moveLocked
    (opened : Opened move record (move.rows record) world)
    (places : Achieves (calm move.machine)
      (placeMove (move.assetMove record) operations) after failed world) :
    Achieves (calm move.machine)
      (moveLocked (move.assetMove record) operations) after failed world := by
  have reads : World.perform move.machine .readMovedFile {} world =
      (Except.ok (some (some (move.assetMove record).startPath)), world) := by
    change Fate.read {} world.current.path world = _
    rw [opened.current]
    rfl
  apply achieves_bind.mpr
  apply settles_as rfl
  apply achieves_bind.mpr
  apply settles_as rfl
  apply achieves_bind.mpr
  apply settles_as reads
  change Achieves _ (moveCurrent (move.assetMove record) operations
    (some (some (move.assetMove record).startPath))) _ _ _
  rw [moveCurrent_same]
  exact places

theorem settles_repositoryMoveFile
    (pending : Pending record (some move.oldPath) world)
    (places : Achieves (calm move.machine)
      (placeMove (move.assetMove record) operations)
      (fun result later => after result later.committed) (fun _ _ => False)
      { world with transaction := some (move.rows record) }) :
    Achieves (calm move.machine)
      (AssetRepository.moveFile (move.assetMove record) operations) after
      failed world := by
  have opened : Opened move record (move.rows record)
      { world with transaction := some (move.rows record) } :=
    ⟨pending.rows, rfl⟩
  have begins : World.perform move.machine .begin {} world =
      (Except.ok PUnit.unit,
        { world with transaction := some (move.rows record) }) := by
    change (Except.ok PUnit.unit,
      { world with transaction := some world.rows }) = _
    rw [pending.rows]
    rfl
  apply achieves_bind.mpr
  apply settles_as begins
  apply achieves_tryCatch.mpr
  apply achieves_bind.mpr
  apply (settles_moveLocked opened places).mono
  · intro result later holds
    apply achieves_bind.mpr
    exact settles_as rfl holds
  · intro _ _ impossible
    exact impossible.elim

/-- A file that is renamed is moved once its path is saved. -/
theorem settles_moved
    (pending : Pending record (some move.oldPath) world)
    (renames : Achieves (calm move.machine) operations.rename
      (fun renamed later => renamed = true ∧
        Opened move record (move.rows record) later ∧
          Holds move.bytes later.files (.library record.newPath))
      (fun _ _ => False)
      { world with transaction := some (move.rows record) })
    (finishes : ∀ placed : World,
      Holds move.bytes placed.files (.library record.newPath) →
        Achieves (calm move.machine) operations.finish
          (fun _ later => SameRows placed later ∧
            Holds move.bytes later.files (.library record.newPath))
          (fun _ _ => False) placed)
    (moves : ∀ later,
      later.rows = { path := some (some record.newPath), move := none } →
        Holds move.bytes later.files (.library record.newPath) →
          after .moved later) :
    Achieves (calm move.machine)
      (AssetRepository.moveFile (move.assetMove record) operations) after
      failed world := by
  apply settles_repositoryMoveFile pending
  apply achieves_bind.mpr
  apply renames.mono
  · rintro renamed later ⟨rfl, opened, holds⟩
    rw [if_pos rfl]
    apply achieves_bind.mpr
    apply settles_saveMove opened
    apply achieves_bind.mpr
    apply (finishes { later with
      transaction := some {
        path := some (some record.newPath)
        move := none } } holds).mono
    · rintro _ final ⟨same, arrived⟩
      apply moves
      · change final.current = _
        unfold World.current
        rw [same.transaction]
        rfl
      · exact arrived
    · intro _ _ impossible
      exact impossible.elim
  · intro _ _ impossible
    exact impossible.elim

theorem settles_notMoved
    {memory : MoveState}
    (pending : Pending record (some move.oldPath) world)
    (renames : Achieves (calm move.machine) operations.rename
      (fun renamed later => renamed = false ∧
        later = { world with
          transaction := some (move.rows record), memory := memory })
      (fun _ _ => False)
      { world with transaction := some (move.rows record) })
    (stays : after .failed { world with memory := memory }) :
    Achieves (calm move.machine)
      (AssetRepository.moveFile (move.assetMove record) operations) after
      failed world := by
  apply settles_repositoryMoveFile pending
  apply achieves_bind.mpr
  apply renames.mono
  · rintro renamed later ⟨rfl, rfl⟩
    have isBack : World.committed { world with
        transaction := some (move.rows record), memory := memory } =
          { world with memory := memory } := by
      change { world with
        rows := move.rows record, transaction := none, memory := memory } = _
      rw [← pending.transaction]
      congr 1
      exact pending.rows.symm
    change after .failed (World.committed _)
    rw [isBack]
    exact stays
  · intro _ _ impossible
    exact impossible.elim

end Locked

theorem settles_remember
    {change : MoveState → MoveState}
    {after : PUnit → World → Prop}
    (holds : after ⟨⟩ { world with memory := change world.memory }) :
    Achieves (calm move.machine) (remember change) after failed world := by
  apply achieves_bind.mpr
  apply achieves_lift.mpr
  apply settles_as rfl
  apply achieves_lift.mpr
  exact settles_as rfl holds

theorem settles_placeCopy
    {after : AssetFileMoveResult → World → Prop}
    (pending : Pending record (some move.oldPath) world)
    (staged : Holds move.bytes world.files
      (getStagedMovePath record.newPath record.id))
    (apart : record.oldPath ≠ record.newPath)
    (moves : ∀ later,
      later.rows = { path := some (some record.newPath), move := none } →
        Holds move.bytes later.files (.library record.newPath) →
          after .moved later) :
    Achieves (calm move.machine)
      (placeCopy (move.assetMove record)
        (getStagedMovePath record.newPath record.id))
      after failed world := by
  obtain ⟨copy, isCopy, same⟩ := staged
  apply achieves_bind.mpr
  apply achieves_attempt.mpr
  apply settles_moved pending
  · have isThere : World.files
        { world with transaction := some (move.rows record) }
        (getStagedMovePath record.newPath record.id) = some copy := isCopy
    apply achieves_bind.mpr
    apply settles_rename isThere (staged_device _ _ _)
    apply achieves_bind.mpr
    apply settles_remember
    exact ⟨by simp, ⟨pending.rows, rfl⟩, holds_renamed same⟩
  · intro placed holds
    apply settles_removeSource holds apart
    intro later rows transaction arrived
    exact ⟨⟨rows, transaction⟩, arrived⟩
  · intro later rows arrived
    apply achieves_bind.mpr
    apply achieves_lift.mpr
    apply settles_as rfl
    split
    · exact moves later rows arrived
    · apply achieves_bind.mpr
      apply settles_removeStaged
      intro final quiet
      exact moves final (quiet.rows.trans rows) (arrived.quiet quiet)

/-- The move of an asset's file is done. -/
theorem settles_moveAssetFile
    (pending : Pending record (some move.oldPath) world)
    (holds : Holds move.bytes world.files (.library record.oldPath))
    (matching : Matches move.machine move.bytes move.request.assetInfo)
    (moves : ∀ later,
      later.rows = { path := some (some record.newPath), move := none } →
        Holds move.bytes later.files (.library record.newPath) →
          after true later) :
    Achieves (calm move.machine)
      (moveAssetFile (move.assetMove record) move.request.assetInfo) after
      failed world := by
  apply achieves_bind.mpr
  apply achieves_lift.mpr
  apply settles_as rfl
  have pendingNow : Pending record (some move.oldPath)
      { world with memory := {} } :=
    ⟨pending.rows, pending.transaction⟩
  have ends : ∀ later : World,
      later.rows = { path := some (some record.newPath), move := none } →
        Holds move.bytes later.files (.library record.newPath) →
          Achieves (calm move.machine)
            (do
              let state ← ExceptT.lift (perform .recollect)
              if AssetFileMoveResult.moved = .failed ∧ state.crossDevice then
                let copy ← stageCopy (.library record.oldPath)
                  (getStagedMovePath record.newPath record.id)
                  move.request.assetInfo
                copy.elim (pure false) fun staged => do
                  let result ← placeCopy (move.assetMove record) staged
                  pure (result = .moved)
              else
                pure (AssetFileMoveResult.moved = .moved) : Work Bool)
            after failed later := by
    intro later rows arrived
    apply achieves_bind.mpr
    apply achieves_lift.mpr
    apply settles_as rfl
    rw [if_neg (by simp)]
    exact moves later rows arrived
  obtain ⟨file, isThere, same⟩ := holds
  apply achieves_bind.mpr
  by_cases inPlace : record.oldPath = record.newPath
  · apply settles_moved pendingNow _ _ ends
    · change Achieves _ (if record.oldPath = record.newPath then _ else _) _ _ _
      rw [if_pos inPlace]
      exact ⟨rfl, ⟨pending.rows, rfl⟩, inPlace ▸ ⟨file, isThere, same⟩⟩
    · intro placed arrived
      exact ⟨⟨rfl, rfl⟩, arrived⟩
  · have isRenamed : (renameOperations record.oldPath record.newPath).rename =
        (do
          let outcome ← rename (.library record.oldPath)
            (.library record.newPath)
          remember fun state =>
            { state with crossDevice := outcome = .crossDevice }
          pure (outcome = .renamed)) :=
      if_neg inPlace
    have isThereNow : World.files
        { world with transaction := some (move.rows record), memory := {} }
        (.library record.oldPath) = some file := isThere
    by_cases sameDevice : move.machine.deviceOf (.library record.oldPath) =
        move.machine.deviceOf (.library record.newPath)
    · apply settles_moved pendingNow _ _ ends
      · change Achieves _
          (renameOperations record.oldPath record.newPath).rename _ _ _
        rw [isRenamed]
        apply achieves_bind.mpr
        apply settles_rename isThereNow sameDevice
        apply achieves_bind.mpr
        apply settles_remember
        exact ⟨by simp, ⟨pending.rows, rfl⟩, holds_renamed same⟩
      · intro placed arrived
        exact ⟨⟨rfl, rfl⟩, arrived⟩
    · have crosses : Achieves (calm move.machine)
          (renameOperations record.oldPath record.newPath).rename
          (fun renamed later => renamed = false ∧
            later = { world with
              transaction := some (move.rows record)
              memory := { crossDevice := true } })
          (fun _ _ => False)
          { world with
            transaction := some (move.rows record), memory := {} } := by
        rw [isRenamed]
        apply achieves_bind.mpr
        apply settles_rename_across isThereNow sameDevice
        apply achieves_bind.mpr
        apply settles_remember
        exact ⟨by simp, by simp⟩
      apply settles_notMoved pendingNow crosses
      have pendingCrossed : Pending record (some move.oldPath)
          { world with memory := { crossDevice := true } } :=
        ⟨pending.rows, pending.transaction⟩
      have held : Holds move.bytes
          (World.files { world with memory := { crossDevice := true } })
          (.library record.oldPath) :=
        ⟨file, isThere, same⟩
      apply achieves_bind.mpr
      apply achieves_lift.mpr
      apply settles_as rfl
      rw [if_pos ⟨rfl, rfl⟩]
      apply achieves_bind.mpr
      apply settles_stageCopy held matching
      intro later quiet _ staged
      apply achieves_bind.mpr
      apply settles_placeCopy (pendingCrossed.quiet quiet) staged inPlace
      intro final rows arrived
      exact moves final rows arrived

end Frameleaf.StorageMove
