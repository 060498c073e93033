import Frameleaf.StorageMove.FileLaws

namespace Frameleaf.StorageMove

open Programs

/-!
# How the file comes to its new path

Once a move is recorded, every action of the file system leaves the file where
the record finds it.
-/

variable {move : Move} {world later : World} {record : MoveRecord}

theorem tracks_of_found
    (recorded : world.rows.move = some record)
    (found : Found move.bytes world.files record) :
    move.Tracks world := by
  unfold Move.Tracks Tracked
  rw [recorded]
  exact found

variable {bytes : List UInt8}

theorem Holds.quiet
    {before : World}
    {path : LibraryPath}
    (holds : Holds bytes before.files (.library path))
    (quiet : Quiet before later) :
    Holds bytes later.files (.library path) :=
  (holds_congr quiet.library path).mpr holds

/-- The file has arrived at the new path of a recorded move. -/
structure Arrived
    (bytes : List UInt8)
    (files : Files)
    (record : MoveRecord) : Prop where
  found : Found bytes files record
  atTarget : Holds bytes files (.library record.newPath)

/-- A recorded move outside any transaction. -/
structure Pending
    (record : MoveRecord)
    (path : Option LibraryPath)
    (world : World) : Prop where
  rows : world.rows = { path := some path, move := some record }
  transaction : world.transaction = none

variable {path : Option LibraryPath}

theorem Pending.quiet
    (pending : Pending record path world)
    (quiet : Quiet world later) :
    Pending record path later where
  rows := quiet.rows.trans pending.rows
  transaction := quiet.transaction.trans pending.transaction

theorem Pending.recorded
    (pending : Pending record path world) :
    world.rows.move = some record := by
  rw [pending.rows]

variable {file : StoredFile}

theorem holds_renamed
    {source target : FilePath}
    (same : file.bytes = bytes) :
    Holds bytes (world.renamed source target file).files target := by
  refine ⟨file, ?_, same⟩
  rw [World.renamed, World.put_files, if_pos rfl]

theorem renamed_other
    {source target path : FilePath}
    (notSource : path ≠ source)
    (notTarget : path ≠ target) :
    (world.renamed source target file).files path = world.files path := by
  rw [World.renamed, World.put_files, if_neg notTarget, World.put_files,
    if_neg notSource]

variable {target : LibraryPath}

theorem preserved_renamed
    {source : LibraryPath}
    (isThere : world.files (.library source) = some file)
    (same : file.bytes = move.bytes)
    (apart : source ≠ target) :
    Preserved move.machine move.bytes move.request.assetInfo world.files
      (world.renamed (.library source) (.library target) file).files := by
  intro path holds lost
  by_cases isTarget : path = target
  · subst isTarget
    exact absurd (holds_renamed same) lost
  · by_cases isSource : path = source
    · subst isSource
      refine ⟨target, Ne.symm isTarget, holds_renamed same, .inl ?_⟩
      rw [World.renamed, World.put_files, if_pos rfl]
      exact isThere.symm
    · have notSource : FilePath.library path ≠ .library source := by
        simpa using isSource
      have notTarget : FilePath.library path ≠ .library target := by
        simpa using isTarget
      refine absurd ?_ lost
      unfold Holds
      rw [renamed_other notSource notTarget]
      exact holds

theorem arrived_renamed
    (same : file.bytes = move.bytes)
    (apart : record.oldPath ≠ record.newPath) :
    Arrived move.bytes (world.renamed (.library record.oldPath)
      (.library record.newPath) file).files record := by
  have atTarget : Holds move.bytes (world.renamed (.library record.oldPath)
      (.library record.newPath) file).files (.library record.newPath) :=
    holds_renamed same
  refine ⟨.inr ⟨?_, atTarget⟩, atTarget⟩
  have notTarget : FilePath.library record.oldPath ≠
      .library record.newPath := by
    simpa using apart
  rw [World.renamed, World.put_files, if_neg notTarget, World.put_files,
    if_pos rfl]

variable {moveId : String}

theorem holds_placed
    {path : LibraryPath}
    (holds : Holds bytes world.files (.library path))
    (apart : path ≠ target) :
    Holds bytes (world.renamed (getStagedMovePath target moveId)
      (.library target) file).files (.library path) := by
  have notTarget : FilePath.library path ≠ .library target := by
    simpa using apart
  have notStaged : FilePath.library path ≠ getStagedMovePath target moveId := by
    intro same
    cases same
  unfold Holds
  rw [renamed_other notStaged notTarget]
  exact holds

theorem preserved_placed
    (same : file.bytes = move.bytes) :
    Preserved move.machine move.bytes move.request.assetInfo world.files
      (world.renamed (getStagedMovePath target moveId)
        (.library target) file).files := by
  intro path holds lost
  by_cases isTarget : path = target
  · subst isTarget
    exact absurd (holds_renamed same) lost
  · exact absurd (holds_placed holds isTarget) lost

variable {failed : Failure → World → Prop}

theorem achieves_renameRecorded
    {after : Renamed → World → Prop}
    (recorded : world.rows.move = some record)
    (holds : Holds move.bytes world.files (.library record.oldPath))
    (apart : record.oldPath ≠ record.newPath)
    (arrives : ∀ later, later.rows = world.rows →
      later.transaction = world.transaction → later.memory = world.memory →
        Arrived move.bytes later.files record → after .renamed later)
    (stays : ∀ outcome, outcome ≠ .renamed → after outcome world) :
    Achieves (duty move)
      (rename (.library record.oldPath) (.library record.newPath)) after
      failed world := by
  apply achieves_rename (tracks_of_found recorded (.inl holds)) _ stays
  intro file isThere
  obtain ⟨original, isOriginal, same⟩ := holds
  cases isOriginal.symm.trans isThere
  have arrived : Arrived move.bytes (world.renamed (.library record.oldPath)
      (.library record.newPath) file).files record :=
    arrived_renamed same apart
  exact ⟨tracks_of_found recorded arrived.found,
    preserved_renamed isThere same apart,
    arrives _ rfl rfl rfl arrived⟩

theorem achieves_renameStaged
    {after : Renamed → World → Prop}
    (recorded : world.rows.move = some record)
    (holds : Holds move.bytes world.files (.library record.oldPath))
    (staged : Holds move.bytes world.files
      (getStagedMovePath record.newPath moveId))
    (apart : record.oldPath ≠ record.newPath)
    (places : ∀ later, later.rows = world.rows →
      later.transaction = world.transaction → later.memory = world.memory →
        Holds move.bytes later.files (.library record.oldPath) →
          Holds move.bytes later.files (.library record.newPath) →
            after .renamed later)
    (stays : ∀ outcome, outcome ≠ .renamed → after outcome world) :
    Achieves (duty move)
      (rename (getStagedMovePath record.newPath moveId)
        (.library record.newPath)) after
      failed world := by
  apply achieves_rename (tracks_of_found recorded (.inl holds)) _ stays
  intro file isThere
  obtain ⟨copy, isCopy, same⟩ := staged
  cases isCopy.symm.trans isThere
  have kept : Holds move.bytes (world.renamed
      (getStagedMovePath record.newPath moveId) (.library record.newPath)
      file).files (.library record.oldPath) :=
    holds_placed holds apart
  exact ⟨tracks_of_found recorded (.inl kept), preserved_placed same,
    places _ rfl rfl rfl kept (holds_renamed same)⟩

/-- The source of a verified copy is removed, or stays. -/
theorem achieves_removeSource
    {after : PUnit → World → Prop}
    (recorded : world.rows.move = some record)
    (holds : Holds move.bytes world.files (.library record.oldPath))
    (placed : Holds move.bytes world.files (.library record.newPath))
    (apart : record.oldPath ≠ record.newPath)
    (matching : Matches move.machine move.bytes move.request.assetInfo)
    (arrives : ∀ later, later.rows = world.rows →
      later.transaction = world.transaction →
        Arrived move.bytes later.files record → after ⟨⟩ later) :
    Achieves (duty move) (removeSource record.oldPath) after failed world := by
  apply achieves_bind.mpr
  apply achieves_attempt.mpr
  apply guarded_action
  intro fate answer later isPerformed
  change World.unlink world fate _ = _ at isPerformed
  unfold World.unlink at isPerformed
  split at isPerformed
  · cases isPerformed
    have notSource : FilePath.library record.newPath ≠
        .library record.oldPath := by
      simpa using Ne.symm apart
    have atTarget : Holds move.bytes
        (world.put (.library record.oldPath) none).files
        (.library record.newPath) := by
      unfold Holds
      rw [World.put_files, if_neg notSource]
      exact placed
    have gone : (world.put (.library record.oldPath) none).files
        (.library record.oldPath) = none := by
      rw [World.put_files, if_pos rfl]
    have found : Found move.bytes
        (world.put (.library record.oldPath) none).files record :=
      .inr ⟨gone, atTarget⟩
    refine ⟨tracks_of_found recorded found, ?_,
      arrives _ rfl rfl ⟨found, atTarget⟩⟩
    intro path held lost
    by_cases isSource : path = record.oldPath
    · subst isSource
      exact ⟨record.newPath, Ne.symm apart, atTarget,
        .inr ⟨placed, matching⟩⟩
    · have notSource : FilePath.library path ≠ .library record.oldPath := by
        simpa using isSource
      refine absurd ?_ lost
      unfold Holds
      rw [World.put_files, if_neg notSource]
      exact held
  · cases isPerformed
    exact ⟨tracks_of_found recorded (.inl holds), .refl _ _ _ _,
      arrives world rfl rfl ⟨.inl holds, placed⟩⟩

/-- A file that is not an asset's is moved, or its move stays recorded. -/
theorem achieves_moveAcrossFilesystems
    {after : Bool → World → Prop}
    (pending : Pending record path world)
    (holds : Holds move.bytes world.files (.library record.oldPath))
    (apart : record.oldPath ≠ record.newPath)
    (arrives : ∀ later, Pending record path later →
      Arrived move.bytes later.files record → after true later)
    (stays : ∀ later, after false later) :
    Achieves (duty move)
      (moveAcrossFilesystems record.oldPath record.newPath record.id
        move.request.assetInfo)
      after failed world := by
  have recorded := pending.recorded
  apply achieves_bind.mpr
  apply achieves_renameRecorded recorded holds apart
  · intro later rows transaction _ arrived
    exact arrives later
      ⟨rows.trans pending.rows, transaction.trans pending.transaction⟩ arrived
  · intro outcome notRenamed
    cases outcome with
    | renamed =>
        exact absurd rfl notRenamed
    | failed =>
        exact stays world
    | crossDevice =>
        apply achieves_bind.mpr
        apply achieves_stageCopy (tracks_of_found recorded (.inl holds)) holds
        · intro later quiet staged matching
          have pendingStaged := pending.quiet quiet
          apply achieves_bind.mpr
          apply achieves_renameStaged pendingStaged.recorded
            (holds.quiet quiet) staged apart
          · intro placed rows transaction _ kept atTarget
            have pendingPlaced : Pending record path placed :=
              ⟨rows.trans pendingStaged.rows,
                transaction.trans pendingStaged.transaction⟩
            apply achieves_bind.mpr
            apply achieves_removeSource pendingPlaced.recorded kept atTarget
              apart matching
            intro final rows transaction arrived
            exact arrives final ⟨rows.trans pendingPlaced.rows,
              transaction.trans pendingPlaced.transaction⟩ arrived
          · intro outcome notPlaced
            rw [if_pos notPlaced]
            apply achieves_bind.mpr
            apply achieves_removeStaged
              (tracks_of_found pendingStaged.recorded
                (.inl (holds.quiet quiet)))
            intro final _
            exact stays final
        · intro later _
          exact stays later

end Frameleaf.StorageMove
