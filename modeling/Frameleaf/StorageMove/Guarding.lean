import Frameleaf.StorageMove.Transacting

namespace Frameleaf.StorageMove

open Programs

/-!
# A storage move keeps the file

Whatever fails and wherever the process ends, the file is at a path of the
request or where the recorded move finds it, and it left every other path by a
rename or for a verified copy.
-/

variable {move : Move} {world : World} {record : MoveRecord}

theorem achieves_remember
    {change : MoveState → MoveState}
    {after : PUnit → World → Prop}
    {failed : Failure → World → Prop}
    (tracks : move.Tracks world)
    (holds : after ⟨⟩ { world with memory := change world.memory }) :
    Achieves (duty move) (remember change) after failed world := by
  apply achieves_bind.mpr
  apply achieves_lift.mpr
  apply guarded_action
  intro _ state recollected isPerformed
  cases isPerformed
  refine ⟨tracks, .refl _ _ _ _, ?_⟩
  apply achieves_lift.mpr
  apply guarded_action
  intro _ _ _ isPerformed
  cases isPerformed
  exact ⟨tracks, .refl _ _ _ _, holds⟩

theorem achieves_undoRename
    {source target : FilePath}
    {after : PUnit → World → Prop}
    {failed : Failure → World → Prop}
    (tracks : move.Tracks world)
    (keeps : ∀ file, world.files source = some file →
      move.Tracks (world.renamed source target file) ∧
        Preserved move.machine move.bytes move.request.assetInfo world.files
          (world.renamed source target file).files)
    (holds : ∀ later, after ⟨⟩ later) :
    Achieves (duty move) (undoRename source target) after failed world := by
  apply achieves_bind.mpr
  apply achieves_attempt.mpr
  apply achieves_renameFile tracks
  · intro file isThere
    obtain ⟨tracksLater, preserved⟩ := keeps file isThere
    exact ⟨tracksLater, preserved, holds _⟩
  · intro failure
    exact holds world

/-- What the first try of a move starts from. -/
def Renaming
    (bytes : List UInt8)
    (record : MoveRecord)
    (files : Files)
    (memory : MoveState) : Prop :=
  Holds bytes files (.library record.oldPath) ∧
    (memory.crossDevice = true → record.oldPath ≠ record.newPath)

/-- The first try of a move renames the file and can put it back. -/
theorem operates_renameOperations :
    Operates move record (renameOperations record.oldPath record.newPath)
      (Renaming move.bytes record)
      (fun files _ => Arrived move.bytes files record) where
  found := fun _ _ starts => .inl starts.1
  placedFound := fun _ _ arrived => arrived.found
  renames := by
    intro world recorded starts
    change Achieves _ (if record.oldPath = record.newPath then _ else _) _ _ _
    split
    · rename_i inPlace
      have atTarget := starts.1
      rw [inPlace] at atTarget
      exact ⟨⟨rfl, rfl⟩, fun _ => ⟨.inl starts.1, atTarget⟩, nofun⟩
    · rename_i apart
      apply achieves_bind.mpr
      apply achieves_renameRecorded recorded starts.1 apart
      · intro later rows transaction _ arrived
        have recordedLater : later.rows.move = some record := rows ▸ recorded
        apply achieves_bind.mpr
        apply achieves_remember (tracks_of_found recordedLater arrived.found)
        exact ⟨⟨rows, transaction⟩, fun _ => arrived, by simp⟩
      · intro outcome notRenamed
        apply achieves_bind.mpr
        apply achieves_remember (tracks_of_found recorded (.inl starts.1))
        exact ⟨⟨rfl, rfl⟩, fun isRenamed => absurd (by simpa using isRenamed)
          notRenamed, fun _ => ⟨starts.1, fun _ => apart⟩⟩
  undoes := by
    intro world recorded arrived
    change Achieves _ (if record.oldPath = record.newPath then _ else _) _ _ _
    split
    · exact trivial
    · rename_i apart
      apply achieves_undoRename (tracks_of_found recorded arrived.found) _
        fun _ => trivial
      intro file isThere
      obtain ⟨original, isOriginal, same⟩ := arrived.atTarget
      cases isOriginal.symm.trans isThere
      exact ⟨tracks_of_found recorded (.inl (holds_renamed same)),
        preserved_renamed isThere same (Ne.symm apart)⟩
  finishes := by
    intro world _ arrived
    exact ⟨⟨rfl, rfl⟩, arrived⟩

/-- What the second try of a move starts from. -/
def Staged
    (bytes : List UInt8)
    (record : MoveRecord)
    (files : Files)
    (_ : MoveState) : Prop :=
  Holds bytes files (.library record.oldPath) ∧
    Holds bytes files (getStagedMovePath record.newPath record.id)

/-- A copy is in its place and the source still there. -/
def Copied
    (bytes : List UInt8)
    (record : MoveRecord)
    (files : Files)
    (_ : MoveState) : Prop :=
  Holds bytes files (.library record.oldPath) ∧
    Holds bytes files (.library record.newPath)

theorem keeps_takenBack
    {file : StoredFile}
    (recorded : world.rows.move = some record)
    (holds : Holds move.bytes world.files (.library record.oldPath))
    (apart : record.oldPath ≠ record.newPath)
    (matching : Matches move.machine move.bytes move.request.assetInfo) :
    let later := world.renamed (.library record.newPath)
      (getStagedMovePath record.newPath record.id) file
    move.Tracks later ∧
      Preserved move.machine move.bytes move.request.assetInfo world.files
        later.files := by
  have others : ∀ path : LibraryPath, path ≠ record.newPath →
      Holds move.bytes world.files (.library path) →
        Holds move.bytes (world.renamed (.library record.newPath)
          (getStagedMovePath record.newPath record.id) file).files
          (.library path) := by
    intro path notTarget held
    have notLibrary : FilePath.library path ≠ .library record.newPath := by
      simpa using notTarget
    have notStaged : FilePath.library path ≠
        getStagedMovePath record.newPath record.id := by
      intro same
      cases same
    unfold Holds
    rw [renamed_other notLibrary notStaged]
    exact held
  have kept := others record.oldPath apart holds
  refine ⟨tracks_of_found recorded (.inl kept), ?_⟩
  intro path held lost
  by_cases isTarget : path = record.newPath
  · subst isTarget
    exact ⟨record.oldPath, apart, kept, .inr ⟨holds, matching⟩⟩
  · exact absurd (others path isTarget held) lost

theorem operates_placeOperations
    (apart : record.oldPath ≠ record.newPath)
    (matching : Matches move.machine move.bytes move.request.assetInfo) :
    Operates move record
      (placeOperations record.oldPath record.newPath
        (getStagedMovePath record.newPath record.id))
      (Staged move.bytes record) (Copied move.bytes record) where
  found := fun _ _ starts => .inl starts.1
  placedFound := fun _ _ copied => .inl copied.1
  renames := by
    intro world recorded starts
    apply achieves_bind.mpr
    apply achieves_renameStaged recorded starts.1 starts.2 apart
    · intro later rows transaction _ kept atTarget
      have recordedLater : later.rows.move = some record := rows ▸ recorded
      apply achieves_bind.mpr
      apply achieves_remember (tracks_of_found recordedLater (.inl kept))
      exact ⟨⟨rows, transaction⟩, fun _ => ⟨kept, atTarget⟩, by simp⟩
    · intro outcome notRenamed
      apply achieves_bind.mpr
      apply achieves_remember (tracks_of_found recorded (.inl starts.1))
      exact ⟨⟨rfl, rfl⟩, fun isRenamed => absurd (by simpa using isRenamed)
        notRenamed, fun _ => starts⟩
  undoes := by
    intro world recorded copied
    have tracks := tracks_of_found recorded (.inl copied.1)
    apply achieves_bind.mpr
    apply achieves_remember tracks
    apply achieves_undoRename
    · exact tracks
    · intro file _
      exact keeps_takenBack recorded copied.1 apart matching
    · intro _
      exact trivial
  finishes := by
    intro world recorded copied
    apply achieves_removeSource recorded copied.1 copied.2 apart matching
    intro later rows transaction arrived
    exact ⟨⟨rows, transaction⟩, arrived⟩

/-- A staged copy is placed or removed. -/
theorem achieves_placeCopy
    (target : record.newPath = move.request.newPath)
    (pending : Pending record (some move.oldPath) world)
    (starts : Staged move.bytes record world.files world.memory)
    (apart : record.oldPath ≠ record.newPath)
    (matching : Matches move.machine move.bytes move.request.assetInfo) :
    Achieves (duty move)
      (placeCopy (move.assetMove record)
        (getStagedMovePath record.newPath record.id))
      (fun _ _ => True) (fun _ _ => True) world := by
  have ends : ∀ (outcome : Except Failure AssetFileMoveResult)
      (later : World), move.Tracks later →
        Achieves (duty move)
          (do
            let state ← ExceptT.lift (perform .recollect)
            if state.placed then
              ExceptT.mk (.done outcome)
            else
              removeStaged (getStagedMovePath record.newPath record.id)
              ExceptT.mk (.done outcome) : Work AssetFileMoveResult)
          (fun _ _ => True) (fun _ _ => True) later := by
    intro outcome later tracks
    have isOver : ∀ final : World,
        Achieves (duty move) (ExceptT.mk (.done outcome)) (fun _ _ => True)
          (fun _ _ => True) final := by
      intro final
      cases outcome with
      | ok _ => exact trivial
      | error _ => exact trivial
    apply achieves_bind.mpr
    apply achieves_lift.mpr
    apply guarded_action
    intro _ state recollected isPerformed
    cases isPerformed
    refine ⟨tracks, .refl _ _ _ _, ?_⟩
    change Achieves _ (if later.memory.placed = true then _ else _) _ _ _
    split
    · exact isOver later
    · apply achieves_bind.mpr
      apply achieves_removeStaged tracks
      intro final _
      exact isOver final
  apply achieves_bind.mpr
  apply achieves_attempt.mpr
  apply ((achieves_repositoryMoveFile (operates_placeOperations apart matching)
    target pending starts).invariant
      (tracks_of_found pending.recorded (.inl starts.1))).mono
  · rintro result later ⟨_, tracks⟩
    exact ends (.ok result) later tracks
  · rintro failure later ⟨_, tracks⟩
    exact ends (.error failure) later tracks

/-- The move of an asset's file keeps the file. -/
theorem achieves_moveAssetFile
    (target : record.newPath = move.request.newPath)
    (pending : Pending record (some move.oldPath) world)
    (holds : Holds move.bytes world.files (.library record.oldPath)) :
    Achieves (duty move)
      (moveAssetFile (move.assetMove record) move.request.assetInfo)
      (fun _ _ => True) (fun _ _ => True) world := by
  have tracks := tracks_of_found pending.recorded (.inl holds)
  apply achieves_bind.mpr
  apply achieves_lift.mpr
  apply guarded_action
  intro _ _ _ isPerformed
  cases isPerformed
  refine ⟨tracks, .refl _ _ _ _, ?_⟩
  have pendingNow : Pending record (some move.oldPath)
      { world with memory := {} } :=
    ⟨pending.rows, pending.transaction⟩
  have starts : Renaming move.bytes record world.files {} :=
    ⟨holds, nofun⟩
  apply achieves_bind.mpr
  apply ((achieves_repositoryMoveFile operates_renameOperations target
    pendingNow starts).invariant tracks).mono
  · rintro result later ⟨failed, tracksLater⟩
    apply achieves_bind.mpr
    apply achieves_lift.mpr
    apply guarded_action
    intro _ state recollected isPerformed
    cases isPerformed
    refine ⟨tracksLater, .refl _ _ _ _, ?_⟩
    change Achieves _
      (if result = .failed ∧ later.memory.crossDevice = true then _ else _)
      _ _ _
    split
    · rename_i crossed
      obtain ⟨pendingLater, held, apart⟩ := failed crossed.1
      have isApart := apart crossed.2
      apply achieves_bind.mpr
      apply achieves_stageCopy tracksLater held
      · intro final quiet staged matching
        apply achieves_bind.mpr
        apply (achieves_placeCopy target (pendingLater.quiet quiet)
          ⟨held.quiet quiet, staged⟩ isApart matching).mono
        · intro _ _ _
          exact trivial
        · intro _ _ _
          exact trivial
      · intro final _
        exact trivial
    · exact trivial
  · intro _ _ _
    exact trivial

end Frameleaf.StorageMove
