import Frameleaf.StorageMove.Run

namespace Frameleaf.StorageMove

open Programs

/-!
# What every action of a storage move keeps

While a move is recorded the file is at the old path of the record, or it has
left that path and is at the new one.  A path of the library loses the file only
by a rename or once a verified copy is at another path.
-/

/-- A path holds the bytes of the file. -/
def Holds
    (bytes : List UInt8)
    (files : Files)
    (path : FilePath) : Prop :=
  ∃ file, files path = some file ∧ file.bytes = bytes

/-- The file is where a recorded move finds it. -/
def Found
    (bytes : List UInt8)
    (files : Files)
    (move : MoveRecord) : Prop :=
  Holds bytes files (.library move.oldPath) ∨
    files (.library move.oldPath) = none ∧
      Holds bytes files (.library move.newPath)

/-- The file is at a path of the request or where the record finds it. -/
def Tracked
    (bytes : List UInt8)
    (oldPath newPath : LibraryPath)
    (world : World) : Prop :=
  match world.rows.move with
  | none =>
      Holds bytes world.files (.library oldPath) ∨
        Holds bytes world.files (.library newPath)
  | some move =>
      Found bytes world.files move

/-- The bytes are the ones that the caller expects. -/
def Matches
    (machine : Machine)
    (bytes : List UInt8)
    (assetInfo : Option AssetInfo) : Prop :=
  ∀ info, assetInfo = some info →
    bytes.length = info.sizeInBytes ∧
      (machine.hashVerificationEnabled = true →
        machine.digest info.checksum.length bytes = info.checksum)

/--
A path of the library loses the file only by a rename to another path or while
another path holds a copy that matches what the caller expects.
-/
def Preserved
    (machine : Machine)
    (bytes : List UInt8)
    (assetInfo : Option AssetInfo)
    (before later : Files) : Prop :=
  ∀ path, Holds bytes before (.library path) →
    ¬Holds bytes later (.library path) →
      ∃ other, other ≠ path ∧ Holds bytes later (.library other) ∧
        (later (.library other) = before (.library path) ∨
          Holds bytes before (.library other) ∧
            Matches machine bytes assetInfo)

/-- The move of one file. -/
structure Move where
  machine : Machine
  bytes : List UInt8
  request : MoveRequest
  oldPath : LibraryPath

/-- What every action of a move has to keep. -/
def duty
    (move : Move) : Duty (setting move.machine) where
  invariant := Tracked move.bytes move.oldPath move.request.newPath
  guarantee := fun before later =>
    Preserved move.machine move.bytes move.request.assetInfo before.files
      later.files

variable {move : Move} {world : World}

/-- The file is in the world. -/
abbrev Move.Tracks
    (move : Move)
    (world : World) : Prop :=
  Tracked move.bytes move.oldPath move.request.newPath world

theorem guarded_action
    {action : Action}
    {after : Answer action → World → Prop}
    (acts : ∀ fate answer later,
      World.perform move.machine action fate world = (answer, later) →
        move.Tracks later ∧
          Preserved move.machine move.bytes move.request.assetInfo world.files
            later.files ∧
          after answer later) :
    Guarded (duty move) (perform action) after world :=
  guarded_act_now rfl acts

theorem Preserved.refl
    (machine : Machine)
    (bytes : List UInt8)
    (assetInfo : Option AssetInfo)
    (files : Files) :
    Preserved machine bytes assetInfo files files :=
  fun _ holds lost => absurd holds lost

/-- The rows and the files at paths of the library stay as they are. -/
structure Quiet
    (before later : World) : Prop where
  rows : later.rows = before.rows
  transaction : later.transaction = before.transaction
  library : ∀ path, later.files (.library path) = before.files (.library path)

theorem Quiet.refl
    (world : World) : Quiet world world where
  rows := rfl
  transaction := rfl
  library := fun _ => rfl

theorem Quiet.trans
    {first second third : World}
    (earlier : Quiet first second)
    (later : Quiet second third) :
    Quiet first third where
  rows := later.rows.trans earlier.rows
  transaction := later.transaction.trans earlier.transaction
  library := fun path => (later.library path).trans (earlier.library path)

theorem quiet_put
    (world : World)
    (target : LibraryPath)
    (moveId : String)
    (file : Option StoredFile) :
    Quiet world (world.put (getStagedMovePath target moveId) file) where
  rows := rfl
  transaction := rfl
  library := fun _ => rfl

variable {bytes : List UInt8}

theorem holds_congr
    {before later : Files}
    (library : ∀ path, later (.library path) = before (.library path))
    (path : LibraryPath) :
    Holds bytes later (.library path) ↔ Holds bytes before (.library path) := by
  unfold Holds
  rw [library]

theorem found_congr
    {before later : Files}
    (library : ∀ path, later (.library path) = before (.library path))
    (record : MoveRecord) :
    Found bytes later record ↔ Found bytes before record := by
  unfold Found
  rw [holds_congr library, holds_congr library, library]

theorem Tracked.quiet
    {oldPath newPath : LibraryPath}
    {before later : World}
    (tracked : Tracked bytes oldPath newPath before)
    (quiet : Quiet before later) :
    Tracked bytes oldPath newPath later := by
  unfold Tracked at *
  rw [quiet.rows]
  cases isRecorded : before.rows.move with
  | none =>
      rw [isRecorded] at tracked
      dsimp only at tracked ⊢
      rwa [holds_congr quiet.library, holds_congr quiet.library]
  | some record =>
      rw [isRecorded] at tracked
      exact (found_congr quiet.library record).mpr tracked

theorem Quiet.preserved
    {before later : World}
    (quiet : Quiet before later)
    (machine : Machine)
    (bytes : List UInt8)
    (assetInfo : Option AssetInfo) :
    Preserved machine bytes assetInfo before.files later.files := by
  intro path holds lost
  exact absurd ((holds_congr quiet.library path).mpr holds) lost

theorem guarded_quiet
    {action : Action}
    {after : Answer action → World → Prop}
    (tracks : move.Tracks world)
    (acts : ∀ fate answer later,
      World.perform move.machine action fate world = (answer, later) →
        Quiet world later ∧ after answer later) :
    Guarded (duty move) (perform action) after world := by
  apply guarded_action
  intro fate answer later isPerformed
  obtain ⟨quiet, holds⟩ := acts fate answer later isPerformed
  exact ⟨tracks.quiet quiet, quiet.preserved _ _ _, holds⟩

theorem achieves_attempt
    {setting : Setting Action Answer}
    {duty : Duty setting}
    {α : Type}
    {work : Work α}
    {after : Except Failure α → setting.World → Prop}
    {failed : Failure → setting.World → Prop}
    {world : setting.World} :
    Achieves duty (attempt work) after failed world ↔
      Achieves duty work (fun result => after (.ok result))
        (fun failure => after (.error failure)) world := by
  unfold attempt
  rw [achieves_lift]
  constructor
  · intro guarded
    apply guarded.mono
    rintro (failure | result) later holds
    · exact holds
    · exact holds
  · intro guarded
    apply Guarded.mono guarded
    rintro (failure | result) later holds
    · exact holds
    · exact holds

open Programs

/-!
## What the file system's side of a move keeps

Staged copies do not change any path of the library.  A rename moves the file,
and the source of a copy is removed when a verified copy is in its place.
-/

variable {move : Move} {world : World}

theorem Fate.fileAction_cases
    {α : Type}
    (fate : Fate)
    (world : World)
    (path : FilePath)
    (act : StoredFile → Except Failure α × World) :
    (∃ failure, fate.fileAction world path act = (.error failure, world)) ∨
      ∃ file, world.files path = some file ∧
        fate.fileAction world path act = act file := by
  unfold Fate.fileAction
  cases fate.failure with
  | some failure =>
      exact .inl ⟨failure, rfl⟩
  | none =>
      cases isThere : world.files path with
      | none =>
          exact .inl ⟨.missing, rfl⟩
      | some file =>
          exact .inr ⟨file, rfl, rfl⟩

theorem Fate.read_cases
    {α : Type}
    (fate : Fate)
    (value : α)
    (world : World) :
    fate.read value world = (.ok value, world) ∨
      ∃ failure, fate.read value world = (.error failure, world) := by
  unfold Fate.read
  cases fate.failure with
  | none =>
      exact .inl rfl
  | some failure =>
      exact .inr ⟨failure, rfl⟩

variable {path source oldPath : FilePath} {failed : Failure → World → Prop}

theorem achieves_checkFileExists
    {after : Bool → World → Prop}
    (tracks : move.Tracks world)
    (holds : after (world.files path).isSome world) :
    Achieves (duty move) (checkFileExists path) after failed world := by
  apply achieves_lift.mpr
  apply guarded_quiet tracks
  intro fate answer later isPerformed
  cases isPerformed
  exact ⟨.refl world, holds⟩

theorem achieves_stat
    {after : Stats → World → Prop}
    (tracks : move.Tracks world)
    (holds : ∀ file, world.files path = some file → after file.stats world)
    (fails : ∀ failure, failed failure world) :
    Achieves (duty move) (stat path) after failed world := by
  apply guarded_quiet tracks
  intro fate answer later isPerformed
  rcases fate.fileAction_cases world path
      (fun file => (Except.ok file.stats, world)) with
    ⟨failure, outcome⟩ | ⟨file, isThere, outcome⟩
  · cases outcome.symm.trans isPerformed
    exact ⟨.refl world, fails failure⟩
  · cases outcome.symm.trans isPerformed
    exact ⟨.refl world, holds file isThere⟩

theorem achieves_expectedSize
    {assetInfo : Option AssetInfo}
    {after : ℕ → World → Prop}
    (tracks : move.Tracks world)
    (holds : ∀ size,
      (∀ info, assetInfo = some info → size = info.sizeInBytes) →
        after size world)
    (fails : ∀ failure, failed failure world) :
    Achieves (duty move) (expectedSize oldPath assetInfo) after failed
      world := by
  cases assetInfo with
  | some info =>
      apply holds
      rintro known ⟨⟩
      rfl
  | none =>
      apply achieves_bind.mpr
      apply achieves_stat tracks _ fails
      intro file _
      apply holds
      rintro known ⟨⟩

theorem achieves_getConfig
    {after : Bool → World → Prop}
    (tracks : move.Tracks world)
    (holds : after move.machine.hashVerificationEnabled world)
    (fails : ∀ failure, failed failure world) :
    Achieves (duty move) (ExceptT.mk (perform .getConfig)) after failed
      world := by
  apply guarded_quiet tracks
  intro fate answer later isPerformed
  rcases fate.read_cases move.machine.hashVerificationEnabled world with
    outcome | ⟨failure, outcome⟩
  · cases outcome.symm.trans isPerformed
    exact ⟨.refl world, holds⟩
  · cases outcome.symm.trans isPerformed
    exact ⟨.refl world, fails failure⟩

theorem achieves_hashFileMatching
    {checksum : List UInt8}
    {after : List UInt8 → World → Prop}
    (tracks : move.Tracks world)
    (holds : ∀ file, world.files path = some file →
      after (move.machine.digest checksum.length file.bytes) world)
    (fails : ∀ failure, failed failure world) :
    Achieves (duty move)
      (ExceptT.mk (perform (.hashFileMatching path checksum))) after failed
      world := by
  apply guarded_quiet tracks
  intro fate answer later isPerformed
  rcases fate.fileAction_cases world path
      (fun file => (Except.ok (move.machine.digest checksum.length file.bytes),
        world)) with
    ⟨failure, outcome⟩ | ⟨file, isThere, outcome⟩
  · cases outcome.symm.trans isPerformed
    exact ⟨.refl world, fails failure⟩
  · cases outcome.symm.trans isPerformed
    exact ⟨.refl world, holds file isThere⟩

/-- A file that is verified matches what the caller expects. -/
theorem achieves_verify
    {newPath : FilePath}
    {assetInfo : Option AssetInfo}
    {after : Bool → World → Prop}
    (tracks : move.Tracks world)
    (holds : ∀ verified,
      (verified = true → ∃ file, world.files newPath = some file ∧
        Matches move.machine file.bytes assetInfo) →
      after verified world)
    (fails : ∀ failure, failed failure world) :
    Achieves (duty move)
      (verifyNewPathContentsMatchesExpected oldPath newPath assetInfo) after
      failed world := by
  apply achieves_bind.mpr
  apply achieves_stat tracks _ fails
  intro file isThere
  apply achieves_bind.mpr
  apply achieves_expectedSize tracks _ fails
  intro size expected
  split
  · exact holds false nofun
  · rename_i sameSize
    have sized : ∀ info, assetInfo = some info →
        file.bytes.length = info.sizeInBytes := by
      intro info isKnown
      exact (not_not.mp sameSize).trans (expected info isKnown)
    apply achieves_bind.mpr
    apply achieves_getConfig tracks _ fails
    split
    · rename_i info isEnabled
      apply achieves_bind.mpr
      apply achieves_hashFileMatching tracks _ fails
      intro other isOther
      cases isThere.symm.trans isOther
      apply holds
      intro verified
      refine ⟨file, isThere, ?_⟩
      rintro known ⟨⟩
      exact ⟨sized info rfl, fun _ => by simpa using verified⟩
    · rename_i unverified
      apply holds
      intro _
      refine ⟨file, isThere, ?_⟩
      intro info isKnown
      refine ⟨sized info isKnown, ?_⟩
      intro isEnabled
      exact absurd isEnabled (unverified info isKnown)

variable {target : LibraryPath} {moveId : String} {after : PUnit → World → Prop}

theorem achieves_removeStaged
    (tracks : move.Tracks world)
    (holds : ∀ later, Quiet world later → after ⟨⟩ later) :
    Achieves (duty move) (removeStaged (getStagedMovePath target moveId))
      after failed world := by
  apply achieves_bind.mpr
  apply achieves_attempt.mpr
  apply guarded_quiet tracks
  intro fate answer later isPerformed
  change World.unlink world fate _ = _ at isPerformed
  unfold World.unlink at isPerformed
  split at isPerformed
  · cases isPerformed
    exact ⟨quiet_put _ _ _ _, holds _ (quiet_put _ _ _ _)⟩
  · cases isPerformed
    exact ⟨.refl world, holds _ (.refl world)⟩

/-- What is put at a path is there. -/
@[simp] theorem World.put_files
    (world : World)
    (path other : FilePath)
    (file : Option StoredFile) :
    (world.put path file).files other =
      if other = path then file else world.files other :=
  rfl

theorem achieves_copyFile
    (tracks : move.Tracks world)
    (holds : ∀ file copy, world.files source = some file →
      copy.bytes = file.bytes →
        after ⟨⟩ (world.put (getStagedMovePath target moveId) (some copy)))
    (fails : ∀ failure later, Quiet world later → failed failure later) :
    Achieves (duty move)
      (ExceptT.mk (perform
        (.copyFile source (getStagedMovePath target moveId))))
      after failed world := by
  apply guarded_quiet tracks
  intro fate answer later isPerformed
  change World.copyFile world fate _ _ = _ at isPerformed
  unfold World.copyFile at isPerformed
  split at isPerformed
  · cases isPerformed
    exact ⟨quiet_put _ _ _ _, fails _ _ (quiet_put _ _ _ _)⟩
  · rcases fate.fileAction_cases world source
        (fun file => (Except.ok PUnit.unit, world.put (getStagedMovePath target moveId)
          (some { file with atime := fate.copied, mtime := fate.copied })))
      with ⟨failure, outcome⟩ | ⟨file, isThere, outcome⟩
    · cases outcome.symm.trans isPerformed
      exact ⟨.refl world, fails failure world (.refl world)⟩
    · cases outcome.symm.trans isPerformed
      exact ⟨quiet_put _ _ _ _, holds file _ isThere rfl⟩

theorem achieves_utimes
    {atime mtime : ℤ}
    (tracks : move.Tracks world)
    (holds : ∀ file, world.files (getStagedMovePath target moveId) = some file →
      after ⟨⟩ (world.put (getStagedMovePath target moveId)
        (some { file with atime, mtime })))
    (fails : ∀ failure, failed failure world) :
    Achieves (duty move)
      (ExceptT.mk (perform
        (.utimes (getStagedMovePath target moveId) atime mtime)))
      after failed world := by
  apply guarded_quiet tracks
  intro fate answer later isPerformed
  rcases fate.fileAction_cases world (getStagedMovePath target moveId)
      (fun file => (Except.ok PUnit.unit, world.put (getStagedMovePath target moveId)
        (some { file with atime, mtime })))
    with ⟨failure, outcome⟩ | ⟨file, isThere, outcome⟩
  · cases outcome.symm.trans isPerformed
    exact ⟨.refl world, fails failure⟩
  · cases outcome.symm.trans isPerformed
    exact ⟨quiet_put _ _ _ _, holds file isThere⟩

/-- A copy that is kept holds the file and was verified. -/
theorem achieves_copyAndVerify
    {source : LibraryPath}
    {after : Option FilePath → World → Prop}
    (tracks : move.Tracks world)
    (holds : Holds move.bytes world.files (.library source))
    (copied : ∀ later, Quiet world later →
      Holds move.bytes later.files (getStagedMovePath target moveId) →
        Matches move.machine move.bytes move.request.assetInfo →
          after (some (getStagedMovePath target moveId)) later)
    (refuses : ∀ later, Quiet world later → after none later)
    (fails : ∀ failure later, Quiet world later → failed failure later) :
    Achieves (duty move)
      (copyAndVerify (.library source) (getStagedMovePath target moveId)
        move.request.assetInfo)
      after failed world := by
  obtain ⟨original, isThere, sameBytes⟩ := holds
  apply achieves_bind.mpr
  apply achieves_copyFile tracks _ fails
  intro file copy isSource sameCopy
  cases isThere.symm.trans isSource
  have quiet := quiet_put world target moveId (some copy)
  have tracksCopy := tracks.quiet quiet
  apply achieves_bind.mpr
  apply achieves_verify tracksCopy _ fun failure => fails failure _ quiet
  intro verified isVerified
  cases verified with
  | false =>
      apply achieves_bind.mpr
      apply achieves_removeStaged tracksCopy
      intro later removed
      exact refuses later (quiet.trans removed)
  | true =>
      obtain ⟨staged, isStaged, matching⟩ := isVerified rfl
      rw [World.put_files, if_pos rfl] at isStaged
      cases isStaged
      rw [sameCopy, sameBytes] at matching
      apply achieves_bind.mpr
      apply achieves_stat tracksCopy _ fun failure => fails failure _ quiet
      intro stats _
      apply achieves_bind.mpr
      apply achieves_utimes tracksCopy _ fun failure => fails failure _ quiet
      intro touched isTouched
      rw [World.put_files, if_pos rfl] at isTouched
      cases isTouched
      apply copied _ (quiet.trans (quiet_put _ _ _ _)) _ matching
      refine ⟨_, by rw [World.put_files, if_pos rfl], ?_⟩
      exact sameCopy.trans sameBytes

theorem achieves_stageCopy
    {source : LibraryPath}
    {after : Option FilePath → World → Prop}
    (tracks : move.Tracks world)
    (holds : Holds move.bytes world.files (.library source))
    (copied : ∀ later, Quiet world later →
      Holds move.bytes later.files (getStagedMovePath target moveId) →
        Matches move.machine move.bytes move.request.assetInfo →
          after (some (getStagedMovePath target moveId)) later)
    (refuses : ∀ later, Quiet world later → after none later) :
    Achieves (duty move)
      (stageCopy (.library source) (getStagedMovePath target moveId)
        move.request.assetInfo)
      after failed world := by
  apply achieves_tryCatch.mpr
  apply achieves_copyAndVerify tracks holds copied refuses
  intro failure later quiet
  apply achieves_bind.mpr
  apply achieves_removeStaged (tracks.quiet quiet)
  intro final removed
  exact refuses final (quiet.trans removed)

/-- The world after a file is renamed. -/
def World.renamed
    (world : World)
    (source target : FilePath)
    (file : StoredFile) : World :=
  (world.put source none).put target (some file)

theorem achieves_renameFile
    {target : FilePath}
    (tracks : move.Tracks world)
    (keeps : ∀ file, world.files source = some file →
      move.Tracks (world.renamed source target file) ∧
        Preserved move.machine move.bytes move.request.assetInfo world.files
          (world.renamed source target file).files ∧
        after ⟨⟩ (world.renamed source target file))
    (fails : ∀ failure, failed failure world) :
    Achieves (duty move) (renameFile source target) after failed world := by
  apply guarded_action
  intro fate answer later isPerformed
  have stays : move.Tracks world ∧ Preserved move.machine move.bytes
      move.request.assetInfo world.files world.files :=
    ⟨tracks, .refl _ _ _ _⟩
  rcases fate.fileAction_cases world source
      (fun file =>
        if move.machine.deviceOf source = move.machine.deviceOf target then
          (Except.ok PUnit.unit, world.renamed source target file)
        else
          (.error .crossDevice, world))
    with ⟨failure, outcome⟩ | ⟨file, isThere, outcome⟩
  · cases outcome.symm.trans isPerformed
    exact ⟨stays.1, stays.2, fails failure⟩
  · have renames := outcome.symm.trans isPerformed
    split at renames
    · cases renames
      exact keeps file isThere
    · cases renames
      exact ⟨stays.1, stays.2, fails _⟩

theorem achieves_rename
    {target : FilePath}
    {after : Renamed → World → Prop}
    (tracks : move.Tracks world)
    (keeps : ∀ file, world.files source = some file →
      move.Tracks (world.renamed source target file) ∧
        Preserved move.machine move.bytes move.request.assetInfo world.files
          (world.renamed source target file).files ∧
        after .renamed (world.renamed source target file))
    (stays : ∀ outcome, outcome ≠ .renamed → after outcome world) :
    Achieves (duty move) (rename source target) after failed world := by
  apply achieves_bind.mpr
  apply achieves_attempt.mpr
  apply achieves_renameFile tracks keeps
  intro failure
  apply stays
  cases failure with
  | _ => exact nofun

end Frameleaf.StorageMove
