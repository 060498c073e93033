import Frameleaf.StorageMove.Placing

namespace Frameleaf.StorageMove

open Programs

/-!
# The transaction of an asset's move

The move stays recorded until its transaction is committed.  Whether the
transaction is committed or not, the file is where the rows or the record then
say.
-/

variable {move : Move} {world : World} {record : MoveRecord}

/-- The rows of an asset whose move is recorded. -/
def Move.rows
    (move : Move)
    (record : MoveRecord) : Rows where
  path := some (some move.oldPath)
  move := some record

/-- The move of the asset's file. -/
def Move.assetMove
    (move : Move)
    (record : MoveRecord) : AssetFileMove where
  moveId := record.id
  startPath := move.oldPath
  source := record.oldPath
  target := record.newPath

/-- A recorded move with a transaction. -/
structure Opened
    (move : Move)
    (record : MoveRecord)
    (own : Rows)
    (world : World) : Prop where
  rows : world.rows = move.rows record
  transaction : world.transaction = some own

theorem Opened.recorded
    {rows : Rows}
    (opened : Opened move record rows world) :
    world.rows.move = some record := by
  rw [opened.rows]
  rfl

theorem Opened.current
    {rows : Rows}
    (opened : Opened move record rows world) :
    world.current = rows := by
  unfold World.current
  rw [opened.transaction]
  rfl

/-- The rows and the transaction are the same. -/
structure SameRows
    (before later : World) : Prop where
  rows : later.rows = before.rows
  transaction : later.transaction = before.transaction

theorem Opened.same
    {rows : Rows}
    {later : World}
    (opened : Opened move record rows world)
    (same : SameRows world later) :
    Opened move record rows later where
  rows := same.rows.trans opened.rows
  transaction := same.transaction.trans opened.transaction

/-- What the file system's side of a move does. -/
structure Operates
    (move : Move)
    (record : MoveRecord)
    (operations : AssetFileMoveOperations)
    (start placed : Files → MoveState → Prop) : Prop where
  found : ∀ files memory, start files memory → Found move.bytes files record
  renames : ∀ world, world.rows.move = some record →
    start world.files world.memory →
      Achieves (duty move) operations.rename
        (fun renamed later => SameRows world later ∧
          (renamed = true → placed later.files later.memory) ∧
          (renamed = false → start later.files later.memory))
        (fun _ _ => True) world
  undoes : ∀ world, world.rows.move = some record →
    placed world.files world.memory →
      Achieves (duty move) operations.undo (fun _ _ => True) (fun _ _ => True)
        world
  finishes : ∀ world, world.rows.move = some record →
    placed world.files world.memory →
      Achieves (duty move) operations.finish
        (fun _ later => SameRows world later ∧
          Arrived move.bytes later.files record)
        (fun _ _ => True) world
  placedFound : ∀ files memory, placed files memory →
    Found move.bytes files record

/-- What a transaction leaves to be committed. -/
structure Ready
    (move : Move)
    (record : MoveRecord)
    (start : Files → MoveState → Prop)
    (result : AssetFileMoveResult)
    (rows : Rows)
    (world : World) : Prop where
  opened : Opened move record rows world
  found : Found move.bytes world.files record
  commits : rows = move.rows record ∨
    rows.move = none ∧ Holds move.bytes world.files (.library record.newPath)
  failed : result = .failed →
    rows = move.rows record ∧ start world.files world.memory

theorem Fate.statement_cases
    {α : Type}
    (fate : Fate)
    (value : α)
    (world : World)
    (rows : Rows) :
    fate.statement value world rows = (.ok value, world.setRows rows) ∨
      ∃ failure, fate.statement value world rows =
          (.error failure, world.setRows rows) ∨
        fate.statement value world rows = (.error failure, world) := by
  unfold Fate.statement
  cases fate.failure with
  | none =>
      exact .inl rfl
  | some failure =>
      refine .inr ⟨failure, ?_⟩
      cases fate.applied with
      | true => exact .inl rfl
      | false => exact .inr rfl

theorem Opened.setRows
    {rows : Rows}
    (opened : Opened move record rows world)
    (others : Rows) :
    world.setRows others = { world with transaction := some others } := by
  unfold World.setRows
  rw [opened.transaction]

variable {failed : Failure → World → Prop}

theorem achieves_lockFilePaths
    {paths : List LibraryPath}
    {after : PUnit → World → Prop}
    (tracks : move.Tracks world)
    (holds : after ⟨⟩ world)
    (fails : ∀ failure, failed failure world) :
    Achieves (duty move) (ExceptT.mk (perform (.lockFilePaths paths))) after
      failed world := by
  apply guarded_quiet tracks
  intro fate answer later isPerformed
  rcases fate.read_cases PUnit.unit world with outcome | ⟨failure, outcome⟩
  · cases outcome.symm.trans isPerformed
    exact ⟨.refl world, holds⟩
  · cases outcome.symm.trans isPerformed
    exact ⟨.refl world, fails failure⟩

theorem achieves_isReferenced
    {paths : List LibraryPath}
    {after : Bool → World → Prop}
    (tracks : move.Tracks world)
    (holds : ∀ referenced, after referenced world)
    (fails : ∀ failure, failed failure world) :
    Achieves (duty move) (ExceptT.mk (perform (.isReferenced paths))) after
      failed world := by
  apply guarded_quiet tracks
  intro fate answer later isPerformed
  rcases fate.read_cases fate.referenced world with
    outcome | ⟨failure, outcome⟩
  · cases outcome.symm.trans isPerformed
    exact ⟨.refl world, holds _⟩
  · cases outcome.symm.trans isPerformed
    exact ⟨.refl world, fails failure⟩

theorem achieves_readMovedFile
    {after : Option (Option LibraryPath) → World → Prop}
    (tracks : move.Tracks world)
    (holds : after world.current.path world)
    (fails : ∀ failure, failed failure world) :
    Achieves (duty move) (ExceptT.mk (perform .readMovedFile)) after failed
      world := by
  apply guarded_quiet tracks
  intro fate answer later isPerformed
  rcases fate.read_cases world.current.path world with
    outcome | ⟨failure, outcome⟩
  · cases outcome.symm.trans isPerformed
    exact ⟨.refl world, holds⟩
  · cases outcome.symm.trans isPerformed
    exact ⟨.refl world, fails failure⟩

/-- The new path is saved in the transaction. -/
theorem achieves_saveMovedPath
    {rows : Rows}
    {source target : LibraryPath}
    {after : PUnit → World → Prop}
    (opened : Opened move record rows world)
    (found : Found move.bytes world.files record)
    (holds : ∀ others, others.move = rows.move →
      after ⟨⟩ { world with transaction := some others })
    (fails : ∀ failure others,
      failed failure { world with transaction := some others }) :
    Achieves (duty move)
      (ExceptT.mk (perform (.saveMovedPath source target))) after failed
      world := by
  have tracksAll : ∀ others,
      move.Tracks { world with transaction := some others } :=
    fun others => tracks_of_found opened.recorded found
  apply guarded_action
  intro fate answer later isPerformed
  change World.saveMovedPath world fate source target = _ at isPerformed
  unfold World.saveMovedPath at isPerformed
  have sameMove : (if world.current.path = some (some source) then
      { world.current with path := some (some target) }
      else world.current).move = rows.move := by
    rw [opened.current]
    split
    · rfl
    · rfl
  generalize (if world.current.path = some (some source) then
      { world.current with path := some (some target) }
      else world.current) = others at isPerformed sameMove
  rcases fate.statement_cases PUnit.unit world others with
    outcome | ⟨failure, outcome | outcome⟩
  · cases outcome.symm.trans isPerformed
    rw [opened.setRows]
    exact ⟨tracksAll others, .refl _ _ _ _, holds others sameMove⟩
  · cases outcome.symm.trans isPerformed
    rw [opened.setRows]
    exact ⟨tracksAll others, .refl _ _ _ _, fails failure others⟩
  · cases outcome.symm.trans isPerformed
    have unchanged : world = { world with transaction := some rows } := by
      rw [← opened.transaction]
    refine ⟨tracks_of_found opened.recorded found, .refl _ _ _ _, ?_⟩
    rw [unchanged]
    exact fails failure rows

theorem achieves_deleteMove
    {rows : Rows}
    {after : Bool → World → Prop}
    (opened : Opened move record rows world)
    (found : Found move.bytes world.files record)
    (same : rows.move = some record)
    (holds : ∀ deleted,
      after deleted
        { world with transaction := some { rows with move := none } })
    (fails : ∀ failure others,
      failed failure { world with transaction := some others }) :
    Achieves (duty move) (deleteMove record.id) after failed world := by
  have tracksAll : ∀ others,
      move.Tracks { world with transaction := some others } :=
    fun others => tracks_of_found opened.recorded found
  apply guarded_action
  intro fate answer later isPerformed
  change World.deleteMove world fate record.id = _ at isPerformed
  unfold World.deleteMove at isPerformed
  rw [opened.current, same, if_pos (by simp)] at isPerformed
  rcases fate.statement_cases true world { rows with move := none } with
    outcome | ⟨failure, outcome | outcome⟩
  · cases outcome.symm.trans isPerformed
    rw [opened.setRows]
    exact ⟨tracksAll _, .refl _ _ _ _, holds true⟩
  · cases outcome.symm.trans isPerformed
    rw [opened.setRows]
    exact ⟨tracksAll _, .refl _ _ _ _, fails failure _⟩
  · cases outcome.symm.trans isPerformed
    have unchanged : world = { world with transaction := some rows } := by
      rw [← opened.transaction]
    refine ⟨tracks_of_found opened.recorded found, .refl _ _ _ _, ?_⟩
    rw [unchanged]
    exact fails failure rows

theorem moveCurrent_same
    (assetMove : AssetFileMove)
    (operations : AssetFileMoveOperations) :
    moveCurrent assetMove operations (some (some assetMove.startPath)) =
      placeMove assetMove operations := by
  simp [moveCurrent]

section Locked

variable {operations : AssetFileMoveOperations}
variable {start placed : Files → MoveState → Prop}

theorem achieves_saveMove
    (operates : Operates move record operations start placed)
    (opened : Opened move record (move.rows record) world)
    (isPlaced : placed world.files world.memory) :
    Achieves (duty move) (saveMove (move.assetMove record) operations)
      (fun _ later => placed later.files later.memory ∧
        ∃ rows, rows.move = none ∧ Opened move record rows later)
      (fun _ _ => True) world := by
  have undoes : ∀ (failure : Failure) (others : Rows),
      Achieves (duty move)
        (do
          operations.undo
          throw failure : Work PUnit)
        (fun _ later => placed later.files later.memory ∧
          ∃ rows, rows.move = none ∧ Opened move record rows later)
        (fun _ _ => True) { world with transaction := some others } := by
    intro failure others
    apply achieves_bind.mpr
    apply (operates.undoes { world with transaction := some others }
      opened.recorded isPlaced).mono
    · intro _ later _
      exact trivial
    · intro _ later _
      exact trivial
  have found := operates.placedFound _ _ isPlaced
  apply achieves_tryCatch.mpr
  apply achieves_bind.mpr
  apply achieves_saveMovedPath opened found _ undoes
  intro others sameMove
  have openedLater : Opened move record others
      { world with transaction := some others } :=
    ⟨opened.rows, rfl⟩
  apply achieves_bind.mpr
  apply achieves_deleteMove openedLater found sameMove _ undoes
  intro deleted
  exact ⟨isPlaced, _, rfl, opened.rows, rfl⟩

theorem achieves_placeMove
    (operates : Operates move record operations start placed)
    (opened : Opened move record (move.rows record) world)
    (starts : start world.files world.memory) :
    Achieves (duty move) (placeMove (move.assetMove record) operations)
      (fun result later => ∃ rows, Ready move record start result rows later)
      (fun _ _ => True) world := by
  apply achieves_bind.mpr
  apply (operates.renames world opened.recorded starts).mono
  · rintro renamed later ⟨same, isPlaced, stays⟩
    have openedLater := opened.same same
    cases renamed with
    | false =>
        have starts := stays rfl
        exact ⟨_, openedLater, operates.found _ _ starts, .inl rfl,
          fun _ => ⟨rfl, starts⟩⟩
    | true =>
        rw [if_pos rfl]
        apply achieves_bind.mpr
        apply (achieves_saveMove operates openedLater (isPlaced rfl)).mono
        · rintro _ saved ⟨isPlaced, rows, forgotten, openedSaved⟩
          apply achieves_bind.mpr
          apply (operates.finishes saved openedSaved.recorded isPlaced).mono
          · rintro _ final ⟨same, arrived⟩
            exact ⟨rows, openedSaved.same same, arrived.found,
              .inr ⟨forgotten, arrived.atTarget⟩, nofun⟩
          · intro _ final _
            exact trivial
        · intro _ final _
          exact trivial
  · intro _ later _
    exact trivial

theorem achieves_moveLocked
    (operates : Operates move record operations start placed)
    (opened : Opened move record (move.rows record) world)
    (starts : start world.files world.memory) :
    Achieves (duty move) (moveLocked (move.assetMove record) operations)
      (fun result later => ∃ rows, Ready move record start result rows later)
      (fun _ _ => True) world := by
  have found := operates.found _ _ starts
  have tracks := tracks_of_found opened.recorded found
  apply achieves_bind.mpr
  apply achieves_lockFilePaths tracks _ fun _ => trivial
  apply achieves_bind.mpr
  apply achieves_isReferenced tracks _ fun _ => trivial
  intro referenced
  cases referenced with
  | true =>
      exact ⟨_, opened, found, .inl rfl, nofun⟩
  | false =>
      apply achieves_bind.mpr
      apply achieves_readMovedFile tracks _ fun _ => trivial
      rw [opened.current]
      have isCurrent : moveCurrent (move.assetMove record) operations
          (move.rows record).path =
            placeMove (move.assetMove record) operations :=
        moveCurrent_same _ _
      rw [isCurrent]
      exact achieves_placeMove operates opened starts

theorem tracks_rolledBack
    (tracks : move.Tracks world) :
    move.Tracks world.rolledBack :=
  tracks

theorem Ready.committed
    {result : AssetFileMoveResult}
    {rows : Rows}
    (ready : Ready move record start result rows world)
    (target : record.newPath = move.request.newPath) :
    move.Tracks world.committed := by
  unfold Move.Tracks Tracked
  rw [show world.committed.rows = rows from ready.opened.current]
  rcases ready.commits with rfl | ⟨forgotten, arrived⟩
  · exact ready.found
  · rw [forgotten]
    exact .inr (target ▸ arrived)

/-- A move of an asset's file that failed is still recorded. -/
theorem achieves_repositoryMoveFile
    (operates : Operates move record operations start placed)
    (target : record.newPath = move.request.newPath)
    (pending : Pending record (some move.oldPath) world)
    (starts : start world.files world.memory) :
    Achieves (duty move)
      (AssetRepository.moveFile (move.assetMove record) operations)
      (fun result later => result = .failed →
        Pending record (some move.oldPath) later ∧
          start later.files later.memory)
      (fun _ _ => True) world := by
  have found := operates.found _ _ starts
  have tracks := tracks_of_found pending.recorded found
  have rollsBack : ∀ (failure : Failure) (later : World),
      move.Tracks later →
        Achieves (duty move)
          (do
            let _ ← ExceptT.lift (perform .rollback)
            throw failure : Work AssetFileMoveResult)
          (fun result later => result = .failed →
            Pending record (some move.oldPath) later ∧
              start later.files later.memory)
          (fun _ _ => True) later := by
    intro failure later tracksLater
    apply achieves_bind.mpr
    apply achieves_lift.mpr
    apply guarded_action
    intro fate answer final isPerformed
    cases isPerformed
    exact ⟨tracks_rolledBack tracksLater, .refl _ _ _ _, trivial⟩
  apply achieves_bind.mpr
  apply guarded_action
  intro fate answer later isPerformed
  change World.begin world fate = _ at isPerformed
  unfold World.begin at isPerformed
  split at isPerformed
  · cases isPerformed
    have opened : Opened move record (move.rows record)
        { world with transaction := some world.rows } := by
      refine ⟨pending.rows, ?_⟩
      rw [pending.rows]
      rfl
    refine ⟨tracks, .refl _ _ _ _, ?_⟩
    apply achieves_tryCatch.mpr
    apply achieves_bind.mpr
    apply ((achieves_moveLocked operates opened starts).invariant tracks).mono
    · rintro result later ⟨⟨rows, ready⟩, tracksLater⟩
      apply achieves_bind.mpr
      apply guarded_action
      intro fate answer final isPerformed
      change World.commit later fate = _ at isPerformed
      unfold World.commit at isPerformed
      split at isPerformed
      · cases isPerformed
        refine ⟨ready.committed target, .refl _ _ _ _, ?_⟩
        intro isFailed
        obtain ⟨isSame, starts⟩ := ready.failed isFailed
        refine ⟨⟨?_, rfl⟩, starts⟩
        change later.current = _
        rw [ready.opened.current, isSame]
        rfl
      · rename_i failure _
        cases isPerformed
        have tracksFinal : move.Tracks (if fate.applied then later.committed
            else later.rolledBack) := by
          split
          · exact ready.committed target
          · exact tracks_rolledBack tracksLater
        refine ⟨tracksFinal, ?_, rollsBack failure _ tracksFinal⟩
        split
        · exact .refl _ _ _ _
        · exact .refl _ _ _ _
    · rintro failure later ⟨_, tracksLater⟩
      exact rollsBack failure later tracksLater
  · cases isPerformed
    exact ⟨tracks, .refl _ _ _ _, trivial⟩

end Locked

end Frameleaf.StorageMove
