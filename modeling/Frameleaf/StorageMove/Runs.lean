import Frameleaf.StorageMove.Guarding

namespace Frameleaf.StorageMove

open Programs

/-!
# Runs of storage moves

A run of moves of one file, each of which can be interrupted after any of its
actions.  Every request names the path that the database records, as its caller
has read it there, and the file is at that path unless a move is recorded.
-/

variable {move : Move} {world : World} {record : MoveRecord}

theorem World.setRows_alone
    (alone : world.transaction = none)
    (rows : Rows) :
    world.setRows rows = { world with rows := rows } := by
  unfold World.setRows
  rw [alone]

theorem World.current_alone
    (alone : world.transaction = none) :
    world.current = world.rows := by
  unfold World.current
  rw [alone]
  rfl

variable {path : Option LibraryPath}

theorem achieves_savePath
    {pathType : PathType}
    {newPath : LibraryPath}
    {ownerId : Option String}
    {after : PUnit → World → Prop}
    (pending : Pending record path world)
    (found : Found move.bytes world.files record)
    (saves : ∀ others later, Pending record others later →
      later.files = world.files → after ⟨⟩ later) :
    Achieves (duty move) (savePath pathType newPath ownerId) after
      (fun _ _ => True) world := by
  unfold savePath
  split
  · have isThere : world.current = { path := some path, move := some record } :=
      (World.current_alone pending.transaction).trans pending.rows
    have isSet := World.setRows_alone pending.transaction
    have tracks := tracks_of_found pending.recorded found
    apply guarded_action
    intro fate answer later isPerformed
    change World.updatePerson world fate newPath = _ at isPerformed
    unfold World.updatePerson at isPerformed
    rw [isThere] at isPerformed
    rcases fate.statement_cases PUnit.unit world
        { path := some (some newPath), move := some record } with
      outcome | ⟨failure, outcome | outcome⟩
    · cases outcome.symm.trans isPerformed
      rw [isSet]
      exact ⟨tracks_of_found rfl found, .refl _ _ _ _,
        saves (some newPath) _ ⟨rfl, pending.transaction⟩ rfl⟩
    · cases outcome.symm.trans isPerformed
      rw [isSet]
      exact ⟨tracks_of_found rfl found, .refl _ _ _ _, trivial⟩
    · cases outcome.symm.trans isPerformed
      exact ⟨tracks, .refl _ _ _ _, trivial⟩
  · exact saves path world pending rfl

theorem achieves_deleteRecordedMove
    (target : record.newPath = move.request.newPath)
    (pending : Pending record path world)
    (arrived : Arrived move.bytes world.files record) :
    Achieves (duty move) (deleteRecordedMove record.id) (fun _ _ => True)
      (fun _ _ => True) world := by
  have isThere : world.current = { path := some path, move := some record } :=
    (World.current_alone pending.transaction).trans pending.rows
  have tracks := tracks_of_found pending.recorded arrived.found
  have forgotten : move.Tracks
      { world with rows := { path := some path, move := none } } :=
    .inr (target ▸ arrived.atTarget)
  have isSet := World.setRows_alone pending.transaction
  have ends : ∀ (deleted : Bool) (later : World),
      Achieves (duty move)
        (if deleted then pure ⟨⟩ else throw .noResult : Work PUnit)
        (fun _ _ => True) (fun _ _ => True) later := by
    intro deleted later
    cases deleted with
    | true => exact trivial
    | false => exact trivial
  apply achieves_bind.mpr
  apply guarded_action
  intro fate answer later isPerformed
  change World.deleteMove world fate record.id = _ at isPerformed
  unfold World.deleteMove at isPerformed
  rw [isThere, if_pos (by simp)] at isPerformed
  rcases fate.statement_cases true world { path := some path, move := none }
    with outcome | ⟨failure, outcome | outcome⟩
  · cases outcome.symm.trans isPerformed
    rw [isSet]
    exact ⟨forgotten, .refl _ _ _ _, ends true _⟩
  · cases outcome.symm.trans isPerformed
    rw [isSet]
    exact ⟨forgotten, .refl _ _ _ _, trivial⟩
  · cases outcome.symm.trans isPerformed
    exact ⟨tracks, .refl _ _ _ _, trivial⟩

theorem achieves_moveOtherFile
    (target : record.newPath = move.request.newPath)
    (pending : Pending record path world)
    (holds : Holds move.bytes world.files (.library record.oldPath)) :
    Achieves (duty move) (moveOtherFile move.request record)
      (fun _ _ => True) (fun _ _ => True) world := by
  have ends : ∀ later, Pending record path later →
      Arrived move.bytes later.files record →
        Achieves (duty move)
          (do
            savePath move.request.pathType move.request.newPath
              move.request.ownerId
            deleteRecordedMove record.id
            pure true : Work Bool)
          (fun _ _ => True) (fun _ _ => True) later := by
    intro later pendingLater arrived
    apply achieves_bind.mpr
    apply achieves_savePath pendingLater arrived.found
    intro others saved pendingSaved sameFiles
    apply achieves_bind.mpr
    apply achieves_deleteRecordedMove target pendingSaved
    rw [sameFiles]
    exact arrived
  apply achieves_bind.mpr
  unfold placeOtherFile
  split
  · rename_i inPlace
    have atTarget := holds
    rw [inPlace, ← target] at atTarget
    exact ends world pending ⟨.inl holds, atTarget⟩
  · rename_i apart
    rw [← target] at apart ⊢
    apply achieves_moveAcrossFilesystems pending holds apart
    · rw [target]
      exact ends
    · intro later
      exact trivial

theorem achieves_finishMove
    (target : record.newPath = move.request.newPath)
    (pending : Pending record (some move.oldPath) world)
    (holds : Holds move.bytes world.files (.library record.oldPath)) :
    Achieves (duty move) (finishMove move.request move.oldPath record)
      (fun _ _ => True) (fun _ _ => True) world := by
  unfold finishMove
  split
  · exact trivial
  · split
    · rw [← target]
      exact achieves_moveAssetFile target pending holds
    · exact achieves_moveOtherFile target pending holds

theorem achieves_findFile
    {after : Option LibraryPath → World → Prop}
    {failed : Failure → World → Prop}
    (recorded : world.rows.move = some record)
    (found : Found move.bytes world.files record)
    (holds : ∀ path, Holds move.bytes world.files (.library path) →
      path = record.oldPath ∨
          path = record.newPath ∧
            world.files (.library record.oldPath) = none →
        after (some path) world) :
    Achieves (duty move) (findFile record) after failed world := by
  have tracks := tracks_of_found recorded found
  apply achieves_bind.mpr
  apply achieves_checkFileExists tracks
  apply achieves_bind.mpr
  apply achieves_checkFileExists tracks
  cases isOld : world.files (.library record.oldPath) with
  | some file =>
      apply holds
      · rcases found with atOld | ⟨gone, _⟩
        · exact atOld
        · cases isOld.symm.trans gone
      · exact .inl rfl
  | none =>
      have atNew : Holds move.bytes world.files (.library record.newPath) := by
        rcases found with ⟨file, isThere, _⟩ | ⟨_, atNew⟩
        · cases isOld.symm.trans isThere
        · exact atNew
      obtain ⟨file, isNew, same⟩ := atNew
      rw [isNew]
      exact holds _ ⟨file, isNew, same⟩ (.inr ⟨rfl, isOld⟩)

theorem achieves_updateMove
    {actualPath : LibraryPath}
    {after : MoveRecord → World → Prop}
    (pending : Pending record path world)
    (found : Found move.bytes world.files record)
    (holds : Holds move.bytes world.files (.library actualPath))
    (updates :
      let updated := { record with
        oldPath := actualPath, newPath := move.request.newPath }
      after updated
        { world with rows := { path := some path, move := some updated } }) :
    Achieves (duty move)
      (updateMove record.id actualPath move.request.newPath) after
      (fun _ _ => True) world := by
  have isThere : world.current = { path := some path, move := some record } :=
    (World.current_alone pending.transaction).trans pending.rows
  have isSet := World.setRows_alone pending.transaction
  apply guarded_action
  intro fate answer later isPerformed
  change World.updateMove world fate record.id actualPath _ = _ at isPerformed
  unfold World.updateMove at isPerformed
  rw [isThere, if_pos (by simp)] at isPerformed
  rcases fate.statement_cases
      ({ record with
          oldPath := actualPath, newPath := move.request.newPath } : MoveRecord)
      world
      { path := some path
        move := some { record with
          oldPath := actualPath, newPath := move.request.newPath } }
    with outcome | ⟨failure, outcome | outcome⟩
  · cases outcome.symm.trans isPerformed
    rw [isSet]
    exact ⟨tracks_of_found rfl (.inl holds), .refl _ _ _ _, updates⟩
  · cases outcome.symm.trans isPerformed
    rw [isSet]
    exact ⟨tracks_of_found rfl (.inl holds), .refl _ _ _ _, trivial⟩
  · cases outcome.symm.trans isPerformed
    exact ⟨tracks_of_found pending.recorded found, .refl _ _ _ _, trivial⟩

/-- A recorded move that is taken up has the file at its old path. -/
theorem achieves_resume
    (pending : Pending record path world)
    (found : Found move.bytes world.files record) :
    Achieves (duty move) (resume move.request record)
      (fun result later => ∀ updated, result = some updated →
        updated.newPath = move.request.newPath ∧
          Pending updated path later ∧
            Holds move.bytes later.files (.library updated.oldPath))
      (fun _ _ => True) world := by
  have tracks := tracks_of_found pending.recorded found
  apply achieves_bind.mpr
  apply achieves_findFile pending.recorded found
  intro actualPath holds _
  have updates : ∀ later, Quiet world later →
      Achieves (duty move)
        (do
          let updated ← updateMove record.id actualPath move.request.newPath
          pure (some updated) : Work (Option MoveRecord))
        (fun result later => ∀ updated, result = some updated →
          updated.newPath = move.request.newPath ∧
            Pending updated path later ∧
              Holds move.bytes later.files (.library updated.oldPath))
        (fun _ _ => True) later := by
    intro later quiet
    have pendingLater := pending.quiet quiet
    apply achieves_bind.mpr
    apply achieves_updateMove pendingLater
      ((found_congr quiet.library record).mpr found) (holds.quiet quiet)
    intro written
    rintro updated ⟨⟩
    exact ⟨rfl, ⟨rfl, pendingLater.transaction⟩,
      (holds_congr quiet.library actualPath).mpr holds⟩
  have goesOn : ∀ expected : Bool,
      Achieves (duty move)
        (if expected then do
          if record.newPath ≠ move.request.newPath then
            removeStaged (getStagedMovePath record.newPath record.id)
          let updated ← updateMove record.id actualPath move.request.newPath
          pure (some updated)
        else
          pure none : Work (Option MoveRecord))
        (fun result later => ∀ updated, result = some updated →
          updated.newPath = move.request.newPath ∧
            Pending updated path later ∧
              Holds move.bytes later.files (.library updated.oldPath))
        (fun _ _ => True) world := by
    intro expected
    cases expected with
    | false =>
        rintro updated ⟨⟩
    | true =>
        rw [if_pos rfl]
        split
        · apply achieves_bind.mpr
          apply achieves_removeStaged tracks
          exact updates
        · exact updates world (.refl world)
  apply achieves_bind.mpr
  unfold isExpected
  split
  · apply achieves_verify tracks _ fun _ => trivial
    intro verified _
    exact goesOn verified
  · exact goesOn true

/-- A request whose source exists. -/
structure Sourced
    (bytes : List UInt8)
    (request : MoveRequest)
    (oldPath : LibraryPath)
    (world : World) : Prop where
  asked : request.oldPath = some oldPath
  recorded : world.rows.path = some (some oldPath)
  isThere : world.rows.move = none →
    Holds bytes world.files (.library oldPath)

/-- While a move is recorded it finds the file. -/
structure Sound
    (bytes : List UInt8)
    (world : World) : Prop where
  found : ∀ record, world.rows.move = some record →
    Found bytes world.files record
  alone : world.transaction = none

variable {bytes : List UInt8}

theorem Sourced.tracked
    {request : MoveRequest}
    {oldPath : LibraryPath}
    (sourced : Sourced bytes request oldPath world)
    (sound : Sound bytes world) :
    Tracked bytes oldPath request.newPath world := by
  unfold Tracked
  cases isRecorded : world.rows.move with
  | none =>
      exact .inl (sourced.isThere isRecorded)
  | some record =>
      exact sound.found record isRecorded

/-- A recorded move is taken up, or a new one is recorded. -/
theorem achieves_recordMove
    {recorded : Option MoveRecord}
    (sourced : Sourced move.bytes move.request move.oldPath world)
    (sound : Sound move.bytes world)
    (isRecorded : world.rows.move = recorded) :
    Achieves (duty move) (recordMove move.request move.oldPath recorded)
      (fun result later => ∀ updated, result = some updated →
        updated.newPath = move.request.newPath ∧
          Pending updated (some move.oldPath) later ∧
            Holds move.bytes later.files (.library updated.oldPath))
      (fun _ _ => True) world := by
  have rows : world.rows =
      { path := some (some move.oldPath), move := recorded } := by
    rw [← sourced.recorded, ← isRecorded]
  cases recorded with
  | some record =>
      exact achieves_resume ⟨rows, sound.alone⟩
        (sound.found record isRecorded)
  | none =>
      have isThere := (World.current_alone sound.alone).trans rows
      have isSet := World.setRows_alone sound.alone
      have holds := sourced.isThere isRecorded
      have tracks := sourced.tracked sound
      apply achieves_bind.mpr
      apply guarded_action
      intro fate answer later isPerformed
      change World.createMove world fate move.oldPath _ = _ at isPerformed
      unfold World.createMove at isPerformed
      rw [isThere] at isPerformed
      rcases fate.statement_cases
          ({ id := fate.id
             oldPath := move.oldPath
             newPath := move.request.newPath } : MoveRecord)
          world
          { path := some (some move.oldPath)
            move := some {
              id := fate.id
              oldPath := move.oldPath
              newPath := move.request.newPath } }
        with outcome | ⟨failure, outcome | outcome⟩
      · cases outcome.symm.trans isPerformed
        rw [isSet]
        refine ⟨tracks_of_found rfl (.inl holds), .refl _ _ _ _, ?_⟩
        rintro updated ⟨⟩
        exact ⟨rfl, ⟨rfl, sound.alone⟩, holds⟩
      · cases outcome.symm.trans isPerformed
        rw [isSet]
        exact ⟨tracks_of_found rfl (.inl holds), .refl _ _ _ _, trivial⟩
      · cases outcome.symm.trans isPerformed
        exact ⟨tracks, .refl _ _ _ _, trivial⟩

theorem guarded_moveFile
    (sourced : Sourced move.bytes move.request move.oldPath world)
    (sound : Sound move.bytes world) :
    Achieves (duty move) (moveFile move.request) (fun _ _ => True)
      (fun _ _ => True) world := by
  have tracks := sourced.tracked sound
  unfold moveFile
  rw [sourced.asked]
  dsimp only
  split
  · exact trivial
  · apply achieves_bind.mpr
    apply guarded_quiet tracks
    intro fate answer later isPerformed
    rcases fate.read_cases PUnit.unit world with
      outcome | ⟨failure, outcome⟩
    · cases outcome.symm.trans isPerformed
      refine ⟨.refl world, ?_⟩
      apply achieves_bind.mpr
      apply guarded_quiet tracks
      intro fate answer later isPerformed
      rcases fate.read_cases world.current.move world with
        outcome | ⟨failure, outcome⟩
      · cases outcome.symm.trans isPerformed
        refine ⟨.refl world, ?_⟩
        apply achieves_bind.mpr
        rw [World.current_alone sound.alone]
        apply (achieves_recordMove sourced sound rfl).mono
        · intro result later recorded
          cases result with
          | none =>
              exact trivial
          | some updated =>
              obtain ⟨target, pending, holds⟩ := recorded updated rfl
              exact achieves_finishMove target pending holds
        · intro _ _ _
          exact trivial
      · cases outcome.symm.trans isPerformed
        exact ⟨.refl world, trivial⟩
    · cases outcome.symm.trans isPerformed
      exact ⟨.refl world, trivial⟩

/-- A call of `moveFile`, whose process ends after some of its actions. -/
structure Call where
  machine : Machine
  request : MoveRequest
  fates : List Fate

/-- What a process that ends leaves behind. -/
def World.restarted
    (world : World) : World :=
  { world with transaction := none, memory := {} }

/-- The world after a call. -/
def World.called
    (world : World)
    (call : Call) : World :=
  ((moveFile call.request).run.stop (setting call.machine) call.fates
    world).restarted

/-- Each call of a run has a source when it is made. -/
def AllSourced
    (bytes : List UInt8) :
    List Call → World → Prop
  | [], _ =>
      True
  | call :: calls, world =>
      (∃ oldPath, Sourced bytes call.request oldPath world) ∧
        AllSourced bytes calls (world.called call)

/-- The world after a run of calls. -/
def World.calledAll
    (world : World)
    (calls : List Call) : World :=
  calls.foldl World.called world

theorem Sound.called
    {call : Call}
    {oldPath : LibraryPath}
    (sound : Sound bytes world)
    (sourced : Sourced bytes call.request oldPath world) :
    Sound bytes (world.called call) := by
  let callMove : Move := {
    machine := call.machine
    bytes := bytes
    request := call.request
    oldPath := oldPath }
  have guarded : Achieves (duty callMove) (moveFile call.request)
      (fun _ _ => True) (fun _ _ => True) world :=
    guarded_moveFile sourced sound
  have tracked : callMove.Tracks (world.called call) :=
    Guarded.stop guarded (sourced.tracked sound) call.fates
  refine ⟨?_, rfl⟩
  intro record isRecorded
  unfold Move.Tracks Tracked at tracked
  rw [isRecorded] at tracked
  exact tracked

theorem Sound.calledAll
    (sound : Sound bytes world)
    (calls : List Call)
    (sourced : AllSourced bytes calls world) :
    Sound bytes (world.calledAll calls) := by
  induction calls generalizing world with
  | nil =>
      exact sound
  | cons call calls inductionHypothesis =>
      obtain ⟨⟨oldPath, isSourced⟩, rest⟩ := sourced
      exact inductionHypothesis (sound.called isSourced) rest

end Frameleaf.StorageMove
