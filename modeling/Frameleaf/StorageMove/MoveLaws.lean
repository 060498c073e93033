import Frameleaf.StorageMove.Settling

namespace Frameleaf.StorageMove

open Programs

/-!
# When a later move finishes

A move that was interrupted anywhere can be taken up by a later call for the same
entity and path type.  The call finishes the move exactly if its caller knows
enough of the file, with one more exception: a recorded move is left behind by a
request whose new path is the recorded one already.
-/

variable {move : Move} {world : World} {record : MoveRecord}

/-- A missing old path is no obstacle where the caller knows the file. -/
def MoveRequest.canVerify
    (request : MoveRequest)
    (world : World) : Prop :=
  request.assetInfo = none → ∀ record, world.rows.move = some record →
    world.files (.library record.oldPath) ≠ none

variable {failed : Failure → World → Prop}

theorem settles_updateMove
    {path : Option LibraryPath}
    {actualPath newPath : LibraryPath}
    {after : MoveRecord → World → Prop}
    (pending : Pending record path world)
    (updates : ∀ later,
      Pending { record with oldPath := actualPath, newPath } path later →
        later.files = world.files →
          after { record with oldPath := actualPath, newPath } later) :
    Achieves (calm move.machine) (updateMove record.id actualPath newPath)
      after failed world := by
  have isThere : world.current = { path := some path, move := some record } :=
    (World.current_alone pending.transaction).trans pending.rows
  have performs : World.perform move.machine
      (.updateMove record.id actualPath newPath) {} world =
        (Except.ok { record with oldPath := actualPath, newPath },
          { world with
            rows := {
              path := some path
              move := some { record with oldPath := actualPath, newPath } } }) := by
    change World.updateMove world {} record.id actualPath newPath = _
    unfold World.updateMove
    rw [isThere, if_pos (by simp)]
    change (Except.ok _, world.setRows _) = _
    rw [World.setRows_alone pending.transaction]
  apply settles_as performs
  apply updates
  · exact ⟨rfl, pending.transaction⟩
  · rfl

variable {after : Bool → World → Prop}

theorem settles_checkFileExists
    {path : FilePath}
    (holds : after (world.files path).isSome world) :
    Achieves (calm move.machine) (checkFileExists path) after failed world :=
  achieves_lift.mpr (settles_as rfl holds)

theorem settles_findFile
    {after : Option LibraryPath → World → Prop}
    (found : Found move.bytes world.files record)
    (holds : ∀ actualPath,
      Holds move.bytes world.files (.library actualPath) →
        (world.files (.library record.oldPath) = none →
          actualPath = record.newPath) →
        after (some actualPath) world) :
    Achieves (calm move.machine) (findFile record) after failed world := by
  apply achieves_bind.mpr
  apply settles_checkFileExists
  apply achieves_bind.mpr
  apply settles_checkFileExists
  cases isOld : world.files (.library record.oldPath) with
  | some file =>
      apply holds
      · rcases found with atOld | ⟨gone, _⟩
        · exact atOld
        · cases isOld.symm.trans gone
      · intro gone
        cases isOld.symm.trans gone
  | none =>
      have atNew : Holds move.bytes world.files (.library record.newPath) := by
        rcases found with ⟨file, isThere, _⟩ | ⟨_, atNew⟩
        · cases isOld.symm.trans isThere
        · exact atNew
      obtain ⟨file, isNew, same⟩ := atNew
      rw [isNew]
      exact holds _ ⟨file, isNew, same⟩ fun _ => rfl

/-- A recorded move is taken up from where its file is. -/
theorem settles_resume
    {path : Option LibraryPath}
    {after : Option MoveRecord → World → Prop}
    (pending : Pending record path world)
    (found : Found move.bytes world.files record)
    (matching : Matches move.machine move.bytes move.request.assetInfo)
    (verifiable : move.request.canVerify world)
    (resumes : ∀ updated later, updated.newPath = move.request.newPath →
      Pending updated path later →
        Holds move.bytes later.files (.library updated.oldPath) →
          after (some updated) later) :
    Achieves (calm move.machine) (resume move.request record) after failed
      world := by
  have old : move.request.assetInfo = none →
      Holds move.bytes world.files (.library record.oldPath) := by
    intro unknown
    rcases found with atOld | ⟨gone, _⟩
    · exact atOld
    · exact absurd gone (verifiable unknown record pending.recorded)
  have goesOn : ∀ actualPath,
      Holds move.bytes world.files (.library actualPath) →
        Achieves (calm move.machine)
          (do
            let expected ← isExpected move.request record actualPath
            if expected then
              if record.newPath ≠ move.request.newPath then
                removeStaged (getStagedMovePath record.newPath record.id)
              let updated ← updateMove record.id actualPath
                move.request.newPath
              pure (some updated)
            else
              pure none : Work (Option MoveRecord))
          after failed world := by
    intro actualPath holds
    have updates : ∀ later, Quiet world later →
        Achieves (calm move.machine)
          (do
            let updated ← updateMove record.id actualPath move.request.newPath
            pure (some updated) : Work (Option MoveRecord))
          after failed later := by
      intro later quiet
      apply achieves_bind.mpr
      apply settles_updateMove (pending.quiet quiet)
      intro final pendingFinal sameFiles
      apply resumes _ _ rfl pendingFinal
      rw [sameFiles]
      exact holds.quiet quiet
    have takesUp : Achieves (calm move.machine)
        (if true then do
          if record.newPath ≠ move.request.newPath then
            removeStaged (getStagedMovePath record.newPath record.id)
          let updated ← updateMove record.id actualPath move.request.newPath
          pure (some updated)
        else
          pure none : Work (Option MoveRecord))
        after failed world := by
      rw [if_pos rfl]
      split
      · apply achieves_bind.mpr
        apply settles_removeStaged
        exact updates
      · exact updates world (.refl world)
    apply achieves_bind.mpr
    unfold isExpected
    split
    · rename_i isNew
      exact settles_verify (isNew ▸ holds) matching old takesUp
    · exact takesUp
  apply achieves_bind.mpr
  apply settles_findFile found
  intro actualPath holds _
  exact goesOn actualPath holds

/-- A move is recorded that has the file at its old path. -/
theorem settles_recordMove
    {after : Option MoveRecord → World → Prop}
    (sourced : Sourced move.bytes move.request move.oldPath world)
    (sound : Sound move.bytes world)
    (matching : Matches move.machine move.bytes move.request.assetInfo)
    (verifiable : move.request.canVerify world)
    (records : ∀ updated later, updated.newPath = move.request.newPath →
      Pending updated (some move.oldPath) later →
        Holds move.bytes later.files (.library updated.oldPath) →
          after (some updated) later) :
    Achieves (calm move.machine)
      (recordMove move.request move.oldPath world.rows.move) after failed
      world := by
  cases isRecorded : world.rows.move with
  | some record =>
      have pending : Pending record (some move.oldPath) world := by
        refine ⟨?_, sound.alone⟩
        rw [← sourced.recorded, ← isRecorded]
      exact settles_resume pending (sound.found record isRecorded) matching
        verifiable records
  | none =>
      have isThere : world.current =
          { path := some (some move.oldPath), move := none } := by
        rw [World.current_alone sound.alone, ← sourced.recorded, ← isRecorded]
      have creates : World.perform move.machine
          (.createMove move.oldPath move.request.newPath) {} world =
            (Except.ok {
                id := ""
                oldPath := move.oldPath
                newPath := move.request.newPath },
              { world with
                rows := {
                  path := some (some move.oldPath)
                  move := some {
                    id := ""
                    oldPath := move.oldPath
                    newPath := move.request.newPath } } }) := by
        change World.createMove world {} move.oldPath move.request.newPath = _
        unfold World.createMove
        rw [isThere]
        change (Except.ok _, world.setRows _) = _
        rw [World.setRows_alone sound.alone]
      apply achieves_bind.mpr
      apply settles_as creates
      exact records _ _ rfl ⟨rfl, sound.alone⟩ (sourced.isThere isRecorded)

/-- The new path is saved where it belongs. -/
def MoveRequest.savesPath
    (request : MoveRequest) : Bool :=
  request.pathType.isAssetMove || request.savesPerson

/-- A move that can be verified comes to its end. -/
theorem settles_moveFile
    (sourced : Sourced move.bytes move.request move.oldPath world)
    (sound : Sound move.bytes world)
    (matching : Matches move.machine move.bytes move.request.assetInfo)
    (verifiable : move.request.canVerify world)
    (apart : move.oldPath ≠ move.request.newPath)
    (known : move.request.pathType = .original →
      move.request.assetInfo ≠ none)
    (moves : ∀ later,
      later.rows = {
        path := some (if move.request.savesPath then some move.request.newPath
          else some move.oldPath)
        move := none } →
      Holds move.bytes later.files (.library move.request.newPath) →
        after true later) :
    Achieves (calm move.machine) (moveFile move.request) after failed
      world := by
  have records : World.perform move.machine .getByEntity {} world =
      (Except.ok world.rows.move, world) := by
    change Fate.read {} world.current.move world = _
    rw [World.current_alone sound.alone]
    rfl
  have isKnown : ¬(move.request.pathType = .original ∧
      move.request.assetInfo = none) :=
    fun unknown => known unknown.1 unknown.2
  unfold moveFile
  rw [sourced.asked]
  dsimp only
  rw [if_neg apart]
  apply achieves_bind.mpr
  apply settles_as rfl
  apply achieves_bind.mpr
  apply settles_as records
  apply achieves_bind.mpr
  apply settles_recordMove sourced sound matching verifiable
  intro updated later target pending holds
  change Achieves _ (finishMove move.request move.oldPath updated) _ _ _
  unfold finishMove
  rw [if_neg isKnown]
  cases isAsset : move.request.pathType.isAssetMove with
  | true =>
      have saves : move.request.savesPath = true := by
        simp [MoveRequest.savesPath, isAsset]
      rw [saves, if_pos rfl, ← target] at moves
      rw [if_pos rfl, ← target]
      exact settles_moveAssetFile pending holds matching moves
  | false =>
      have saves : move.request.savesPath = move.request.savesPerson := by
        simp [MoveRequest.savesPath, isAsset]
      rw [saves] at moves
      rw [if_neg nofun]
      exact settles_moveOtherFile pending holds matching moves

open Programs

/-!
## What every run of storage moves keeps and finishes

A run starts with a file at the path that the database records.  Its moves can
fail and be interrupted anywhere; the file stays in reach, and it is known
exactly which later call finishes the move.
-/

variable {move : Move} {machine : Machine} {bytes : List UInt8}
variable {request : MoveRequest} {oldPath : LibraryPath} {world : World}

/-- A call ends with the file at its new path and no recorded move. -/
def Completes
    (machine : Machine)
    (bytes : List UInt8)
    (request : MoveRequest)
    (world : World) : Prop :=
  let ended := (moveFile request).run.finish (setting machine) {} world
  ended.1 = .ok true ∧
    Holds bytes ended.2.files (.library request.newPath) ∧
      ended.2.rows = { path := some (some request.newPath), move := none }

/-- A call can complete a move. -/
structure CanComplete
    (oldPath : LibraryPath)
    (request : MoveRequest)
    (world : World) : Prop where
  inPlace : oldPath = request.newPath → world.rows.move = none
  saves : oldPath ≠ request.newPath → request.savesPath = true
  known : oldPath ≠ request.newPath →
    request.pathType = .original → request.assetInfo ≠ none
  verifiable : oldPath ≠ request.newPath → request.canVerify world

theorem moveFile_inPlace
    (asked : request.oldPath = some request.newPath) :
    moveFile request = pure true := by
  unfold moveFile
  rw [asked]
  exact if_pos rfl

theorem finish_of_achieves
    (achieves : Achieves (calm machine) (moveFile request) after failed world) :
    match (moveFile request).run.finish (setting machine) {} world with
    | (.ok moved, later) => after moved later
    | (.error failure, later) => failed failure later := by
  have ended := Guarded.finish achieves
  cases isEnd : (moveFile request).run.finish (setting machine) {} world with
  | mk result later =>
      rw [isEnd] at ended
      cases result with
      | ok moved => exact ended
      | error failure => exact ended

theorem achieves_free
    {α : Type}
    (work : Work α)
    (world : World) :
    Achieves (calm machine) work (fun _ _ => True) (fun _ _ => True)
      world := by
  have free : Guarded (calm machine) work.run (fun _ _ => True) world :=
    guarded_free _ _
  apply Guarded.mono free
  rintro (failure | result) later _
  · exact trivial
  · exact trivial

theorem unknown_not_moved
    (asked : request.oldPath = some oldPath)
    (apart : oldPath ≠ request.newPath)
    (isOriginal : request.pathType = .original)
    (unknown : request.assetInfo = none) :
    Achieves (calm machine) (moveFile request)
      (fun moved _ => moved = false) (fun _ _ => True) world := by
  unfold moveFile
  rw [asked]
  dsimp only
  rw [if_neg apart]
  apply achieves_bind.mpr
  apply (achieves_free _ world).mono
  · intro _ prepared _
    apply achieves_bind.mpr
    apply (achieves_free _ prepared).mono
    · intro recorded later _
      apply achieves_bind.mpr
      apply (achieves_free _ later).mono
      · intro result final _
        cases result with
        | none =>
            exact rfl
        | some updated =>
            change Achieves _ (finishMove request oldPath updated) _ _ _
            unfold finishMove
            rw [if_pos ⟨isOriginal, unknown⟩]
            exact rfl
      · intro _ _ _
        exact trivial
    · intro _ _ _
      exact trivial
  · intro _ _ _
    exact trivial

/-- A file that left its old path cannot be verified without its size. -/
theorem unverifiable_fails
    {record : MoveRecord}
    (asked : request.oldPath = some oldPath)
    (sound : Sound bytes world)
    (apart : oldPath ≠ request.newPath)
    (unknown : request.assetInfo = none)
    (recorded : world.rows.move = some record)
    (gone : world.files (.library record.oldPath) = none) :
    Achieves (calm machine) (moveFile request)
      (fun _ _ => False) (fun _ _ => True) world := by
  have reads : World.perform machine .getByEntity {} world =
      (Except.ok (some record), world) := by
    change Fate.read {} world.current.move world = _
    rw [World.current_alone sound.alone, recorded]
    rfl
  let thisMove : Move := { machine, bytes, request, oldPath }
  have fails : Achieves (calm thisMove.machine)
      (verifyNewPathContentsMatchesExpected (.library record.oldPath)
        (.library record.newPath) request.assetInfo)
      (fun _ _ => False) (fun _ _ => True) world := by
    obtain ⟨file, isThere, _⟩ : Holds bytes world.files
        (.library record.newPath) := by
      rcases sound.found record recorded with ⟨file, isThere, _⟩ | ⟨_, atNew⟩
      · cases gone.symm.trans isThere
      · exact atNew
    apply achieves_bind.mpr
    apply settles_stat isThere
    apply achieves_bind.mpr
    rw [unknown]
    apply achieves_bind.mpr
    exact settles_stat_missing gone trivial
  unfold moveFile
  rw [asked]
  dsimp only
  rw [if_neg apart]
  apply achieves_bind.mpr
  apply settles_as rfl
  apply achieves_bind.mpr
  apply settles_as reads
  apply achieves_bind.mpr
  apply achieves_bind.mpr
  have found : Found thisMove.bytes world.files record :=
    sound.found record recorded
  have finds : Achieves (calm thisMove.machine) (findFile record)
      (fun actualPath later =>
        actualPath = some record.newPath ∧ later = world)
      (fun _ _ => False) world := by
    apply settles_findFile found
    intro actualPath _ isNew
    exact ⟨congrArg some (isNew gone), rfl⟩
  apply finds.mono
  · rintro _ _ ⟨rfl, rfl⟩
    apply achieves_bind.mpr
    unfold isExpected
    rw [if_pos rfl]
    apply fails.mono
    · intro _ _ impossible
      exact impossible.elim
    · intro _ _ _
      exact trivial
  · intro _ _ impossible
    exact impossible.elim

/-- A later call completes the move exactly if it can. -/
theorem completes_iff
    (sourced : Sourced bytes request oldPath world)
    (sound : Sound bytes world)
    (matching : Matches machine bytes request.assetInfo) :
    Completes machine bytes request world ↔
      CanComplete oldPath request world := by
  unfold Completes
  by_cases inPlace : oldPath = request.newPath
  · have asked : request.oldPath = some request.newPath :=
      sourced.asked.trans (congrArg some inPlace)
    rw [moveFile_inPlace asked]
    constructor
    · rintro ⟨_, _, rows⟩
      have forgotten : world.rows.move = none := congrArg Rows.move rows
      exact {
        inPlace := fun _ => forgotten
        saves := fun apart => absurd inPlace apart
        known := fun apart => absurd inPlace apart
        verifiable := fun apart => absurd inPlace apart }
    · intro can
      have forgotten := can.inPlace inPlace
      refine ⟨rfl, inPlace ▸ sourced.isThere forgotten, ?_⟩
      change world.rows = _
      rw [← inPlace, ← sourced.recorded, ← forgotten]
  · let thisMove : Move := { machine, bytes, request, oldPath }
    have settles : request.canVerify world →
        (request.pathType = .original → request.assetInfo ≠ none) →
          Achieves (calm machine) (moveFile request)
            (fun moved later => moved = true ∧
              Holds bytes later.files (.library request.newPath) ∧
                later.rows = {
                  path := some (if request.savesPath then some request.newPath
                    else some oldPath)
                  move := none })
            (fun _ _ => False) world := by
      intro verifiable known
      have sourcedMove : Sourced thisMove.bytes thisMove.request
          thisMove.oldPath world := sourced
      apply settles_moveFile sourcedMove sound matching verifiable inPlace known
      intro later rows arrived
      exact ⟨rfl, arrived, rows⟩
    constructor
    · rintro ⟨isMoved, arrived, rows⟩
      have known : request.pathType = .original →
          request.assetInfo ≠ none := by
        intro isOriginal unknown
        have ended := finish_of_achieves
          (unknown_not_moved sourced.asked inPlace isOriginal unknown :
            Achieves (calm machine) (moveFile request) _ _ world)
        cases isEnd : (moveFile request).run.finish (setting machine) {} world
        rw [isEnd] at ended isMoved
        subst isMoved
        cases ended
      have verifiable : request.canVerify world := by
        intro unknown record recorded gone
        have ended := finish_of_achieves
          (unverifiable_fails sourced.asked sound inPlace unknown recorded
            gone : Achieves (calm machine) (moveFile request) _ _ world)
        cases isEnd : (moveFile request).run.finish (setting machine) {} world
        rw [isEnd] at ended isMoved
        subst isMoved
        exact ended
      have saves : request.savesPath = true := by
        have ended := finish_of_achieves (settles verifiable known)
        cases isEnd : (moveFile request).run.finish (setting machine) {} world
        rw [isEnd] at ended isMoved rows
        subst isMoved
        have path := ended.2.2.symm.trans rows
        cases isSaved : request.savesPath with
        | true =>
            rfl
        | false =>
            rw [isSaved, if_neg nofun] at path
            have same := congrArg Rows.path path
            simp only [Option.some.injEq] at same
            exact absurd same inPlace
      exact {
        inPlace := fun isSame => absurd isSame inPlace
        saves := fun _ => saves
        known := fun _ => known
        verifiable := fun _ => verifiable }
    · intro can
      have ended := finish_of_achieves
        (settles (can.verifiable inPlace) (can.known inPlace))
      cases isEnd : (moveFile request).run.finish (setting machine) {} world with
      | mk result later =>
          rw [isEnd] at ended
          cases result with
          | error failure =>
              exact ended.elim
          | ok moved =>
              obtain ⟨rfl, arrived, rows⟩ := ended
              rw [can.saves inPlace, if_pos rfl] at rows
              exact ⟨rfl, arrived, rows⟩

/-- A path of the request or of the recorded move holds the file. -/
def InReach
    (bytes : List UInt8)
    (oldPath newPath : LibraryPath)
    (world : World) : Prop :=
  ∃ path, Holds bytes world.files (.library path) ∧
    (path = oldPath ∨ path = newPath ∨
      ∃ record, world.rows.move = some record ∧
        (path = record.oldPath ∨ path = record.newPath))

theorem Tracked.inReach
    {newPath : LibraryPath}
    (tracked : Tracked bytes oldPath newPath world) :
    InReach bytes oldPath newPath world := by
  unfold Tracked at tracked
  cases isRecorded : world.rows.move with
  | none =>
      rw [isRecorded] at tracked
      rcases tracked with atOld | atNew
      · exact ⟨oldPath, atOld, .inl rfl⟩
      · exact ⟨newPath, atNew, .inr (.inl rfl)⟩
  | some record =>
      rw [isRecorded] at tracked
      rcases tracked with atOld | ⟨_, atNew⟩
      · exact ⟨_, atOld, .inr (.inr ⟨record, isRecorded, .inl rfl⟩)⟩
      · exact ⟨_, atNew, .inr (.inr ⟨record, isRecorded, .inr rfl⟩)⟩

/-- A library in which no move is recorded yet. -/
structure Start where
  world : World
  unmoved : world.rows.move = none
  alone : world.transaction = none

/-- What holds of a run of moves of one file, and of the next call. -/
structure MoveLaws
    (bytes : List UInt8)
    (start : Start)
    (calls : List Call) : Prop where
  /-- Wherever the next call is interrupted, the file is in reach. -/
  kept : ∀ machine request oldPath fates,
    AllSourced bytes calls start.world →
      Sourced bytes request oldPath (start.world.calledAll calls) →
        InReach bytes oldPath request.newPath
          ((moveFile request).run.stop (setting machine) fates
            (start.world.calledAll calls))
  /-- No step of it removes the file before a verified copy exists. -/
  preserved : ∀ machine request oldPath fates,
    AllSourced bytes calls start.world →
      Sourced bytes request oldPath (start.world.calledAll calls) →
        ∀ step ∈ (moveFile request).run.steps (setting machine) fates
            (start.world.calledAll calls),
          Preserved machine bytes request.assetInfo step.1.files step.2.files
  /-- A call in which nothing fails completes the move exactly if it can. -/
  completes : ∀ machine request oldPath,
    AllSourced bytes calls start.world →
      Sourced bytes request oldPath (start.world.calledAll calls) →
        Matches machine bytes request.assetInfo →
          (Completes machine bytes request (start.world.calledAll calls) ↔
            CanComplete oldPath request (start.world.calledAll calls))

/-- A person's thumbnail before its move. -/
def thumbnailPath : LibraryPath where
  text := "thumbs/person.jpeg"
  notEmpty := by decide

/-- Where the thumbnail is moved to. -/
def movedThumbnailPath : LibraryPath where
  text := "thumbs/owner/person.jpeg"
  notEmpty := by decide

/-- The request to move the thumbnail. -/
def thumbnailRequest : MoveRequest where
  ownerId := some "owner"
  pathType := .face
  oldPath := some thumbnailPath
  newPath := movedThumbnailPath
  assetInfo := none

/-- A server with one device. -/
def oneDevice : Machine where
  device := fun _ => 0
  digest := fun _ _ => []
  hashVerificationEnabled := true

/-- The library before the thumbnail is moved. -/
def thumbnailStart : Start where
  world := {
    files := fun path =>
      if path = .library thumbnailPath then
        some { bytes := [1], atime := 0, mtime := 0 }
      else
        none
    rows := { path := some (some thumbnailPath), move := none }
    transaction := none
    memory := {} }
  unmoved := rfl
  alone := rfl

/-- The process ends when it has renamed the thumbnail. -/
def renamedOnly : Call where
  machine := oneDevice
  request := thumbnailRequest
  fates := [{}, {}, {}, {}]

end Frameleaf.StorageMove
