import Frameleaf.LibraryMove.Intent

namespace Frameleaf.LibraryMove

open Manager Programs

/-!
# The way back

The way back begins with a receipt that no later run can miss.  It writes the
original stack and installation, starts the library in the original folder and
only then says that the move is cancelled.
-/

variable {move : Move} {property : World → Prop}

/-- What a move that goes back has behind it. -/
structure Return where
  written : Bool := false
  installed : Bool := false
  running : Bool := false

/-- The move goes back from an operation and has some of it behind it. -/
structure Back
    (move : Move)
    (operation : MoveOperation)
    (stage : Return)
    (world : World) : Prop where
  owned : Owned move world
  memory : world.memory.receipts.recoveryIntent = true
  journal : world.journal.receipts.recoveryIntent = true
  completed : "move-checkpoint" ∈ world.memory.completed →
    "move-checkpoint" ∈ operation.completed
  written : stage.written = true → world.stack = move.original
  installed : stage.installed = true →
    world.installation = some move.review.current
  running : stage.running = true → world.RunsWith move.mount

variable {operation : MoveOperation} {world : World}

theorem Back.unintended
    {stage : Return}
    (back : Back move operation stage world) :
    world.memory.receipts.writesIntent = false := by
  by_contra intended
  rw [Bool.not_eq_false] at intended
  have forward := back.owned.memory.exclusive intended
  rw [back.memory] at forward
  simp at forward

theorem Back.journalUnintended
    {stage : Return}
    (back : Back move operation stage world) :
    world.journal.receipts.writesIntent = false :=
  back.owned.intent.symm.trans back.unintended

theorem runsWith_policies
    {mount : Mount}
    (service : String)
    (policy : RestartPolicy)
    (runs : world.RunsWith mount) :
    (world.changeContainer service fun container =>
      { container with restart := policy }).RunsWith mount := by
  obtain ⟨container, member, isServer, isRunning, mounted⟩ := runs
  refine ⟨_, List.mem_map_of_mem member, ?_⟩
  split
  · exact ⟨isServer, isRunning, mounted⟩
  · exact ⟨isServer, isRunning, mounted⟩

/-- Everything that is noted on the way back keeps what is behind it. -/
theorem steady_back
    (move : Move)
    (operation : MoveOperation)
    (stage : Return) :
    Steady move (Back move operation stage) where
  stable := by
    intro world disturbance back
    have owned := back.owned.disturb disturbance
    change Back move operation stage (world.disturb disturbance)
    obtain ⟨_, _, _, _, _, eq⟩ := world.disturb_eq disturbance
    rw [eq] at owned ⊢
    exact { back with owned := owned }
  owned := Back.owned
  quiet := by
    intro before after back quiet
    exact {
      owned := back.owned.quiet quiet
      memory := by
        rw [quiet.memory]
        exact back.memory
      journal := by
        rw [quiet.journal]
        exact back.journal
      completed := by
        rw [quiet.memory]
        exact back.completed
      written := by
        rw [quiet.stack]
        exact back.written
      installed := by
        rw [quiet.installation]
        exact back.installed
      running := by
        rw [World.RunsWith, quiet.containers]
        exact back.running }
  noted := by
    intro world operation back noted
    have owned := (calm_owned move).noted back.owned noted
    exact { back with
      owned := owned
      memory := noted.recoveryIntent.trans back.memory
      completed := fun isCheckpointed =>
        back.completed (noted.checkpointed isCheckpointed) }
  saved := by
    intro world back
    have owned := (calm_owned move).saved back.owned
    exact { back with owned := owned, journal := back.memory }
  policies := by
    intro world service policy back
    have owned := (calm_owned move).policies service policy back.owned
    exact { back with
      owned := owned
      running := fun isRunning =>
        runsWith_policies service policy (back.running isRunning) }

theorem Steady.isHelping
    (steady : Steady move property) :
    Keeps move property (ExceptT.mk (perform .isHelping)) :=
  keeps_mk fun _ holds =>
    steady.guarded_read .isHelping (fun _ _ _ _ => Fate.eq_of_read) holds

theorem Steady.verifyFrozen
    (steady : Steady move property)
    (reviewed : move.Reviewed)
    (operation : MoveOperation) :
    Keeps move property (verifyFrozen operation move.review) := by
  rw [LibraryMove.verifyFrozen]
  split
  · exact (steady.helper _ _ reviewed.root_apart).bind fun _ => keeps_pure _
  · exact keeps_pure _

theorem achieves_getReview
    {after : Option Review → World → Prop}
    {failed : Failure → World → Prop}
    (sound : Sound move world)
    (holds : after (some move.review) world) :
    Achieves (duty move) (ExceptT.lift (perform .getReview)) after failed
      world := by
  apply achieves_lift.mpr
  apply guarded_act_now rfl
  intro fate answer later isPerformed
  cases isPerformed
  refine ⟨sound, .refl move world, ?_⟩
  rw [sound.fits.review]
  exact holds

/-- The stack that is found is the original one. -/
theorem achieves_originalStack
    (back : Back move operation {} world) :
    Achieves (duty move) (originalStack operation move.review)
      (fun compose later =>
        compose = move.original ∧ Back move operation {} later)
      (fun _ => Savable move) world := by
  have steady := steady_back move operation {}
  apply achieves_bind.mpr
  apply guarded_act steady.stable back
  intro fate before answer later back isPerformed
  rcases fate.read_cases before.checkpoint before with outcome | ⟨_, outcome⟩
  · cases outcome.symm.trans isPerformed
    refine ⟨back.owned.sound, .refl move before, ?_⟩
    have kept := back.owned.journal.checkpoint
    dsimp only
    cases isKept : before.checkpoint with
    | some original =>
        rw [isKept] at kept
        exact ⟨by simpa using kept, back⟩
    | none =>
        dsimp only
        split
        · exact achieves_bind.mpr back.owned.savable
        · rename_i notYet
          apply achieves_next (steady.current.savable steady back)
          intro installation world back
          split
          · exact achieves_bind.mpr back.owned.savable
          · apply guarded_act steady.stable back
            intro fate before answer later back isPerformed
            have original : before.stack = move.original := by
              by_contra differs
              exact notYet
                (back.completed (back.owned.memory.prepared differs))
            rcases fate.read_cases before.stack before with
              outcome | ⟨_, outcome⟩
            · cases outcome.symm.trans isPerformed
              exact ⟨back.owned.sound, .refl move before, original, back⟩
            · cases outcome.symm.trans isPerformed
              exact ⟨back.owned.sound, .refl move before, back.owned.savable⟩
  · cases outcome.symm.trans isPerformed
    exact ⟨back.owned.sound, .refl move before, back.owned.savable⟩

theorem Back.write
    (back : Back move operation {} world) :
    Back move operation { written := true }
      { world with stack := move.original } := by
  have fits {other : MoveOperation}
      (fits : Fits move other world)
      (back : other.receipts.recoveryIntent = true)
      (unintended : other.receipts.writesIntent = false) :
      Fits move other { world with stack := move.original } :=
    { fits with
      stack := .inl rfl
      stackMoved := by
        intro intended
        rw [unintended] at intended
        simp at intended
      switched := by
        intro _ forward
        rw [back] at forward
        simp at forward
      prepared := fun differs => absurd rfl differs }
  exact { back with
    owned := { back.owned with
      journal := fits back.owned.journal back.journal back.journalUnintended
      memory := fits back.owned.memory back.memory back.unintended }
    written := fun _ => rfl
    installed := by simp
    running := by simp }

theorem achieves_writeOriginal
    (back : Back move operation {} world) :
    Achieves (duty move) (ExceptT.mk (perform (.writeStack move.original)))
      (fun _ => Back move operation { written := true })
      (fun _ => Savable move) world := by
  apply guarded_act (steady_back move operation {}).stable back
  intro fate before answer later back isPerformed
  have written := back.write
  rcases fate.attempt_cases PUnit.unit before
      { before with stack := move.original } with
    outcome | ⟨_, outcome | outcome⟩
  · cases outcome.symm.trans isPerformed
    exact ⟨written.owned.sound, .same rfl rfl, written⟩
  · cases outcome.symm.trans isPerformed
    exact ⟨written.owned.sound, .same rfl rfl, written.owned.savable⟩
  · cases outcome.symm.trans isPerformed
    exact ⟨back.owned.sound, .refl move before, back.owned.savable⟩

theorem achieves_reinstall
    (back : Back move operation { written := true } world) :
    Achieves (duty move)
      (ExceptT.mk (perform (.setInstallation move.review.current)))
      (fun _ => Back move operation { written := true, installed := true })
      (fun _ => Savable move) world := by
  apply guarded_act (steady_back move operation _).stable back
  intro fate before answer later back isPerformed
  have installed : Back move operation { written := true, installed := true }
      { before with installation := some move.review.current } :=
    { back with
      owned := { back.owned with
        journal := { back.owned.journal with }
        memory := { back.owned.memory with } }
      installed := fun _ => rfl
      running := by simp }
  rcases fate.statement_cases before
      { before with installation := some move.review.current } with
    outcome | ⟨_, outcome⟩
  · cases outcome.symm.trans isPerformed
    exact ⟨installed.owned.sound, .same rfl rfl, installed⟩
  · cases outcome.symm.trans isPerformed
    exact ⟨back.owned.sound, .refl move before, back.owned.savable⟩

theorem Owned.withContainers
    (owned : Owned move world)
    (unintended : world.memory.receipts.writesIntent = false)
    {containers : List Container}
    (notMoved :
      ¬{ world with containers := containers }.RunsWith move.movedMount) :
    Owned move { world with containers := containers } := by
  have journalUnintended := owned.intent.symm.trans unintended
  refine { owned with
    journal := { owned.journal with
      notMoved := fun _ => notMoved
      notOriginal := ?_ }
    memory := { owned.memory with
      notMoved := fun _ => notMoved
      notOriginal := ?_ } }
  · intro intended
    rw [journalUnintended] at intended
    simp at intended
  · intro intended
    rw [unintended] at intended
    simp at intended

theorem not_moved_of_up
    (reviewed : move.Reviewed)
    {service : Service}
    {containers : List Container}
    (member : service ∈ move.original) :
    move.movedMount ∉ (service.up containers).mounts := by
  rw [Service.up_mounts]
  exact reviewed.fresh service member

theorem runsWith_upAll
    (reviewed : move.Reviewed)
    (original : world.stack = move.original) :
    world.upAll.RunsWith move.mount := by
  obtain ⟨server, isServer, maps⟩ := reviewed.maps
  have member := List.mem_of_find?_eq_some isServer
  have named := List.find?_some isServer
  refine ⟨server.up world.containers, ?_, ?_, server.up_running _, ?_⟩
  · rw [World.upAll, original]
    exact List.mem_map_of_mem member
  · rw [Service.up_service]
    simpa using named
  · rw [Service.up_mounts]
    rw [Service.maps, decide_eq_true_eq] at maps
    have present : 0 < (server.volumes.filter (· = move.mount)).length := by
      omega
    obtain ⟨volume, isVolume⟩ := List.exists_mem_of_length_pos present
    obtain ⟨inVolumes, isMount⟩ := List.mem_filter.mp isVolume
    rw [decide_eq_true_eq] at isMount
    exact isMount ▸ inVolumes

/-- Starting the original stack puts the original folder to use. -/
theorem achieves_restart
    (reviewed : move.Reviewed)
    (back : Back move operation { written := true, installed := true }
      world) :
    Achieves (duty move) (ExceptT.mk (perform (.composeUp [])))
      (fun _ => Back move operation
        { written := true, installed := true, running := true })
      (fun _ => Savable move) world := by
  apply guarded_act (steady_back move operation _).stable back
  intro fate before answer later back isPerformed
  have original := back.written rfl
  change before.composeUp fate [] = (answer, later) at isPerformed
  unfold World.composeUp at isPerformed
  split at isPerformed
  · cases isPerformed
    have notMoved : ¬before.upAll.RunsWith move.movedMount := by
      rintro ⟨container, started, _, _, mounted⟩
      obtain ⟨service, member, rfl⟩ := List.mem_map.mp started
      rw [original] at member
      exact not_moved_of_up reviewed member mounted
    have owned := back.owned.withContainers back.unintended notMoved
    have running : Back move operation
        { written := true, installed := true, running := true }
        before.upAll :=
      { back with
        owned := owned
        running := fun _ => runsWith_upAll reviewed original }
    exact ⟨owned.sound, .same rfl rfl, running⟩
  · cases isPerformed
    have notMoved : ¬(before.up fate.services).RunsWith move.movedMount := by
      rintro ⟨container, member, isServer, runs, mounted⟩
      rcases List.mem_append.mp member with kept | started
      · exact back.owned.memory.notMoved back.unintended
          ⟨container, List.mem_of_mem_filter kept, isServer, runs, mounted⟩
      · obtain ⟨service, isStarted, rfl⟩ := List.mem_map.mp started
        have member := List.mem_of_mem_filter isStarted
        rw [original] at member
        exact not_moved_of_up reviewed member mounted
    have owned := back.owned.withContainers back.unintended notMoved
    exact ⟨owned.sound, .same rfl rfl, owned.savable⟩

/-- The memory of an operation whose end can be journaled. -/
structure Finished
    (move : Move)
    (world : World) : Prop where
  savable : Savable move world
  cancelled : world.memory.receipts.cancelled ≠ none →
    world.memory.receipts.writesIntent = false ∧ InUse move world
  moved : world.memory.receipts.cancelled = none →
    world.memory.receipts.writesIntent = true

theorem Late.finished
    (late : Late move world) :
    Finished move world where
  savable := late.turned.owned.savable
  cancelled := by
    intro isCancelled
    have back := late.turned.owned.memory.cancelled isCancelled
    rw [late.turned.forward] at back
    simp at back
  moved := fun _ => late.turned.owned.intent.trans late.intended

/-- What a move that went back is finished with. -/
def originalRetained : String := "media_move_cancelled_original_retained"

/-- A move that went back is finished. -/
structure Returned
    (move : Move)
    (world : World) : Prop where
  finished : Finished move world
  cancelled : world.memory.receipts.cancelled = some originalRetained

/-- Starting the library in its original folder finishes the way back. -/
theorem achieves_startOriginal
    (reviewed : move.Reviewed)
    (back : Back move operation {} world) :
    Achieves (duty move) (startOriginal move.review move.original)
      (fun _ => Returned move) (fun _ => Savable move) world := by
  have steady := steady_back move operation
  apply achieves_next (achieves_writeOriginal back)
  intro _ world back
  apply achieves_next (achieves_reinstall back)
  intro _ world back
  have edits : Keeps move
      (Back move operation { written := true, installed := true })
      (editReceipts fun receipts =>
        { receipts with recoveryWritesIntent := true }) :=
    (steady _).editReceipts (fun _ => rfl) (fun _ => rfl) fun _ => rfl
  apply achieves_next (edits.savable (steady _) back)
  intro _ world back
  apply achieves_next ((steady _).save.savable (steady _) back)
  intro _ world back
  apply achieves_next (achieves_restart reviewed back)
  intro _ world back
  apply achieves_next ((steady _).restorePolicies.savable (steady _) back)
  intro _ world back
  apply achieves_next ((steady _).resumeServer.savable (steady _) back)
  intro _ world back
  have inUse : InUse move world := {
    installation := back.installed rfl
    stack := back.written rfl
    runs := back.running rfl }
  apply achieves_edit back.owned.sound
  exact {
    finished := {
      savable := {
        sound := back.owned.sound.withMemory _
        memory := { back.owned.memory with cancelled := fun _ => back.memory }
        intent := back.owned.intent.trans
        memoryOpen := back.owned.memoryOpen }
      cancelled := fun _ => ⟨back.unintended, { inUse with }⟩
      moved := by simp }
    cancelled := rfl }

/-- A move that goes back verifies the original folder and starts there. -/
theorem achieves_returnMove
    (reviewed : move.Reviewed)
    (back : Back move operation {} world) :
    Achieves (duty move) (returnMove operation move.review)
      (fun _ => Returned move) (fun _ => Savable move) world := by
  have steady := steady_back move operation {}
  have finish : ∀ world, Back move operation {} world →
      Achieves (duty move) (do
          verifyFrozen operation move.review
          verify (.media move.review.current.mounts)
          startOriginal move.review move.original)
        (fun _ => Returned move) (fun _ => Savable move) world := by
    intro world back
    apply achieves_next
      ((steady.verifyFrozen reviewed _).savable steady back)
    intro _ world back
    apply achieves_next ((steady.verify _).savable steady back)
    intro _ world back
    exact achieves_startOriginal reviewed back
  apply achieves_next (steady.isHelping.savable steady back)
  intro helping world back
  dsimp only
  split
  · exact achieves_bind.mpr back.owned.savable
  · apply achieves_bind.mpr
    apply (achieves_originalStack back).mono _ fun _ _ failed => failed
    rintro compose world ⟨rfl, back⟩
    apply achieves_next ((steady.identity _).savable steady back)
    intro source world back
    split
    · exact achieves_bind.mpr back.owned.savable
    · exact finish world back

theorem Owned.setOut
    (owned : Owned move world)
    (unintended : world.memory.receipts.writesIntent = false) :
    Fits move
      { world.memory with
        receipts := { world.memory.receipts with recoveryIntent := true } }
      world :=
  { owned.memory with
    exclusive := by
      intro intended
      rw [unintended] at intended
      simp at intended
    cancelled := fun _ => rfl
    switched := by simp }

/-- The way back ends in the original folder, or its work fails. -/
theorem achieves_recoverMove
    (reviewed : move.Reviewed)
    (owned : Owned move world) :
    Achieves (duty move) recoverMove (fun _ => Returned move)
      (fun _ => Savable move) world := by
  apply achieves_bind.mpr
  apply achieves_readMemory owned.sound
  split
  · exact achieves_bind.mpr owned.savable
  · rename_i unintended
    have fits := owned.setOut (Bool.not_eq_true _ ▸ unintended)
    have savable : Savable move { world with
        memory := { world.memory with
          receipts :=
            { world.memory.receipts with recoveryIntent := true } } } :=
      { sound := owned.sound.withMemory _
        memory := { fits with }
        intent := owned.intent.trans
        memoryOpen := owned.memoryOpen }
    apply achieves_bind.mpr
    apply achieves_edit owned.sound
    apply achieves_bind.mpr
    apply achieves_save savable.sound savable.saved savable.intent _
      fun _ => savable
    apply achieves_bind.mpr
    apply achieves_getReview savable.saved
    apply achieves_returnMove reviewed
    exact {
      owned := {
        journal := { fits with }
        memory := { fits with }
        intent := rfl
        journalOpen := owned.memoryOpen
        memoryOpen := owned.memoryOpen }
      memory := rfl
      journal := rfl
      completed := id
      written := by simp
      installed := by simp
      running := by simp }

end Frameleaf.LibraryMove
