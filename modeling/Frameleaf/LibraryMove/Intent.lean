import Frameleaf.LibraryMove.Forward

namespace Frameleaf.LibraryMove

open Manager Programs

/-!
# The intent to write

A secured move fences the stack, switches it and journals the intent to write.
From then on everything that is started is started at the new folder.
-/

variable {move : Move}

/-- A secured move whose stack is fenced. -/
def Stage.ready : Stage where
  secured := true
  fenced := true

/-- A fenced move whose stack is switched. -/
def Stage.turned : Stage where
  secured := true
  fenced := true
  switched := true

variable {world : World}

/-- No container runs when the verification of the fence succeeds. -/
theorem achieves_verifyInstallation
    {stage : Stage}
    (reached : At move stage world) :
    Achieves (duty move) verifyInstallation
      (fun _ => At move { stage with fenced := true })
      (fun _ => Savable move) world := by
  have calm := calm_at move stage
  apply achieves_bind.mpr
  apply guarded_act calm.stable reached
  intro fate before answer later reached isPerformed
  rcases fate.read_cases before.containers before with
    outcome | ⟨_, outcome⟩
  · cases outcome.symm.trans isPerformed
    refine ⟨reached.owned.sound, .refl move before, ?_⟩
    dsimp only
    split
    · exact achieves_bind.mpr reached.owned.savable
    · rename_i noneRuns
      have fenced : before.Fenced := by
        intro container member _
        rw [Bool.not_eq_true, List.any_eq_false] at noneRuns
        have stopped := noneRuns container member
        rw [Bool.not_eq_true, Bool.or_eq_false_iff] at stopped
        exact stopped.1
      have ready : At move { stage with fenced := true } before :=
        { reached with fenced := fun _ _ => fenced }
      exact ((calm_at move _).verify _).savable (calm_at move _).toSteady ready
  · cases outcome.symm.trans isPerformed
    exact ⟨reached.owned.sound, .refl move before, reached.owned.savable⟩

theorem achieves_verifyFence
    (reached : At move { secured := true } world) :
    Achieves (duty move) (verifyFence move.review)
      (fun _ => At move .ready) (fun _ => Savable move) world := by
  apply achieves_bind.mpr
  apply achieves_readMemory reached.owned.sound
  split
  · apply achieves_next (achieves_verifyInstallation reached)
    intro _ world ready
    exact ((calm_at move .ready).verify _).savable
      (calm_at move .ready).toSteady ready
  · rename_i intended
    have journaled := reached.owned.intent
    rw [Bool.not_eq_true, Bool.not_eq_false'] at intended
    exact { reached with
      fenced := by
        intro _ unintended
        rw [intended, unintended] at journaled
        simp at journaled
      switched := by simp [Stage.ready] }

theorem configuration_original
    (reviewed : move.Reviewed) :
    configuration move.original move.review.current.library move.destination =
      .ok move.moved := by
  obtain ⟨server, isServer, maps⟩ := reviewed.maps
  rw [configuration, isServer]
  exact if_pos maps

theorem At.turn
    (ready : At move .ready world) :
    At move .turned { world with stack := move.moved } := by
  have secured := ready.secured rfl
  have fits {operation : MoveOperation}
      (fits : Fits move operation world)
      (secured : "move-checkpoint" ∈ operation.completed) :
      Fits move operation { world with stack := move.moved } :=
    { fits with
      stack := .inr rfl
      stackMoved := fun _ => rfl
      switched := fun _ _ => rfl
      prepared := fun _ => secured }
  exact { ready with
    owned := { ready.owned with
      journal := fits ready.owned.journal (ready.journaled secured)
      memory := fits ready.owned.memory secured }
    switched := fun _ => rfl }

theorem At.withInstallation
    {stage : Stage}
    (reached : At move stage world)
    (installation : Installation) :
    At move stage { world with installation := some installation } :=
  { reached with
    owned := { reached.owned with
      journal := { reached.owned.journal with }
      memory := { reached.owned.memory with } } }

theorem keeps_setInstallation
    (stage : Stage)
    (installation : Installation) :
    Keeps move (At move stage)
      (ExceptT.mk (perform (.setInstallation installation))) := by
  apply keeps_mk
  intro world reached
  apply guarded_act (calm_at move stage).stable reached
  intro fate before answer later reached isPerformed
  have recorded := reached.withInstallation installation
  rcases fate.statement_cases before
      { before with installation := some installation } with
    outcome | ⟨_, outcome⟩
  · cases outcome.symm.trans isPerformed
    exact ⟨recorded.owned.sound, .same rfl rfl, recorded⟩
  · cases outcome.symm.trans isPerformed
    exact ⟨reached.owned.sound, .refl move before, reached⟩

variable {property : World → Prop}

theorem Steady.setRetained
    (steady : Steady move property)
    (retained : RetainedMedia) :
    Keeps move property
      (ExceptT.mk (perform (.setRetained retained))) := by
  apply keeps_mk
  intro world holds
  apply steady.guarded_quiet (.setRetained retained) _ holds
  intro fate before answer later isPerformed
  rcases fate.statement_cases before
      { before with retained := some retained } with outcome | ⟨_, outcome⟩
  · cases outcome.symm.trans isPerformed
    exact ⟨{ Quiet.refl move before with }, fun _ _ => rfl⟩
  · cases outcome.symm.trans isPerformed
    exact ⟨.refl move before, .refl move before⟩

theorem achieves_writeStack
    (ready : At move .ready world) :
    Achieves (duty move) (ExceptT.mk (perform (.writeStack move.moved)))
      (fun _ => At move .turned) (fun _ => Savable move) world := by
  apply guarded_act (calm_at move .ready).stable ready
  intro fate before answer later ready isPerformed
  have turned := ready.turn
  rcases fate.attempt_cases PUnit.unit before
      { before with stack := move.moved } with
    outcome | ⟨_, outcome | outcome⟩
  · cases outcome.symm.trans isPerformed
    exact ⟨turned.owned.sound, .same rfl rfl, turned⟩
  · cases outcome.symm.trans isPerformed
    exact ⟨turned.owned.sound, .same rfl rfl, turned.owned.savable⟩
  · cases outcome.symm.trans isPerformed
    exact ⟨ready.owned.sound, .refl move before, ready.owned.savable⟩

/-- The stack and the installation are switched to the copy. -/
theorem achieves_turn
    (reviewed : move.Reviewed)
    (ready : At move .ready world) :
    Achieves (duty move) (do
        let checkpoint : Option Compose ← ExceptT.mk (perform .readCheckpoint)
        turnStack move.review move.destination checkpoint)
      (fun _ => At move .turned) (fun _ => Savable move) world := by
  have turned := (calm_at move .turned).toSteady
  apply achieves_bind.mpr
  apply guarded_act (calm_at move .ready).stable ready
  intro fate before answer later ready isPerformed
  rcases fate.read_cases before.checkpoint before with outcome | ⟨_, outcome⟩
  · cases outcome.symm.trans isPerformed
    refine ⟨ready.owned.sound, .refl move before, ?_⟩
    have original := ready.owned.memory.checkpointed (ready.secured rfl)
    dsimp only
    rw [original, turnStack, configuration_original reviewed]
    apply achieves_bind.mpr
    apply achieves_next (achieves_writeStack ready)
    intro _ world isTurned
    have rest : Keeps move (At move .turned) (do
        ExceptT.mk (perform (.setInstallation
          (move.review.current.movedTo move.destination)))
        ExceptT.mk (perform (.setRetained {
          source := move.review.current.library.source
          destination := move.destination
          installation := move.review.current }))
        return StepReceipt.switched
          (move.review.current.movedTo move.destination)) :=
      (keeps_setInstallation _ _).bind fun _ =>
        (turned.setRetained _).bind fun _ => keeps_pure _
    exact rest.savable turned isTurned
  · cases outcome.symm.trans isPerformed
    exact ⟨ready.owned.sound, .refl move before, ready.owned.savable⟩

theorem achieves_switchLibrary
    (reviewed : move.Reviewed)
    (ready : At move .ready world) :
    Achieves (duty move) (switchLibrary move.review move.destination)
      (fun _ => At move .turned) (fun _ => Savable move) world := by
  have steady := (calm_at move .ready).toSteady
  apply achieves_next (steady.refuseIfCancelled.savable steady ready)
  intro _ world ready
  apply achieves_next
    ((steady.helper _ _ reviewed.destination_apart).savable steady ready)
  intro _ world ready
  apply achieves_next ((steady.verifyIdentities _).savable steady ready)
  intro _ world ready
  apply achieves_next (steady.verifyInstallation.savable steady ready)
  intro _ world ready
  apply achieves_next ((steady.verify _).savable steady ready)
  intro _ world ready
  apply achieves_next ((steady.verify _).savable steady ready)
  intro _ world ready
  apply achieves_next (steady.getInstallation.savable steady ready)
  intro existing world ready
  dsimp only
  split
  · exact achieves_bind.mpr ready.owned.savable
  · exact achieves_turn reviewed ready

/-- The step that switches the library turns a move that is ready. -/
theorem achieves_switch
    (reviewed : move.Reviewed)
    (ready : At move .ready world) :
    Achieves (duty move)
      (step "move-switch" (switchLibrary move.review move.destination))
      (fun _ => At move .turned) (fun _ => Savable move) world := by
  apply achieves_step (calm_at move .ready).toSteady (At move .turned) _ _ _
    ready
  · intro world ready isCompleted
    exact { ready with
      switched := fun _ =>
        ready.owned.memory.switched isCompleted ready.forward }
  · intro world ready _
    exact achieves_switchLibrary reviewed ready
  · intro world receipt turned
    have isMoved := turned.switched rfl
    have fits : Fits move
        (world.memory.complete "move-switch" receipt) world :=
      { turned.owned.memory with
        started := by
          intro isStarted
          rcases mem_complete.mp isStarted with before | isStart
          · exact turned.owned.memory.started before
          · simp at isStart
        switched := fun _ _ => isMoved
        checkpointed := by
          intro isCheckpointed
          rcases mem_complete.mp isCheckpointed with before | isCheckpoint
          · exact turned.owned.memory.checkpointed before
          · simp at isCheckpoint
        prepared := fun _ => mem_complete.mpr (.inl (turned.secured rfl)) }
    constructor
    · exact {
        sound := turned.owned.sound.withMemory _
        memory := { fits with }
        intent := turned.owned.intent.trans
        memoryOpen := turned.owned.memoryOpen }
    · exact {
        owned := {
          journal := { fits with }
          memory := { fits with }
          intent := rfl
          journalOpen := turned.owned.memoryOpen
          memoryOpen := turned.owned.memoryOpen }
        forward := turned.forward
        journaled := id
        secured := fun _ => mem_complete.mpr (.inl (turned.secured rfl))
        fenced := fun isFenced unintended =>
          turned.fenced isFenced (turned.owned.intent.symm.trans unintended)
        switched := fun _ => isMoved }

/-- A turned move whose intent to write is journaled. -/
structure Late
    (move : Move)
    (world : World) : Prop where
  turned : At move .turned world
  intended : world.journal.receipts.writesIntent = true

theorem steady_late
    (move : Move) :
    Steady move (Late move) where
  stable := by
    intro world disturbance late
    have turned := (calm_at move .turned).stable world disturbance late.turned
    change Late move (world.disturb disturbance)
    change At move .turned (world.disturb disturbance) at turned
    obtain ⟨_, _, _, _, _, eq⟩ := world.disturb_eq disturbance
    rw [eq] at turned ⊢
    exact ⟨turned, late.intended⟩
  owned := fun late => late.turned.owned
  quiet := by
    intro before after late quiet
    refine ⟨(calm_at move .turned).quiet late.turned quiet, ?_⟩
    rw [quiet.journal]
    exact late.intended
  noted := fun late noted =>
    ⟨(calm_at move .turned).noted late.turned noted, late.intended⟩
  saved := fun late =>
    ⟨(calm_at move .turned).saved late.turned,
      late.turned.owned.intent.trans late.intended⟩
  policies := fun service policy late =>
    ⟨(calm_at move .turned).policies service policy late.turned,
      late.intended⟩

theorem mount_not_mem_moved
    (reviewed : move.Reviewed)
    {service : Service}
    (member : service ∈ move.moved)
    (isServer : service.name = serverService) :
    move.mount ∉ service.volumes := by
  obtain ⟨original, _, rfl⟩ := List.mem_map.mp member
  split at isServer <;> rename_i named
  · rw [if_pos named]
    intro mounted
    obtain ⟨volume, _, isMount⟩ := List.mem_map.mp mounted
    split at isMount
    · have apart := reviewed.destination_apart
      have same : move.destination = move.source := by
        rw [Move.source, ← isMount]
      rw [same, overlap, Bool.or_eq_false_iff] at apart
      have inItself : move.source.isPrefixOf move.source = true :=
        List.isPrefixOf_iff_prefix.mpr List.prefix_rfl
      rw [inItself] at apart
      simp at apart
    · rename_i different
      exact different isMount
  · exact absurd isServer named

theorem Late.withContainers
    (late : Late move world)
    {containers : List Container}
    (notOriginal :
      ¬{ world with containers := containers }.RunsWith move.mount) :
    Late move { world with containers := containers } := by
  have memoryIntended :=
    late.turned.owned.intent.trans late.intended
  refine ⟨{ late.turned with
    owned := { late.turned.owned with
      journal := { late.turned.owned.journal with
        notMoved := ?_
        notOriginal := fun _ => notOriginal }
      memory := { late.turned.owned.memory with
        notMoved := ?_
        notOriginal := fun _ => notOriginal } }
    fenced := ?_ }, late.intended⟩
  · intro unintended
    rw [late.intended] at unintended
    simp at unintended
  · intro unintended
    rw [memoryIntended] at unintended
    simp at unintended
  · intro _ unintended
    rw [late.intended] at unintended
    simp at unintended

theorem not_mounted_of_up
    (reviewed : move.Reviewed)
    {service : Service}
    {containers : List Container}
    (member : service ∈ move.moved)
    (isServer : (service.up containers).service = serverService) :
    move.mount ∉ (service.up containers).mounts := by
  rw [Service.up_service] at isServer
  rw [Service.up_mounts]
  exact mount_not_mem_moved reviewed member isServer

theorem Late.up
    (reviewed : move.Reviewed)
    (late : Late move world)
    (services : List String) :
    Late move (world.up services) := by
  apply late.withContainers
  rintro ⟨container, member, isServer, runs, mounted⟩
  rcases List.mem_append.mp member with kept | started
  · exact late.turned.owned.journal.notOriginal late.intended
      ⟨container, List.mem_of_mem_filter kept, isServer, runs, mounted⟩
  · obtain ⟨service, isStarted, rfl⟩ := List.mem_map.mp started
    have member := List.mem_of_mem_filter isStarted
    rw [late.turned.switched rfl] at member
    exact not_mounted_of_up reviewed member isServer mounted

theorem Late.upAll
    (reviewed : move.Reviewed)
    (late : Late move world) :
    Late move world.upAll := by
  apply late.withContainers
  rintro ⟨container, started, isServer, _, mounted⟩
  obtain ⟨service, member, rfl⟩ := List.mem_map.mp started
  rw [late.turned.switched rfl] at member
  exact not_mounted_of_up reviewed member isServer mounted

theorem keeps_start
    (reviewed : move.Reviewed) :
    Keeps move (Late move) (ExceptT.mk (perform (.composeUp []))) := by
  apply keeps_mk
  intro world late
  apply guarded_act (steady_late move).stable late
  intro fate before answer later late isPerformed
  change before.composeUp fate [] = (answer, later) at isPerformed
  unfold World.composeUp at isPerformed
  split at isPerformed
  · cases isPerformed
    have still := late.upAll reviewed
    exact ⟨still.turned.owned.sound, .same rfl rfl, still⟩
  · cases isPerformed
    have still := late.up reviewed fate.services
    exact ⟨still.turned.owned.sound, .same rfl rfl, still⟩

theorem Steady.checkStarted
    (steady : Steady move property)
    (review : Review)
    (destination : Path) :
    Keeps move property (checkStarted review destination) := by
  have rest : Keeps move property (do
      LibraryMove.verify .health
      LibraryMove.verify .access
      LibraryMove.verify .library
      return StepReceipt.done) :=
    (steady.verify _).bind fun _ => (steady.verify _).bind fun _ =>
      (steady.verify _).bind fun _ => keeps_pure _
  apply steady.restorePolicies.bind
  intro _
  apply steady.inventory.bind
  intro containers
  dsimp only
  split
  · exact keeps_refuse _
  · split
    · exact (keeps_refuse _).bind fun _ => rest
    · exact rest

/-- The intent is journaled while nobody has asked to stop. -/
theorem achieves_intend
    (turned : At move .turned world)
    (notAsked : ¬(world.cancel = true ∨ world.stopping = true)) :
    Achieves (duty move) (do
        editReceipts fun receipts => { receipts with writesIntent := true }
        save)
      (fun _ => Late move) (fun _ => Savable move) world := by
  have fits : Fits move
      { world.memory with
        receipts := { world.memory.receipts with writesIntent := true } }
      world :=
    { turned.owned.memory with
      exclusive := fun _ => turned.forward
      stopped := fun asked => absurd asked notAsked
      started := fun _ => rfl
      stackMoved := fun _ => turned.switched rfl
      notMoved := by simp
      notOriginal := by
        intro _ runs
        cases intended : world.journal.receipts.writesIntent with
        | true =>
            exact turned.owned.journal.notOriginal intended runs
        | false =>
            obtain ⟨container, member, isServer, isRunning, _⟩ := runs
            have stopped := turned.fenced rfl intended container member isServer
            rw [isRunning] at stopped
            simp at stopped }
  have savable : Savable move { world with
      memory := { world.memory with
        receipts := { world.memory.receipts with writesIntent := true } } } :=
    { sound := turned.owned.sound.withMemory _
      memory := { fits with }
      intent := fun _ => rfl
      memoryOpen := turned.owned.memoryOpen }
  apply achieves_bind.mpr
  apply achieves_edit turned.owned.sound
  apply achieves_save savable.sound savable.saved savable.intent
  · exact {
      turned := {
        owned := {
          journal := { fits with }
          memory := { fits with }
          intent := rfl
          journalOpen := turned.owned.memoryOpen
          memoryOpen := turned.owned.memoryOpen }
        forward := turned.forward
        journaled := id
        secured := turned.secured
        fenced := by simp
        switched := turned.switched }
      intended := rfl }
  · exact fun _ => savable

theorem achieves_refuseIfCancelled
    {β : Type}
    {next : PUnit → Work β}
    {after : β → World → Prop}
    (steady : Steady move property)
    (rest : ∀ world, property world →
      ¬(world.cancel = true ∨ world.stopping = true) →
        Achieves (duty move) (next ⟨⟩) after (fun _ => Savable move) world)
    (holds : property world) :
    Achieves (duty move) (refuseIfCancelled >>= next) after
      (fun _ => Savable move) world := by
  apply achieves_bind.mpr
  apply achieves_bind.mpr
  apply guarded_act steady.stable holds
  intro fate before answer later kept isPerformed
  have sound := (steady.owned kept).sound
  rcases fate.read_cases (before.stopping || before.cancel) before with
    outcome | ⟨_, outcome⟩
  · cases outcome.symm.trans isPerformed
    refine ⟨sound, .refl move before, ?_⟩
    dsimp only
    split
    · exact (steady.owned kept).savable
    · rename_i notAsked
      apply rest before kept
      simpa [or_comm] using notAsked
  · cases outcome.symm.trans isPerformed
    exact ⟨sound, .refl move before, (steady.owned kept).savable⟩

/-- The moved library is started after its intent, or the work fails. -/
theorem achieves_startMoved
    (reviewed : move.Reviewed)
    (turned : At move .turned world) :
    Achieves (duty move) (startMoved move.review move.destination)
      (fun _ => Late move) (fun _ => Savable move) world := by
  have steady := (calm_at move .turned).toSteady
  have late := steady_late move
  have afterIntent : Keeps move (Late move) (do
      ExceptT.mk (perform (.composeUp []))
      let started ←
        tryCatch
          (do
            let receipt ← checkStarted move.review move.destination
            return Except.ok receipt)
          fun failure => return Except.error failure
      let _ ← resumeServer
      ExceptT.mk (.done started)) := by
    apply (keeps_start reviewed).bind
    intro _
    apply Keeps.bind
    · apply Keeps.tryCatch
      · exact (late.checkStarted _ _).bind fun _ => keeps_pure _
      · exact fun _ => keeps_pure _
    · intro started
      exact late.resumeServer.bind fun _ => keeps_done _
  have rest : ∀ world, At move .turned world →
      Achieves (duty move) (do
          verify (.media (move.review.current.mounts ++
            (move.review.current.movedTo move.destination).mounts))
          verify .physicalPaths
          refuseIfCancelled
          editReceipts fun receipts => { receipts with writesIntent := true }
          save
          ExceptT.mk (perform (.composeUp []))
          let started ←
            tryCatch
              (do
                let receipt ← checkStarted move.review move.destination
                return Except.ok receipt)
              fun failure => return Except.error failure
          let _ ← resumeServer
          ExceptT.mk (.done started)) (fun _ => Late move)
        (fun _ => Savable move) world := by
    intro world turned
    apply achieves_next ((steady.verify _).savable steady turned)
    intro _ world turned
    apply achieves_next ((steady.verify _).savable steady turned)
    intro _ world turned
    apply achieves_refuseIfCancelled steady _ turned
    intro world turned notAsked
    have intends := achieves_bind.mp (achieves_intend turned notAsked)
    apply achieves_bind.mpr
    apply intends.mono _ fun _ _ failed => failed
    intro _ world saves
    exact achieves_next saves fun _ _ isLate => afterIntent.savable late isLate
  apply achieves_next (steady.isCancelled.savable steady turned)
  intro cancelled world turned
  apply achieves_next (steady.readMemory.savable steady turned)
  intro operation world turned
  dsimp only
  split
  · exact achieves_bind.mpr turned.owned.savable
  · exact rest world turned

theorem achieves_start
    (reviewed : move.Reviewed)
    (turned : At move .turned world) :
    Achieves (duty move)
      (step "move-start" (startMoved move.review move.destination))
      (fun _ => Late move) (fun _ => Savable move) world := by
  apply achieves_step (calm_at move .turned).toSteady (Late move) _ _ _ turned
  · intro world turned isCompleted
    exact ⟨turned, turned.owned.intent.symm.trans
      (turned.owned.memory.started isCompleted)⟩
  · intro world turned _
    exact achieves_startMoved reviewed turned
  · intro world receipt late
    have noted : Noted world.memory
        (world.memory.complete "move-start" receipt) :=
      noted_complete
        (fun _ => late.turned.owned.intent.trans late.intended)
        (by decide) (by decide)
    have later := (steady_late move).noted late noted
    exact ⟨later.turned.owned.savable, (steady_late move).saved later⟩

/-- A move that goes forward ends late, or its work fails. -/
theorem achieves_moveForward
    (reviewed : move.Reviewed)
    {operation : MoveOperation}
    (isMove : operation.id = move.id)
    (begun : At move {} world) :
    Achieves (duty move) (moveForward move.places operation move.review)
      (fun _ => Late move) (fun _ => Savable move) world := by
  have calm := calm_at move {}
  have steady := calm.toSteady
  have ready := (calm_at move .ready).toSteady
  have secured := calm_at move { secured := true }
  have destination :
      destinationOf move.review operation.id = move.destination := by
    rw [isMove]
    rfl
  rw [moveForward, destination]
  apply achieves_next (steady.refuseIfCancelled.savable steady begun)
  intro _ world begun
  rw [reviewed.apart]
  apply achieves_next ((steady.verify _).savable steady begun)
  intro _ world begun
  apply achieves_next ((steady.verifyIdentities _).savable steady begun)
  intro _ world begun
  have stops : Keeps move (At move {})
      (step "move-stop-writers" (stopWriters move.review)) :=
    steady.step (calm.stopWriters _) (by decide) (by decide) (by decide)
  apply achieves_next (stops.savable steady begun)
  intro _ world begun
  apply achieves_next (achieves_secure begun)
  intro _ world isSecured
  have fences : Keeps move (At move { secured := true })
      (step "move-fence-stack" do
        stopInstallation move.review.current
        return .done) :=
    secured.toSteady.step
      ((secured.stopInstallation _).bind fun _ => keeps_pure _)
      (by decide) (by decide) (by decide)
  apply achieves_next (fences.savable secured.toSteady isSecured)
  intro _ world isSecured
  apply achieves_next (achieves_verifyFence isSecured)
  intro _ world isReady
  have freezes : Keeps move (At move .ready)
      (step "move-freeze" do
        return .copied (← helper .freeze move.review.root)) :=
    ready.step ((ready.helper _ _ reviewed.root_apart).bind fun _ =>
      keeps_pure _) (by decide) (by decide) (by decide)
  apply achieves_next (freezes.savable ready isReady)
  intro frozen world isReady
  have copies : Keeps move (At move .ready)
      (step "move-copy" (copyLibrary move.review move.destination frozen)) :=
    ready.step (ready.copyLibrary reviewed _) (by decide) (by decide)
      (by decide)
  apply achieves_next (copies.savable ready isReady)
  intro _ world isReady
  have verifies : Keeps move (At move .ready)
      (step "move-verify" do
        return .copied (← helper .verify move.destination)) :=
    ready.step ((ready.helper _ _ reviewed.destination_apart).bind fun _ =>
      keeps_pure _) (by decide) (by decide) (by decide)
  apply achieves_next (verifies.savable ready isReady)
  intro _ world isReady
  apply achieves_next (achieves_switch reviewed isReady)
  intro _ world turned
  apply achieves_next (achieves_start reviewed turned)
  intro _ world late
  exact late

end Frameleaf.LibraryMove
