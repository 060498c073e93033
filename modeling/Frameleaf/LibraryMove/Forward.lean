import Frameleaf.LibraryMove.Stages

namespace Frameleaf.LibraryMove

open Manager Programs

/-!
# The way forward

Step by step the move reaches its stages.  The intent to write to the new folder
is journaled in one breath with finding that nobody has asked to stop, after the
stack was switched and while the server does not run.
-/

variable {move : Move} {property : World → Prop}

theorem Move.Reviewed.root_apart
    (reviewed : move.Reviewed) :
    overlap move.review.root move.source = false := by
  have apart := reviewed.apart
  rw [overlaps, List.any_eq_false] at apart
  have source := apart move.source (by simp [Move.source, Move.mount])
  simpa using source

theorem Move.Reviewed.destination_apart
    (reviewed : move.Reviewed) :
    overlap move.destination move.source = false := by
  have rootApart := reviewed.root_apart
  rw [Bool.eq_false_iff] at rootApart ⊢
  intro overlaps
  apply rootApart
  have inDestination : move.review.root <+: move.destination :=
    List.prefix_append _ _
  rw [overlap, Bool.or_eq_true, List.isPrefixOf_iff_prefix,
    List.isPrefixOf_iff_prefix] at overlaps ⊢
  rcases overlaps with inSource | inSource
  · exact .inl (inDestination.trans inSource)
  · exact List.prefix_or_prefix_of_prefix inDestination inSource

/-- Creating a folder apart keeps a steady property. -/
theorem Steady.makeDirectory
    (steady : Steady move property)
    (path : Path)
    (apart : overlap path move.source = false) :
    Keeps move property (ExceptT.mk (perform (.makeDirectory path))) := by
  have untouched (world : World) :
      Untouched move world (world.write path .directory) := by
    intro other inSource
    apply if_neg
    rintro rfl
    rw [overlap, Bool.or_eq_false_iff] at apart
    rw [inSource] at apart
    simp at apart
  apply keeps_mk
  intro world holds
  apply steady.guarded_quiet (.makeDirectory path) _ holds
  intro fate before answer later isPerformed
  rw [World.perform] at isPerformed
  split at isPerformed
  · rw [Fate.eq_of_read isPerformed]
    exact ⟨.refl move before, .refl move before⟩
  · have quiet : Quiet move before (before.write path .directory) :=
      { Quiet.refl move before with }
    rcases fate.attempt_cases true before (before.write path .directory) with
      outcome | ⟨_, outcome | outcome⟩
    · cases outcome.symm.trans isPerformed
      exact ⟨quiet, untouched before⟩
    · cases outcome.symm.trans isPerformed
      exact ⟨quiet, untouched before⟩
    · cases outcome.symm.trans isPerformed
      exact ⟨.refl move before, .refl move before⟩

theorem Steady.claimDestination
    (steady : Steady move property)
    (reviewed : move.Reviewed) :
    Keeps move property (claimDestination move.destination) := by
  apply steady.readMemory.bind
  intro operation
  apply (steady.makeDirectory _ reviewed.destination_apart).bind
  intro created
  split
  · split
    · dsimp only
      split
      · apply (keeps_refuse _).bind
        intro _
        apply (steady.identity _).bind
        intro present
        split
        · exact keeps_refuse _
        · exact keeps_pure _
      · apply (steady.identity _).bind
        intro present
        split
        · exact keeps_refuse _
        · exact keeps_pure _
    · exact keeps_refuse _
  · exact keeps_pure _

theorem Steady.copyLibrary
    (steady : Steady move property)
    (reviewed : move.Reviewed)
    (frozen : StepReceipt) :
    Keeps move property
      (copyLibrary move.review move.destination frozen) := by
  apply (steady.verify _).bind
  intro _
  apply steady.refuseIfCancelled.bind
  intro _
  apply (steady.claimDestination reviewed).bind
  intro _
  apply (steady.identity _).bind
  intro present
  apply Keeps.bind
  · exact steady.editReceipts (fun _ => rfl) (fun _ => rfl) fun _ => rfl
  · intro _
    apply steady.save.bind
    intro _
    exact (steady.helper _ _ reviewed.destination_apart).bind fun _ =>
      keeps_pure _

theorem noted_begun
    (name : String)
    (operation : MoveOperation) :
    Noted operation { operation with step := some name } where
  id := rfl
  state := .inr rfl
  writesIntent := rfl
  recoveryIntent := rfl
  cancelled := rfl
  completed := fun _ member => member
  started := .inl
  checkpointed := id
  switched := id

variable {name : String}

theorem mem_complete
    {other : String}
    {receipt : StepReceipt}
    {operation : MoveOperation} :
    other ∈ (operation.complete name receipt).completed ↔
      other ∈ operation.completed ∨ other = name := by
  rw [MoveOperation.complete, List.mem_append, List.mem_singleton]

/-- Noting that a step is completed which decides nothing. -/
theorem noted_complete
    {receipt : StepReceipt}
    {operation : MoveOperation}
    (started : name = "move-start" →
      operation.receipts.writesIntent = true)
    (notCheckpoint : name ≠ "move-checkpoint")
    (notSwitch : name ≠ "move-switch") :
    Noted operation (operation.complete name receipt) where
  id := rfl
  state := .inr rfl
  writesIntent := rfl
  recoveryIntent := rfl
  cancelled := rfl
  completed := fun _ member => mem_complete.mpr (.inl member)
  started := by
    intro isStarted
    rcases mem_complete.mp isStarted with before | isStart
    · exact .inl before
    · exact .inr (started isStart.symm)
  checkpointed := by
    intro isCheckpointed
    rcases mem_complete.mp isCheckpointed with before | isCheckpoint
    · exact before
    · exact absurd isCheckpoint.symm notCheckpoint
  switched := by
    intro isSwitched
    rcases mem_complete.mp isSwitched with before | isSwitch
    · exact before
    · exact absurd isSwitch.symm notSwitch

theorem Steady.step
    (steady : Steady move property)
    {action : Work StepReceipt}
    (keeps : Keeps move property action)
    (notStart : name ≠ "move-start")
    (notCheckpoint : name ≠ "move-checkpoint")
    (notSwitch : name ≠ "move-switch") :
    Keeps move property (step name action) := by
  apply steady.readMemory.bind
  intro operation
  split
  · exact keeps_pure _
  · apply (steady.edit (noted_begun name)).bind
    intro _
    apply steady.save.bind
    intro _
    apply keeps.bind
    intro receipt
    apply Keeps.bind
    · apply steady.edit
      intro operation
      exact noted_complete (fun isStart => absurd isStart notStart)
        notCheckpoint notSwitch
    · intro _
      exact steady.save.bind fun _ => keeps_pure _

variable {world : World}

theorem Keeps.savable
    {α : Type}
    {work : Work α}
    (keeps : Keeps move property work)
    (steady : Steady move property)
    (holds : property world) :
    Achieves (duty move) work (fun _ => property)
      (fun _ => Savable move) world :=
  (keeps world holds).mono (fun _ _ kept => kept)
    fun _ _ kept => (steady.owned kept).savable

theorem achieves_next
    {α β : Type}
    {work : Work α}
    {next : α → Work β}
    {reached : World → Prop}
    {after : β → World → Prop}
    (first : Achieves (duty move) work (fun _ => reached)
      (fun _ => Savable move) world)
    (rest : ∀ result later, reached later →
      Achieves (duty move) (next result) after (fun _ => Savable move) later) :
    Achieves (duty move) (work >>= next) after (fun _ => Savable move)
      world :=
  achieves_bind.mpr (first.mono rest fun _ _ failed => failed)

/-- A step that decides something, from what its action achieves. -/
theorem achieves_step
    {action : Work StepReceipt}
    {after : World → Prop}
    (steady : Steady move property)
    (reached : World → Prop)
    (already : ∀ world, property world → name ∈ world.memory.completed →
      after world)
    (acts : ∀ world, property world → name ∉ world.memory.completed →
      Achieves (duty move) action (fun _ => reached)
        (fun _ => Savable move) world)
    (completes : ∀ world receipt, reached world →
      Savable move
          { world with memory := world.memory.complete name receipt } ∧
        after
          { world with
            memory := world.memory.complete name receipt
            journal := world.memory.complete name receipt })
    (holds : property world) :
    Achieves (duty move) (step name action) (fun _ => after)
      (fun _ => Savable move) world := by
  have sound := (steady.owned holds).sound
  apply achieves_bind.mpr
  apply achieves_readMemory sound
  split
  · rename_i isCompleted
    exact already world holds isCompleted
  · rename_i notCompleted
    have begun := steady.noted holds (noted_begun name world.memory)
    have savable := (steady.owned begun).savable
    apply achieves_bind.mpr
    apply achieves_edit sound
    apply achieves_bind.mpr
    apply achieves_save savable.sound savable.saved savable.intent
    · apply achieves_bind.mpr
      apply (acts _ (steady.saved begun) notCompleted).mono
      · intro receipt later isReached
        obtain ⟨completed, isAfter⟩ := completes later receipt isReached
        apply achieves_bind.mpr
        apply achieves_edit
        · exact { completed.sound.withMemory later.memory with }
        · apply achieves_bind.mpr
          exact achieves_save completed.sound completed.saved
            completed.intent isAfter fun _ => completed
      · exact fun _ _ failed => failed
    · exact fun _ => savable

/-- The move is about to have its recovery point, or has just kept it. -/
structure Checkpointing
    (move : Move)
    (kept : Bool)
    (world : World) : Prop where
  reached : At move {} world
  notYet : "move-checkpoint" ∉ world.memory.completed
  kept : kept = true → world.checkpoint = some move.original

/-- Everything done on the way to the recovery point keeps that it is due. -/
theorem calm_checkpointing
    (move : Move)
    (kept : Bool) :
    Calm move (Checkpointing move kept) where
  stable := by
    intro world disturbance due
    have reached := (calm_at move {}).stable world disturbance due.reached
    change Checkpointing move kept (world.disturb disturbance)
    change At move {} (world.disturb disturbance) at reached
    obtain ⟨_, _, _, _, _, eq⟩ := world.disturb_eq disturbance
    rw [eq] at reached ⊢
    exact { due with reached := reached }
  owned := fun due => due.reached.owned
  quiet := by
    intro before after due quiet
    refine ⟨(calm_at move {}).quiet due.reached quiet, ?_, ?_⟩
    · rw [quiet.memory]
      exact due.notYet
    · rw [quiet.checkpoint]
      exact due.kept
  noted := fun due noted => {
    reached := (calm_at move {}).noted due.reached noted
    notYet := fun isCheckpointed =>
      due.notYet (noted.checkpointed isCheckpointed)
    kept := due.kept }
  saved := fun due => {
    reached := (calm_at move {}).saved due.reached
    notYet := due.notYet
    kept := due.kept }
  policies := fun service policy due => {
    reached := (calm_at move {}).policies service policy due.reached
    notYet := due.notYet
    kept := due.kept }
  calmed := by
    intro before after due calmed
    have reached := due.reached.calmed calmed
    have rest := calmed.rest
    generalize after.containers = containers at rest
    subst rest
    exact { due with reached := reached }

theorem Checkpointing.stack
    {kept : Bool}
    (due : Checkpointing move kept world) :
    world.stack = move.original := by
  by_contra differs
  exact due.notYet (due.reached.owned.memory.prepared differs)

theorem Checkpointing.copied
    {kept : Bool}
    (due : Checkpointing move kept world) :
    Checkpointing move true { world with checkpoint := some world.stack } := by
  have original := due.stack
  have fits {operation : MoveOperation}
      (fits : Fits move operation world) :
      Fits move operation { world with checkpoint := some world.stack } :=
    { fits with
      checkpoint := .inr (congrArg some original)
      checkpointed := fun _ => congrArg some original }
  exact {
    reached := { due.reached with
      owned := { due.reached.owned with
        journal := fits due.reached.owned.journal
        memory := fits due.reached.owned.memory } }
    notYet := due.notYet
    kept := fun _ => congrArg some original }

theorem achieves_copyCompose
    (due : Checkpointing move false world) :
    Achieves (duty move) (ExceptT.mk (perform .copyCompose))
      (fun _ => Checkpointing move true) (fun _ => Savable move) world := by
  apply guarded_act (calm_checkpointing move false).stable due
  intro fate before answer later due isPerformed
  have copied := due.copied
  rcases fate.attempt_cases PUnit.unit before
      { before with checkpoint := some before.stack } with
    outcome | ⟨_, outcome | outcome⟩
  · cases outcome.symm.trans isPerformed
    exact ⟨copied.reached.owned.sound, .same rfl rfl, copied⟩
  · cases outcome.symm.trans isPerformed
    exact ⟨copied.reached.owned.sound, .same rfl rfl,
      copied.reached.owned.savable⟩
  · cases outcome.symm.trans isPerformed
    exact ⟨due.reached.owned.sound, .refl move before,
      due.reached.owned.savable⟩

/-- The recovery point is kept, or the work on it fails. -/
theorem achieves_checkpoint
    (due : Checkpointing move false world) :
    Achieves (duty move) (checkpoint move.places)
      (fun _ => Checkpointing move true) (fun _ => Savable move) world := by
  have calm := calm_checkpointing move false
  have steady := calm.toSteady
  have copy (receipt : String) (world : World)
      (due : Checkpointing move false world) :
      Achieves (duty move) (do
          editReceipts fun receipts =>
            { receipts with checkpointDump := some receipt }
          save
          ExceptT.mk (perform .copyCompose)
          verify .snapshot) (fun _ => Checkpointing move true)
        (fun _ => Savable move) world := by
    have edits : Keeps move (Checkpointing move false)
        (editReceipts fun receipts =>
          { receipts with checkpointDump := some receipt }) :=
      calm.editReceipts (fun _ => rfl) (fun _ => rfl) fun _ => rfl
    apply achieves_next (edits.savable steady due)
    intro _ world due
    apply achieves_next (calm.save.savable steady due)
    intro _ world due
    apply achieves_next (achieves_copyCompose due)
    intro _ world due
    have later := (calm_checkpointing move true).toSteady
    exact (later.verify _).savable later due
  apply achieves_next (calm.readMemory.savable steady due)
  intro operation world due
  have receipts : Keeps move (Checkpointing move false)
      (checkpointDump operation
        (move.places.directory ++
          ["checkpoints", operation.id, "database.dump"])) := by
    rw [checkpointDump]
    split
    · exact keeps_pure _
    · exact (calm.verify _).bind fun _ => calm.identity _
  apply achieves_next (receipts.savable steady due)
  intro receipt world due
  apply achieves_next ((calm.identity _).savable steady due)
  intro present world due
  dsimp only
  split
  · exact achieves_bind.mpr due.reached.owned.savable
  · exact copy receipt world due

theorem achieves_takeCheckpoint
    (due : Checkpointing move false world) :
    Achieves (duty move) (takeCheckpoint move.places move.review)
      (fun _ => Checkpointing move true) (fun _ => Savable move) world := by
  have calm := calm_checkpointing move false
  have steady := calm.toSteady
  apply achieves_next ((calm.stopInstallation _).savable steady due)
  intro _ world due
  apply achieves_next (calm.startDatabase.savable steady due)
  intro _ world due
  apply achieves_next ((calm.verify _).savable steady due)
  intro _ world due
  apply achieves_next (achieves_checkpoint due)
  intro _ world due
  have later := (calm_checkpointing move true).toSteady
  have rest : Keeps move (Checkpointing move true) (do
      verify .snapshot
      return StepReceipt.done) :=
    (later.verify _).bind fun _ => keeps_pure _
  exact rest.savable later due

theorem At.checkpointing
    {stage : Stage}
    (reached : At move stage world)
    (notYet : "move-checkpoint" ∉ world.memory.completed) :
    Checkpointing move false world where
  reached := { reached with
    secured := by simp
    fenced := by simp
    switched := by simp }
  notYet := notYet
  kept := by simp

/-- The move secures its recovery point. -/
theorem achieves_secure
    (reached : At move {} world) :
    Achieves (duty move)
      (step "move-checkpoint" (takeCheckpoint move.places move.review))
      (fun _ => At move { secured := true }) (fun _ => Savable move)
      world := by
  apply achieves_step (calm_at move {}).toSteady (Checkpointing move true) _ _ _
    reached
  · intro world reached isCompleted
    exact { reached with
      secured := fun _ => isCompleted
      fenced := by simp
      switched := by simp }
  · intro world reached notYet
    exact achieves_takeCheckpoint (reached.checkpointing notYet)
  · intro world receipt due
    have fits : Fits move
        (world.memory.complete "move-checkpoint" receipt) world :=
      { due.reached.owned.memory with
        started := by
          intro isStarted
          rcases mem_complete.mp isStarted with before | isStart
          · exact due.reached.owned.memory.started before
          · simp at isStart
        switched := by
          intro isSwitched
          rcases mem_complete.mp isSwitched with before | isSwitch
          · exact due.reached.owned.memory.switched before
          · simp at isSwitch
        checkpointed := fun _ => due.kept rfl
        prepared := fun _ => mem_complete.mpr (.inr rfl) }
    constructor
    · exact {
        sound := due.reached.owned.sound.withMemory _
        memory := { fits with }
        intent := due.reached.owned.intent.trans
        memoryOpen := due.reached.owned.memoryOpen }
    · exact {
        owned := {
          journal := { fits with }
          memory := { fits with }
          intent := rfl
          journalOpen := due.reached.owned.memoryOpen
          memoryOpen := due.reached.owned.memoryOpen }
        forward := due.reached.forward
        journaled := id
        secured := fun _ => mem_complete.mpr (.inr rfl)
        fenced := by simp
        switched := by simp }

end Frameleaf.LibraryMove
