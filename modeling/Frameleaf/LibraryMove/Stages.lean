import Frameleaf.LibraryMove.Keeping

namespace Frameleaf.LibraryMove

open Manager Programs

/-!
# The stages of a move

A move that goes forward has its recovery point, then a fenced stack and then a
switched one; each stage is kept by everything that is done in it.
-/

variable {move : Move}

/-- A disturbance changes requests to stop, the helper and files only. -/
theorem World.disturb_eq
    (world : World)
    (disturbance : Disturbance) :
    ∃ cancel helper files stopping stops,
      world.disturb disturbance =
        { world with
          cancel := cancel
          helper := helper
          files := files
          stopping := stopping
          stops := stops } := by
  cases disturbance with
  | stopAccepted =>
      rw [World.disturb]
      split
      · exact ⟨_, _, _, _, _, rfl⟩
      · exact ⟨_, _, _, _, _, rfl⟩
  | stopMarked written =>
      rw [World.disturb]
      split
      · exact ⟨_, _, _, _, _, rfl⟩
      · exact ⟨_, _, _, _, _, rfl⟩
  | serverWrites path entry =>
      rw [World.disturb]
      split
      · exact ⟨_, _, _, _, _, rfl⟩
      · exact ⟨_, _, _, _, _, rfl⟩
  | helperWrites path entry =>
      rw [World.disturb]
      split
      · rw [World.writeIn_eq]
        exact ⟨_, _, _, _, _, rfl⟩
      · exact ⟨_, _, _, _, _, rfl⟩
  | helperEnds =>
      exact ⟨_, _, _, _, _, rfl⟩

variable {world : World}

/-- An operation fits while others act, unless it intends more than is known. -/
theorem Fits.disturb
    {operation : MoveOperation}
    (fits : Fits move operation world)
    (known : world.journal.receipts.writesIntent = false →
      operation.receipts.writesIntent = false)
    (disturbance : Disturbance) :
    Fits move operation (world.disturb disturbance) := by
  cases disturbance with
  | stopAccepted =>
      rw [World.disturb]
      split
      · exact fits
      · rename_i accepted
        have unintended : operation.receipts.writesIntent = false := by
          apply known
          simpa using (not_or.mp accepted).2
        exact { fits with
          stopped := fun _ => unintended
          stops := fun _ => rfl }
  | stopMarked written =>
      rw [World.disturb]
      split
      · exact fits
      · rename_i stops isPending
        have asked : world.stopping = true := fits.stops (by simp [isPending])
        exact { fits with
          stopped := fun _ => fits.stopped (.inr asked)
          stops := fun _ => asked }
  | serverWrites path entry =>
      rw [World.disturb]
      split
      · exact { fits with }
      · exact fits
  | helperWrites path entry =>
      rw [World.disturb]
      split
      · exact fits.quiet (quiet_writeIn _ _ _)
      · exact fits
  | helperEnds =>
      exact { fits with helper := by rintro folders ⟨⟩ }

theorem Owned.disturb
    (owned : Owned move world)
    (disturbance : Disturbance) :
    Owned move (world.disturb disturbance) := by
  have journal := owned.journal.disturb id disturbance
  have memory := owned.memory.disturb
    (fun unintended => owned.intent.trans unintended) disturbance
  obtain ⟨_, _, _, _, _, eq⟩ := world.disturb_eq disturbance
  rw [eq] at journal memory ⊢
  exact {
    journal := journal
    memory := memory
    intent := owned.intent
    journalOpen := owned.journalOpen
    memoryOpen := owned.memoryOpen }

/-- What a move that goes forward has behind it. -/
structure Stage where
  secured : Bool := false
  fenced : Bool := false
  switched : Bool := false

/-- The move goes forward and has a stage behind it. -/
structure At
    (move : Move)
    (stage : Stage)
    (world : World) : Prop where
  owned : Owned move world
  forward : world.memory.receipts.recoveryIntent = false
  journaled : "move-checkpoint" ∈ world.memory.completed →
    "move-checkpoint" ∈ world.journal.completed
  secured : stage.secured = true →
    "move-checkpoint" ∈ world.memory.completed
  fenced : stage.fenced = true →
    world.journal.receipts.writesIntent = false → world.Fenced
  switched : stage.switched = true → world.stack = move.moved

theorem At.calmed
    {stage : Stage}
    {before after : World}
    (reached : At move stage before)
    (calmed : Calmed before after) :
    At move stage after := by
  have owned := reached.owned.calmed calmed
  have fenced : stage.fenced = true →
      before.journal.receipts.writesIntent = false → after.Fenced :=
    fun isFenced unintended => calmed.fenced (reached.fenced isFenced unintended)
  have rest := calmed.rest
  generalize after.containers = containers at rest
  subst rest
  exact { reached with owned := owned, fenced := fenced }

theorem calm_owned
    (move : Move) :
    Calm move (Owned move) where
  stable := fun _ disturbance owned => owned.disturb disturbance
  owned := id
  quiet := Owned.quiet
  noted := fun owned noted => {
    journal := { owned.journal with }
    memory := { owned.memory.noted noted with }
    intent := noted.writesIntent.trans owned.intent
    journalOpen := owned.journalOpen
    memoryOpen := by
      rcases noted.state with isOpen | same
      · exact isOpen
      · exact fun closed => owned.memoryOpen (same ▸ closed) }
  saved := fun owned => {
    journal := { owned.memory with }
    memory := { owned.memory with }
    intent := rfl
    journalOpen := owned.memoryOpen
    memoryOpen := owned.memoryOpen }
  policies := fun service policy owned =>
    owned.calmed (calmed_policies _ service policy)
  calmed := Owned.calmed

/-- Everything that a move does on the way keeps its stage. -/
theorem calm_at
    (move : Move)
    (stage : Stage) :
    Calm move (At move stage) where
  stable := by
    intro world disturbance reached
    have owned := reached.owned.disturb disturbance
    change At move stage (world.disturb disturbance)
    obtain ⟨_, _, _, _, _, eq⟩ := world.disturb_eq disturbance
    rw [eq] at owned ⊢
    exact { reached with owned := owned }
  owned := At.owned
  quiet := by
    intro before after reached quiet
    exact {
      owned := reached.owned.quiet quiet
      forward := by
        rw [quiet.memory]
        exact reached.forward
      journaled := by
        rw [quiet.memory, quiet.journal]
        exact reached.journaled
      secured := by
        rw [quiet.memory]
        exact reached.secured
      fenced := by
        rw [quiet.journal, World.Fenced, quiet.containers]
        exact reached.fenced
      switched := by
        rw [quiet.stack]
        exact reached.switched }
  noted := by
    intro world operation reached noted
    exact {
      owned := (calm_owned move).noted reached.owned noted
      forward := noted.recoveryIntent.trans reached.forward
      journaled := fun isSecured =>
        reached.journaled (noted.checkpointed isSecured)
      secured := fun isSecured =>
        noted.completed _ (reached.secured isSecured)
      fenced := reached.fenced
      switched := reached.switched }
  saved := by
    intro world reached
    exact {
      owned := (calm_owned move).saved reached.owned
      forward := reached.forward
      journaled := id
      secured := reached.secured
      fenced := by
        intro isFenced unintended
        exact reached.fenced isFenced (reached.owned.intent.symm.trans unintended)
      switched := reached.switched }
  policies := fun service policy reached =>
    reached.calmed (calmed_policies _ service policy)
  calmed := At.calmed

/-- The memory could be journaled at this moment. -/
structure Savable
    (move : Move)
    (world : World) : Prop where
  sound : Sound move world
  memory : Fits move world.memory world
  intent : world.journal.receipts.writesIntent = true →
    world.memory.receipts.writesIntent = true
  memoryOpen : world.memory.state ≠ .complete

theorem Owned.savable
    (owned : Owned move world) :
    Savable move world where
  sound := owned.sound
  memory := owned.memory
  intent := owned.intent.trans
  memoryOpen := owned.memoryOpen

theorem Sound.withMemory
    (sound : Sound move world)
    (operation : MoveOperation) :
    Sound move { world with memory := operation } where
  fits := { sound.fits with }
  ended := by
    intro isComplete
    obtain ⟨cancelled, intended⟩ := sound.ended isComplete
    refine ⟨fun isCancelled => ?_, intended⟩
    obtain ⟨unintended, inUse⟩ := cancelled isCancelled
    exact ⟨unintended, { inUse with }⟩

variable {failed : Failure → World → Prop}

theorem achieves_readMemory
    {after : MoveOperation → World → Prop}
    (sound : Sound move world)
    (holds : after world.memory world) :
    Achieves (duty move) readMemory after failed world :=
  achieves_lift.mpr
    (guarded_act_now rfl fun _ _ _ isPerformed => by
      cases isPerformed
      exact ⟨sound, .refl move world, holds⟩)

theorem achieves_edit
    {change : MoveOperation → MoveOperation}
    {after : PUnit → World → Prop}
    (sound : Sound move world)
    (holds : after ⟨⟩ { world with memory := change world.memory }) :
    Achieves (duty move) (edit change) after failed world :=
  achieves_lift.mpr
    (guarded_act_now rfl fun _ _ _ isPerformed => by
      cases isPerformed
      exact ⟨sound.withMemory _, .same rfl rfl, holds⟩)

theorem achieves_save
    {after : PUnit → World → Prop}
    (sound : Sound move world)
    (saved : Sound move { world with journal := world.memory })
    (intent : world.journal.receipts.writesIntent = true →
      world.memory.receipts.writesIntent = true)
    (holds : after ⟨⟩ { world with journal := world.memory })
    (fails : ∀ failure, failed failure world) :
    Achieves (duty move) save after failed world := by
  apply guarded_act_now rfl
  intro fate answer later isPerformed
  rcases fate.statement_cases world
      { world with journal := world.memory } with outcome | ⟨_, outcome⟩
  · cases outcome.symm.trans isPerformed
    have lasting : Lasting move world
        { world with journal := world.memory } := {
      untouched := fun _ _ => rfl
      intent := intent }
    exact ⟨saved, lasting, holds⟩
  · cases outcome.symm.trans isPerformed
    exact ⟨sound, .refl move world, fails _⟩

theorem Savable.saved
    (savable : Savable move world) :
    Sound move { world with journal := world.memory } where
  fits := { savable.memory with }
  ended := fun isComplete => absurd isComplete savable.memoryOpen

end Frameleaf.LibraryMove
