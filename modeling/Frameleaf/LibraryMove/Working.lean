import Frameleaf.LibraryMove.Back

namespace Frameleaf.LibraryMove

open Manager Programs Trace

/-!
# Every step of a library move

Whatever the manager works on may be stopped after any action: what is left of
a program stays guarded until it ends, and between programs the world is sound.
-/

variable {move : Move}

/-- The memory of an operation whose failure can be journaled. -/
structure Salvageable
    (move : Move)
    (world : World) : Prop where
  sound : Sound move world
  memory : Fits move world.memory world
  intent : world.journal.receipts.writesIntent = true →
    world.memory.receipts.writesIntent = true

variable {world : World}

theorem Savable.salvageable
    (savable : Savable move world) :
    Salvageable move world where
  sound := savable.sound
  memory := savable.memory
  intent := savable.intent

theorem achieves_fail
    (error : Option String)
    (detail : MoveOperation → Option String)
    (salvageable : Salvageable move world) :
    Achieves (duty move) (do
        edit fun operation =>
          { operation with
            state := .failed
            error := error
            detail := detail operation }
        save)
      (fun _ => Sound move) (fun _ => Sound move) world := by
  have savable : Savable move { world with
      memory := { world.memory with
        state := .failed
        error := error
        detail := detail world.memory } } := {
    sound := salvageable.sound.withMemory _
    memory := { salvageable.memory with }
    intent := salvageable.intent
    memoryOpen := by simp }
  apply achieves_bind.mpr
  apply achieves_edit salvageable.sound
  exact achieves_save savable.sound savable.saved savable.intent
    savable.saved fun _ => savable.sound

/-- The end of an operation is journaled. -/
structure Settled
    (move : Move)
    (cancelled : Option String)
    (world : World) : Prop where
  sound : Sound move world
  complete : world.journal.state = .complete
  cancelled : world.journal.receipts.cancelled = cancelled

/-- The end of finished work is journaled, unless that fails. -/
theorem achieves_settle
    (finished : Finished move world) :
    Achieves (duty move) settle
      (fun _ => Settled move world.memory.receipts.cancelled)
      (fun _ => Salvageable move) world := by
  have salvageable : Salvageable move { world with
      memory := { world.memory with
        state := .complete
        error := world.memory.receipts.cancelled } } := {
    sound := finished.savable.sound.withMemory _
    memory := { finished.savable.memory with }
    intent := finished.savable.intent }
  have sound : Sound move { world with
      memory := { world.memory with
        state := .complete
        error := world.memory.receipts.cancelled }
      journal := { world.memory with
        state := .complete
        error := world.memory.receipts.cancelled } } := {
    fits := { finished.savable.memory with }
    ended := by
      intro _
      refine ⟨fun isCancelled => ?_, finished.moved⟩
      obtain ⟨unintended, inUse⟩ := finished.cancelled isCancelled
      exact ⟨unintended, { inUse with }⟩ }
  apply achieves_bind.mpr
  apply achieves_edit finished.savable.sound
  apply achieves_save salvageable.sound sound salvageable.intent
  · exact {
      sound := sound
      complete := rfl
      cancelled := rfl }
  · exact fun _ => salvageable

variable {work : Work PUnit}

theorem achieves_launch
    (works : Achieves (duty move) work (fun _ => Finished move)
      (fun _ => Savable move) world) :
    Achieves (duty move) (launch work) (fun _ => Sound move)
      (fun _ => Sound move) world := by
  apply achieves_tryCatch.mpr
  apply achieves_bind.mpr
  apply works.mono
  · intro _ later finished
    apply (achieves_settle finished).mono
    · exact fun _ _ settled => settled.sound
    · exact fun _ _ salvageable =>
        achieves_fail _ _ salvageable
  · exact fun _ _ savable =>
      achieves_fail _ _ savable.salvageable

/-- A recovery that reports its end has journaled it. -/
theorem achieves_recoverOperation
    (reviewed : move.Reviewed)
    (owned : Owned move world) :
    Achieves (duty move) recoverOperation
      (fun _ => Settled move (some originalRetained))
      (fun _ => Sound move) world := by
  have handles : ∀ (failure : Failure) (later : World),
      Salvageable move later →
        Achieves (duty move) (do
            edit fun operation =>
              { operation with
                state := .failed
                error := some (failure.journaled "recovery_failed") }
            save
            throw failure : Work PUnit)
          (fun _ => Settled move (some originalRetained))
          (fun _ => Sound move) later := by
    intro failure later salvageable
    have fails := achieves_bind.mp (achieves_fail
      (some (failure.journaled "recovery_failed")) MoveOperation.detail
      salvageable)
    apply achieves_bind.mpr
    apply fails.mono
    · intro _ later saves
      apply achieves_bind.mpr
      exact saves.mono (fun _ _ sound => sound) fun _ _ sound => sound
    · exact fun _ _ sound => sound
  apply achieves_tryCatch.mpr
  apply achieves_bind.mpr
  apply (achieves_recoverMove reviewed owned).mono
  · intro _ later returned
    have settles := achieves_settle returned.finished
    rw [returned.cancelled] at settles
    exact settles.mono (fun _ _ settled => settled) handles
  · exact fun failure later savable =>
      handles failure later savable.salvageable

theorem achieves_run
    (reviewed : move.Reviewed)
    (owned : Owned move world)
    (journaled : "move-checkpoint" ∈ world.memory.completed →
      "move-checkpoint" ∈ world.journal.completed) :
    Achieves (duty move) (run move.places) (fun _ => Finished move)
      (fun _ => Savable move) world := by
  apply achieves_bind.mpr
  apply achieves_readMemory owned.sound
  apply achieves_bind.mpr
  apply achieves_getReview owned.sound
  dsimp only
  split
  · exact (achieves_recoverMove reviewed owned).mono
      (fun _ _ returned => returned.finished) fun _ _ savable => savable
  · rename_i forward
    apply (achieves_moveForward reviewed owned.memory.id _).mono
    · exact fun _ _ late => late.finished
    · exact fun _ _ savable => savable
    · exact {
        owned := owned
        forward := Bool.not_eq_true _ ▸ forward
        journaled := journaled
        secured := by simp
        fenced := by simp
        switched := by simp }

theorem achieves_resumeOperation
    (reviewed : move.Reviewed)
    (owned : Owned move world) :
    Achieves (duty move) (resumeOperation move.places) (fun _ => Sound move)
      (fun _ => Sound move) world := by
  have resumed : Noted world.memory { world.memory with
      state := .running
      error := none
      detail := none } := {
    id := rfl
    state := .inl (by simp)
    writesIntent := rfl
    recoveryIntent := rfl
    cancelled := rfl
    completed := fun _ member => member
    started := .inl
    checkpointed := id
    switched := id }
  have noted := (calm_owned move).noted owned resumed
  have saved := (calm_owned move).saved noted
  apply achieves_bind.mpr
  apply achieves_edit owned.sound
  apply achieves_bind.mpr
  apply achieves_save noted.sound saved.sound noted.intent.trans
  · exact achieves_launch (achieves_run reviewed saved id)
  · exact fun _ => noted.sound

theorem Sound.disturb
    (sound : Sound move world)
    (disturbance : Disturbance) :
    Sound move (world.disturb disturbance) := by
  have fits := sound.fits.disturb id disturbance
  obtain ⟨_, _, _, _, _, eq⟩ := world.disturb_eq disturbance
  rw [eq] at fits ⊢
  refine ⟨fits, fun isComplete => ?_⟩
  obtain ⟨cancelled, moved⟩ := sound.ended isComplete
  refine ⟨fun isCancelled => ?_, moved⟩
  obtain ⟨unintended, inUse⟩ := cancelled isCancelled
  exact ⟨unintended, { inUse with }⟩

theorem MoveOperation.interrupt_eq
    (operation : MoveOperation) :
    ∃ state error,
      operation.interrupt =
          { operation with state := state, error := error } ∧
        (state = .complete → operation.state = .complete) := by
  rw [MoveOperation.interrupt]
  split
  · exact ⟨_, _, rfl, by simp⟩
  · exact ⟨_, _, rfl, fun same => same⟩

theorem Sound.restart
    (sound : Sound move world) :
    Sound move world.restart := by
  obtain ⟨state, error, eq, open_⟩ := world.journal.interrupt_eq
  rw [World.restart, eq]
  constructor
  · exact { sound.fits with
      stopped := by
        rintro (marked | asked)
        · exact sound.fits.stopped (.inl marked)
        · simp at asked
      stops := by simp }
  · intro isComplete
    obtain ⟨cancelled, moved⟩ := sound.ended (open_ isComplete)
    refine ⟨fun isCancelled => ?_, moved⟩
    obtain ⟨unintended, inUse⟩ := cancelled isCancelled
    exact ⟨unintended, { inUse with }⟩

/-- The world is sound and what executes stays guarded. -/
structure Working
    (move : Move)
    (after : Except Failure PUnit → World → Prop)
    (system : System) : Prop where
  sound : Sound move system.world
  executes : ∀ remaining, system.executing = some remaining →
    Guarded (duty move) remaining after system.world

/-- A step leaves a guarded program or has ended it as it should. -/
structure Carries
    (move : Move)
    (after : Except Failure PUnit → World → Prop)
    (outcome : System × Response) : Prop where
  working : Working move after outcome.1
  ended : ∀ result, outcome.2 = .ended result → after result outcome.1.world

variable {response : Response}

theorem carries_continue
    {after : Except Failure PUnit → World → Prop}
    {remaining : Remaining}
    (notYet : ∀ result, response ≠ .ended result)
    (sound : Sound move world)
    (guarded : Guarded (duty move) remaining after world) :
    Carries move after (System.continue world remaining response) := by
  cases remaining with
  | done result =>
      refine ⟨⟨sound, by rintro _ ⟨⟩⟩, ?_⟩
      rintro _ ⟨⟩
      exact guarded
  | perform action next =>
      refine ⟨⟨sound, ?_⟩, fun result ended => absurd ended (notYet result)⟩
      rintro _ ⟨⟩
      exact guarded

theorem Sound.owned
    (sound : Sound move world)
    (recoverable : world.journal.isRecoverable = true) :
    Owned move { world with memory := world.journal } := by
  have isOpen : world.journal.state ≠ .complete := by
    intro closed
    rw [MoveOperation.isRecoverable, closed] at recoverable
    simp at recoverable
  exact {
    journal := { sound.fits with }
    memory := { sound.fits with }
    intent := rfl
    journalOpen := isOpen
    memoryOpen := isOpen }

theorem Working.disturb
    {after : Except Failure PUnit → World → Prop}
    (ends : ∀ result, Stable setting (after result))
    {system : System}
    (working : Working move after system)
    (awaits : awaiting system.executing = true)
    (disturbance : Disturbance) :
    Working move after
      { system with world := system.world.disturb disturbance } where
  sound := working.sound.disturb disturbance
  executes := by
    intro remaining isRemaining
    have guarded := working.executes remaining isRemaining
    cases remaining with
    | done result =>
        exact ends result system.world disturbance guarded
    | perform action next =>
        change system.executing = _ at isRemaining
        rw [isRemaining] at awaits
        exact guarded.disturbed awaits disturbance

variable {after : Except Failure PUnit → World → Prop} {system : System}

theorem Working.carries
    (working : Working move after system)
    (notYet : ∀ result, response ≠ .ended result) :
    Carries move after (system, response) where
  working := working
  ended := fun result ended => absurd ended (notYet result)

theorem Working.advance
    (working : Working move after system)
    (fate : Fate) :
    Carries move after (system.perform move.places (.advance fate)) := by
  cases isExecuting : system.executing with
  | none =>
      rw [System.perform, isExecuting]
      exact working.carries (by simp)
  | some remaining =>
      have guarded := working.executes remaining isExecuting
      cases remaining with
      | done result =>
          rw [System.perform, isExecuting]
          exact working.carries (by simp)
      | perform action next =>
          rw [System.perform, isExecuting]
          obtain ⟨sound, _, rest⟩ := guarded [] (fun _ => rfl) fate
          exact carries_continue (by simp) sound rest

theorem Working.disturbed
    (ends : ∀ result, Stable setting (after result))
    (working : Working move after system)
    (disturbance : Disturbance) :
    Carries move after
      (system.perform move.places (.disturb disturbance)) := by
  rw [System.perform]
  split
  · rename_i awaits
    exact (working.disturb ends awaits disturbance).carries (by simp)
  · exact working.carries (by simp)

theorem World.stopAnswer_ne_ended
    (world : World)
    (result : Except Failure PUnit) :
    world.stopAnswer ≠ .ended result := by
  rw [World.stopAnswer]
  split
  · simp
  · split
    · simp
    · simp

theorem Working.stopped
    (ends : ∀ result, Stable setting (after result))
    (working : Working move after system) :
    Carries move after (system.perform move.places .stop) := by
  rw [System.perform]
  split
  · rename_i awaits
    exact (working.disturb ends awaits .stopAccepted).carries
      (World.stopAnswer_ne_ended _)
  · exact working.carries (by simp)

theorem Working.begins
    (working : Working move after system)
    (work : Work PUnit) :
    system.begin work =
        (system, .refused { code := "operation_not_recoverable" }) ∨
      ∃ world, Owned move world ∧
        system.begin work = System.continue world work.run .begun := by
  rw [System.begin]
  split
  · exact .inl rfl
  · rename_i allowed
    rw [not_or, Bool.not_eq_true, Bool.not_eq_true, Bool.not_eq_false'] at allowed
    exact .inr ⟨_, working.sound.owned allowed.2, rfl⟩

theorem stable_sound
    (move : Move) :
    Stable setting (Sound move) :=
  fun _ disturbance sound => sound.disturb disturbance

theorem guarded_of_achieves
    (works : Achieves (duty move) work (fun _ => Sound move)
      (fun _ => Sound move) world) :
    Guarded (duty move) work.run (fun _ => Sound move) world := by
  apply Guarded.mono works
  rintro (failure | result) later sound
  · exact sound
  · exact sound

theorem Working.requested
    (working : Working move (fun _ => Sound move) system)
    (works : ∀ world, Owned move world →
      Achieves (duty move) work (fun _ => Sound move) (fun _ => Sound move)
        world) :
    Working move (fun _ => Sound move) (system.begin work).1 := by
  rcases working.begins work with refused | ⟨world, owned, begun⟩
  · rw [refused]
    exact working
  · rw [begun]
    exact (carries_continue (by simp) owned.sound
      (guarded_of_achieves (works world owned))).working

theorem working_perform
    (reviewed : move.Reviewed)
    (working : Working move (fun _ => Sound move) system)
    (step : Step) :
    Working move (fun _ => Sound move)
      (system.perform move.places step).1 := by
  have stable : Except Failure PUnit → Stable setting (Sound move) :=
    fun _ => stable_sound move
  cases step with
  | advance fate =>
      exact (working.advance fate).working
  | disturb disturbance =>
      exact (working.disturbed stable disturbance).working
  | stop =>
      exact (working.stopped stable).working
  | resume =>
      exact working.requested fun _ => achieves_resumeOperation reviewed
  | recover =>
      apply working.requested
      intro world owned
      exact (achieves_recoverOperation reviewed owned).mono
        (fun _ _ settled => settled.sound) fun _ _ sound => sound
  | restart =>
      exact ⟨working.sound.restart, by rintro _ ⟨⟩⟩

/-- The library is where a reviewed move can start. -/
structure Move.Ready
    (move : Move)
    (world : World) : Prop where
  review : world.review = some move.review
  stack : world.stack = move.original
  /-- The operation is new: it has no recovery point and no request to stop. -/
  checkpoint : world.checkpoint = none
  stops : world.stops = 0
  helper : ∀ folders, world.helper = some folders →
    ∀ folder ∈ folders, overlap folder move.source = false
  /-- No server maps a folder that does not exist yet. -/
  notMoved : ¬world.RunsWith move.movedMount

/-- A new operation fits a library that is ready for it. -/
theorem Move.Ready.owned
    (ready : move.Ready world) :
    Owned move
      { world with
        journal := newMove move.id move.review
        memory := newMove move.id move.review } := by
  have fits : Fits move (newMove move.id move.review)
      { world with
        journal := newMove move.id move.review
        memory := newMove move.id move.review } := {
    id := rfl
    review := ready.review
    helper := ready.helper
    stack := .inl ready.stack
    checkpoint := .inl ready.checkpoint
    exclusive := by simp [newMove]
    stopped := fun _ => rfl
    stops := fun pending => absurd ready.stops pending
    started := by simp [newMove]
    cancelled := by simp [newMove]
    stackMoved := by simp [newMove]
    switched := by simp [newMove]
    checkpointed := by simp [newMove]
    prepared := fun differs => absurd ready.stack differs
    notMoved := fun _ => ready.notMoved
    notOriginal := by simp [newMove] }
  exact {
    journal := fits
    memory := fits
    intent := rfl
    journalOpen := by simp [newMove]
    memoryOpen := by simp [newMove] }

theorem Move.Ready.working
    (reviewed : move.Reviewed)
    (ready : move.Ready world)
    {now : ℤ}
    (started : System.start move.places world move.id now = .ok system) :
    Working move (fun _ => Sound move) system := by
  have owned := ready.owned
  have reviewIs := ready.review
  rw [System.start] at started
  split at started
  · cases started
  · rename_i review found
    obtain rfl : move.review = review :=
      Option.some.inj (reviewIs.symm.trans found)
    cases isMovable : movable world.installation with
    | error failure =>
        rw [isMovable] at started
        cases started
    | ok installation =>
        rw [isMovable] at started
        change (if _ then _ else _) = _ at started
        split at started
        · cases started
        · cases started
          have launches := achieves_launch
            (achieves_run reviewed owned fun member => member)
          exact (carries_continue (by simp) owned.sound
            (guarded_of_achieves launches)).working

/-- The steps work on what executes until it ends, in one process. -/
def Finishes
    (places : Places)
    (result : Except Failure PUnit) : System → List Step → Prop
  | _, [] =>
      False
  | system, [step] =>
      step ≠ .restart ∧ (system.perform places step).2 = .ended result
  | system, step :: rest =>
      step ≠ .restart ∧
        (∀ other, (system.perform places step).2 ≠ .ended other) ∧
          Finishes places result (system.perform places step).1 rest

theorem System.begin_busy
    (busy : system.executing.isSome = true)
    (work : Work PUnit) :
    system.begin work =
      (system, .refused { code := "operation_not_recoverable" }) := by
  rw [System.begin]
  exact if_pos (.inl busy)

theorem busy_continue
    {remaining : Remaining}
    (notYet : ∀ result,
      (System.continue world remaining response).2 ≠ .ended result) :
    (System.continue world remaining response).1.executing.isSome = true := by
  cases remaining with
  | done result =>
      exact absurd rfl (notYet result)
  | perform action next =>
      rfl

theorem carries_perform
    (ends : ∀ result, Stable setting (after result))
    (working : Working move after system)
    (busy : system.executing.isSome = true)
    {step : Step}
    (sameProcess : step ≠ .restart) :
    Carries move after (system.perform move.places step) := by
  cases step with
  | advance fate =>
      exact working.advance fate
  | disturb disturbance =>
      exact working.disturbed ends disturbance
  | stop =>
      exact working.stopped ends
  | resume =>
      rw [System.perform, System.begin_busy busy]
      exact working.carries (by simp)
  | recover =>
      rw [System.perform, System.begin_busy busy]
      exact working.carries (by simp)
  | restart =>
      exact absurd rfl sameProcess

/-- A process stays busy until what executes ends. -/
theorem busy_perform
    {places : Places}
    (busy : system.executing.isSome = true)
    {step : Step}
    (sameProcess : step ≠ .restart)
    (notYet : ∀ result, (system.perform places step).2 ≠ .ended result) :
    (system.perform places step).1.executing.isSome = true := by
  cases step with
  | advance fate =>
      cases isExecuting : system.executing with
      | none =>
          rw [isExecuting] at busy
          cases busy
      | some remaining =>
          cases remaining with
          | done result =>
              rw [System.perform, isExecuting]
              exact busy
          | perform action next =>
              rw [System.perform, isExecuting] at notYet ⊢
              exact busy_continue notYet
  | disturb disturbance =>
      rw [System.perform]
      split
      · exact busy
      · exact busy
  | stop =>
      rw [System.perform]
      split
      · exact busy
      · exact busy
  | resume =>
      rw [System.perform, System.begin_busy busy]
      exact busy
  | recover =>
      rw [System.perform, System.begin_busy busy]
      exact busy
  | restart =>
      exact absurd rfl sameProcess

theorem Working.finishes
    (ends : ∀ result, Stable setting (after result))
    {result : Except Failure PUnit}
    {steps : List Step}
    (working : Working move after system)
    (busy : system.executing.isSome = true)
    (finishes : Finishes move.places result system steps) :
    after result
      (finalState (System.perform move.places) system steps).world := by
  induction steps generalizing system with
  | nil =>
      exact finishes.elim
  | cons step rest inductionHypothesis =>
      cases rest with
      | nil =>
          obtain ⟨sameProcess, ended⟩ := finishes
          exact (carries_perform ends working busy sameProcess).ended result
            ended
      | cons next others =>
          obtain ⟨sameProcess, notYet, later⟩ := finishes
          exact inductionHypothesis
            (carries_perform ends working busy sameProcess).working
            (busy_perform busy sameProcess notYet) later

end Frameleaf.LibraryMove
