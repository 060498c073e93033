import Frameleaf.LibraryMove.StepLaws

namespace Frameleaf.LibraryMove

open Manager Programs Trace

/-!
# What every run of a library move keeps

A move starts from a reviewed library in its original folder.  Whatever happens
then, in any order and with any failure, the library has one place: the original
folder until the intent to write to the copy is journaled, and the copy after.
-/

variable {move : Move} {after : Except Failure PUnit → World → Prop}
variable {system : System}

/-- What a refused recovery journals. -/
def MoveOperation.refuseRecovery
    (operation : MoveOperation) : MoveOperation :=
  { operation with
    state := .failed
    error := some "media_move_reverse_required" }

/-- What a recovery still does after an intent. -/
def refusesRecovery : Remaining :=
  .perform (.edit MoveOperation.refuseRecovery) fun _ =>
    .perform .save fun
      | .ok _ => .done (.error (.code "media_move_reverse_required"))
      | .error failure => .done (.error failure)

theorem recoverOperation_refuses :
    ∃ next, recoverOperation.run = .perform .readMemory next ∧
      ∀ operation : MoveOperation, operation.receipts.writesIntent = true →
        next operation = refusesRecovery := by
  refine ⟨_, rfl, ?_⟩
  intro operation intended
  obtain ⟨id, reviewId, state, step, completed, error, detail, receipts⟩ :=
    operation
  obtain ⟨steps, writerPolicies, checkpointDump, destination, writesIntent,
    rest⟩ := receipts
  change writesIntent = true at intended
  subst intended
  change Program.perform _ _ = Program.perform _ _
  congr 1
  funext answer
  change Program.perform _ _ = Program.perform _ _
  congr 1
  funext answer
  cases answer with
  | ok _ => rfl
  | error failure => rfl

/-- A recovery after an intent ends refused and changes nothing else. -/
theorem recover_refused
    (places : Places)
    (system : System)
    (idle : system.executing = none)
    (recoverable : system.world.journal.isRecoverable = true)
    (intended : system.world.journal.receipts.writesIntent = true)
    (first second third : Fate) :
    let ended := finalState (System.perform places) system
      [.recover, .advance first, .advance second]
    let outcome := ended.perform places (.advance third)
    (∃ failure, outcome.2 = .ended (.error failure)) ∧
      outcome.1.executing = none ∧
      ∃ journal,
        (journal = system.world.journal ∨
          journal = system.world.journal.refuseRecovery) ∧
        outcome.1.world = { system.world with
          memory := system.world.journal.refuseRecovery
          journal := journal } := by
  obtain ⟨next, isRecovery, refuses⟩ := recoverOperation_refuses
  have begun : system.perform places .recover =
      ({ world := { system.world with memory := system.world.journal }
         executing := some (.perform .readMemory next) }, .begun) := by
    rw [System.perform, System.begin, isRecovery, idle, recoverable]
    rfl
  have recalled : finalState (System.perform places) system
      [.recover, .advance first, .advance second] =
      { world := { system.world with
          memory := system.world.journal.refuseRecovery }
        executing := some (.perform .save fun
          | .ok _ => .done (.error (.code "media_move_reverse_required"))
          | .error failure => .done (.error failure)) } := by
    have readMemory : (System.perform places
        { world := { system.world with memory := system.world.journal }
          executing := some (.perform .readMemory next) } (.advance first)).1 =
        { world := { system.world with memory := system.world.journal }
          executing := some refusesRecovery } := by
      have noted := refuses system.world.journal intended
      change (System.continue _ (next system.world.journal) _).1 = _
      rw [noted]
      rfl
    rw [finalState, begun, finalState, readMemory]
    rfl
  dsimp only
  rw [recalled]
  cases isFailing : third.failure with
  | none =>
      have saves : World.perform .save third { system.world with
          memory := system.world.journal.refuseRecovery } =
          (.ok ⟨⟩, { system.world with
            memory := system.world.journal.refuseRecovery
            journal := system.world.journal.refuseRecovery }) := by
        change Fate.statement _ _ _ = _
        rw [Fate.statement, isFailing]
        rfl
      rw [System.perform]
      dsimp only
      rw [saves]
      exact ⟨⟨_, rfl⟩, rfl, _, .inr rfl, rfl⟩
  | some failure =>
      have fails : World.perform .save third { system.world with
          memory := system.world.journal.refuseRecovery } =
          (.error failure, { system.world with
            memory := system.world.journal.refuseRecovery }) := by
        change Fate.statement _ _ _ = _
        rw [Fate.statement, isFailing]
        rfl
      rw [System.perform]
      dsimp only
      rw [fails]
      exact ⟨⟨_, rfl⟩, rfl, _, .inl rfl, rfl⟩

/-- Where the library is, and which way its move can go. -/
structure PlaceLaws
    (move : Move)
    (world : World) : Prop where
  /-- Until the intent is journaled no server runs at the copy. -/
  original : world.journal.receipts.writesIntent = false →
    ¬world.RunsWith move.movedMount
  /-- After it the library is at the copy and the move only goes forward. -/
  copy : world.journal.receipts.writesIntent = true →
    world.stack = move.moved ∧ ¬world.RunsWith move.mount ∧
      world.journal.receipts.recoveryIntent = false
  /-- A completed move that went back has the original folder in use. -/
  returned : world.journal.state = .complete →
    world.journal.receipts.cancelled ≠ none →
      world.journal.receipts.writesIntent = false ∧ InUse move world
  /-- A completed move that did not go back is at the copy. -/
  arrived : world.journal.state = .complete →
    world.journal.receipts.cancelled = none →
      world.journal.receipts.writesIntent = true
  /-- No intent is journaled while a request to stop is remembered. -/
  stopped : world.cancel = true ∨ world.stopping = true →
    world.journal.receipts.writesIntent = false

theorem Sound.placeLaws
    {world : World}
    (sound : Sound move world) :
    PlaceLaws move world where
  original := sound.fits.notMoved
  copy := fun intended =>
    ⟨sound.fits.stackMoved intended, sound.fits.notOriginal intended,
      sound.fits.exclusive intended⟩
  returned := fun isComplete => (sound.ended isComplete).1
  arrived := fun isComplete => (sound.ended isComplete).2
  stopped := sound.fits.stopped

theorem PlaceLaws.not_both
    {world : World}
    (laws : PlaceLaws move world) :
    ¬(world.RunsWith move.mount ∧ world.RunsWith move.movedMount) := by
  rintro ⟨atOriginal, atCopy⟩
  cases intended : world.journal.receipts.writesIntent with
  | false =>
      exact laws.original intended atCopy
  | true =>
      exact (laws.copy intended).2.1 atOriginal

/-- What a recovery from a state leads to. -/
structure RecoveryLaws
    (move : Move)
    (system : System) : Prop where
  returns : ∀ steps, (system.perform move.places .recover).2 = .begun →
    Finishes move.places (.ok ⟨⟩) (system.perform move.places .recover).1
        steps →
      InUse move (finalState (System.perform move.places)
        (system.perform move.places .recover).1 steps).world
  refuses : system.executing = none →
    system.world.journal.isRecoverable = true →
      system.world.journal.receipts.writesIntent = true →
        ∀ first second third,
          let ended := finalState (System.perform move.places) system
            [.recover, .advance first, .advance second]
          let outcome := ended.perform move.places (.advance third)
          (∃ failure, outcome.2 = .ended (.error failure)) ∧
            outcome.1.executing = none ∧
              ∃ journal,
                (journal = system.world.journal ∨
                  journal = system.world.journal.refuseRecovery) ∧
                outcome.1.world = { system.world with
                  memory := system.world.journal.refuseRecovery
                  journal := journal }

/-- How the program of a recovery ends. -/
def Recovered
    (move : Move) : Except Failure PUnit → World → Prop
  | .ok _ => Settled move (some originalRetained)
  | .error _ => Sound move

theorem stable_recovered
    (move : Move)
    (result : Except Failure PUnit) :
    Stable setting (Recovered move result) := by
  intro world disturbance recovered
  cases result with
  | error failure =>
      exact Sound.disturb recovered disturbance
  | ok _ =>
      have journal := (world.disturb_requests disturbance).1
      exact {
        sound := recovered.sound.disturb disturbance
        complete := by
          rw [journal]
          exact recovered.complete
        cancelled := by
          rw [journal]
          exact recovered.cancelled }

/-- A recovery that ends well leaves the original folder in use. -/
theorem Working.recovers
    (reviewed : move.Reviewed)
    (working : Working move after system) :
    RecoveryLaws move system where
  refuses := recover_refused move.places system
  returns := by
    intro steps begun finishes
    have begins : system.perform move.places .recover =
        system.begin recoverOperation := rfl
    rw [begins] at begun finishes ⊢
    rcases working.begins recoverOperation with refused | ⟨world, owned, begins⟩
    · rw [refused] at begun
      cases begun
    · rw [begins] at finishes ⊢
      have guarded : Guarded (duty move) recoverOperation.run (Recovered move)
          world := by
        apply Guarded.mono (achieves_recoverOperation reviewed owned)
        rintro (failure | result) later holds
        · exact holds
        · exact holds
      have carries : Carries move (Recovered move)
          (System.continue world recoverOperation.run .begun) :=
        carries_continue (by simp) owned.sound guarded
      have busy : (System.continue world recoverOperation.run
          .begun).1.executing.isSome = true := by
        obtain ⟨next, isRecovery, _⟩ := recoverOperation_refuses
        rw [isRecovery]
        rfl
      have settled := carries.working.finishes (stable_recovered move) busy
        finishes
      exact (settled.sound.ended settled.complete).1
        (by simp [settled.cancelled]) |>.2

/-- What holds of a run of a library move. -/
structure MoveLaws
    (move : Move)
    (begun : System)
    (steps : List Step) : Prop where
  places : PlaceLaws move
    (finalState (System.perform move.places) begun steps).world
  /-- No server runs at both folders. -/
  notBoth :
    let reached := finalState (System.perform move.places) begun steps
    ¬(reached.world.RunsWith move.mount ∧
      reached.world.RunsWith move.movedMount)
  happens : ∀ happened ∈ trace (System.perform move.places) begun steps,
    StepLaws move happened
  recovery : RecoveryLaws move
    (finalState (System.perform move.places) begun steps)

/-- Every run of a reviewed move keeps the library in one place. -/
theorem moveLaws
    (reviewed : move.Reviewed)
    {world : World}
    (ready : move.Ready world)
    {now : ℤ}
    (started : System.start move.places world move.id now = .ok system)
    (steps : List Step) :
    MoveLaws move system steps := by
  have initially := ready.working reviewed started
  have kept : ∀ before step, Working move (fun _ => Sound move) before →
      Working move (fun _ => Sound move)
        (before.perform move.places step).1 :=
    fun _ step working => working_perform reviewed working step
  have working : Working move (fun _ => Sound move)
      (finalState (System.perform move.places) system steps) :=
    invariant_of_kept kept initially
  have places := working.sound.placeLaws
  exact {
    places := places
    notBoth := places.not_both
    happens := by
      intro happened member
      obtain ⟨earlier, step, _, _, rfl⟩ := exists_split_of_mem_trace member
      exact stepLaws_perform (invariant_of_kept kept initially) step
    recovery := working.recovers reviewed }

/-- The library's mapping in a small installation. -/
def photos : Mount where
  type := .bind
  source := ["old", "photos"]
  target := ["data"]
  readOnly := false

/-- The stack of a small installation. -/
def smallStack : Compose :=
  [{ name := serverService
     restart := { name := "always" }
     volumes := [photos] },
   { name := "database"
     restart := { name := "always" }
     volumes := [] }]

/-- The move of a small installation to a new drive. -/
def smallMove : Move where
  places := { directory := ["manager"], backups := ["backups"] }
  review := {
    id := "review"
    expires := 10
    current := {
      id := "home"
      project := "frameleaf"
      mounts := [photos]
      databaseRoot := ["database"] }
    root := ["new"]
    sourceIdentity := ""
    rootIdentity := ""
    files := 0
    bytes := 0 }
  id := "move"
  original := smallStack

/-- The world of a small installation that runs. -/
def smallWorld : World where
  review := some smallMove.review
  journal := newMove smallMove.id smallMove.review
  installation := some smallMove.review.current
  retained := none
  stack := smallStack
  checkpoint := none
  cancel := false
  containers := smallStack.map fun service => service.up []
  helper := none
  files := fun _ => none
  memory := newMove smallMove.id smallMove.review
  stopping := false
  stops := 0

/-- The move of the small installation after it is started. -/
def smallStart : System :=
  (System.continue smallWorld (launch (run smallMove.places)).run .begun).1

/-- The steps of a move that is stopped once its writers are stopped. -/
def stoppedSteps : List Step :=
  .replicate 26 (.advance {}) ++ .stop :: .replicate 63 (.advance {})

theorem smallMove_reviewed :
    smallMove.Reviewed where
  apart := by decide
  maps := ⟨_, rfl, by decide⟩
  fresh := by decide

theorem smallMove_ready :
    smallMove.Ready smallWorld where
  review := rfl
  stack := rfl
  checkpoint := rfl
  stops := rfl
  helper := by rintro _ ⟨⟩
  notMoved := by decide

/-- The laws hold of a move that is stopped on its way. -/
theorem moveLaws_of_stopped :
    MoveLaws smallMove smallStart stoppedSteps := by
  have started : System.start smallMove.places smallWorld smallMove.id 0 =
      .ok smallStart := rfl
  exact moveLaws smallMove_reviewed smallMove_ready started stoppedSteps

/-- A stopped move ends before its intent and leaves the library stopped. -/
theorem stop_alone_leaves_the_library_stopped :
    ¬∀ (move : Move) (world : World) (now : ℤ) (system : System)
        (steps : List Step),
      move.Reviewed → move.Ready world →
        System.start move.places world move.id now = .ok system →
          let reached := finalState (System.perform move.places) system steps
          (∃ happened ∈ trace (System.perform move.places) system steps,
            happened.response = .accepted) →
            reached.executing = none →
              reached.world.journal.receipts.writesIntent = false →
                InUse move reached.world := by
  intro claim
  have stops : ((trace (System.perform smallMove.places) smallStart
      stoppedSteps).any fun happened =>
        happened.response matches .accepted) = true := by
    decide +kernel
  have ends : (finalState (System.perform smallMove.places) smallStart
      stoppedSteps).executing.isNone = true := by
    decide +kernel
  have unintended : (finalState (System.perform smallMove.places) smallStart
      stoppedSteps).world.journal.receipts.writesIntent = false := by
    decide +kernel
  have stopped : ¬(finalState (System.perform smallMove.places) smallStart
      stoppedSteps).world.RunsWith smallMove.mount := by
    decide +kernel
  obtain ⟨happened, member, isAccepted⟩ := List.any_eq_true.mp stops
  have accepted : happened.response = .accepted := by
    cases isResponse : happened.response with
    | accepted => rfl
    | _ =>
        rw [isResponse] at isAccepted
        cases isAccepted
  have inUse := claim smallMove smallWorld 0 smallStart stoppedSteps
    smallMove_reviewed smallMove_ready rfl ⟨happened, member, accepted⟩
    (Option.isNone_iff_eq_none.mp ends) unintended
  exact stopped inUse.runs

end Frameleaf.LibraryMove
