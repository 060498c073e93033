import Frameleaf.LibraryMove.Working

namespace Frameleaf.LibraryMove

open Manager Programs Trace

/-!
# What a single step of a library move does

Only the library's own running containers change its original folder, an intent
that is journaled stays, and what was asked of the move is remembered.
-/

variable {move : Move} {after : Except Failure PUnit → World → Prop}
variable {system : System}

/-- What was asked of a move. -/
structure SameRequests
    (before after : World) : Prop where
  cancel : after.cancel = before.cancel
  stopping : after.stopping = before.stopping

theorem Fate.attempt_requests
    {α : Type}
    (fate : Fate)
    (value : α)
    {before later : World}
    (same : SameRequests before later) :
    SameRequests before (fate.attempt value before later).2 := by
  rcases fate.attempt_cases value before later with
    outcome | ⟨_, outcome | outcome⟩
  · rw [outcome]
    exact same
  · rw [outcome]
    exact same
  · rw [outcome]
    exact ⟨rfl, rfl⟩

theorem Fate.statement_requests
    (fate : Fate)
    {before later : World}
    (same : SameRequests before later) :
    SameRequests before (fate.statement before later).2 := by
  rcases fate.statement_cases before later with outcome | ⟨_, outcome⟩
  · rw [outcome]
    exact same
  · rw [outcome]
    exact ⟨rfl, rfl⟩

theorem Fate.read_requests
    {α : Type}
    (fate : Fate)
    (value : α)
    (world : World) :
    SameRequests world (fate.read value world).2 := by
  rcases fate.read_cases value world with outcome | ⟨_, outcome⟩
  · rw [outcome]
    exact ⟨rfl, rfl⟩
  · rw [outcome]
    exact ⟨rfl, rfl⟩

theorem World.help_requests
    (world : World)
    (fate : Fate)
    (action : HelperAction)
    (destination : Path) :
    SameRequests world (world.help fate action destination).2 := by
  rw [World.help]
  split
  · exact ⟨rfl, rfl⟩
  · dsimp only
    rw [World.writeIn_eq]
    split
    · exact ⟨rfl, rfl⟩
    · exact ⟨rfl, rfl⟩

/-- No action changes what was asked of the move. -/
theorem World.perform_requests
    (world : World)
    (action : Action)
    (fate : Fate) :
    SameRequests world (World.perform action fate world).2 := by
  cases action with
  | readMemory | edit | getReview | getInstallation | deadline =>
      exact ⟨rfl, rfl⟩
  | save | setInstallation | setRetained =>
      exact fate.statement_requests ⟨rfl, rfl⟩
  | verify | identify | isCancelled | inventory | readCheckpoint | readStack
  | isHelping | ask =>
      exact fate.read_requests _ world
  | restartPolicy | stopContainer | writeStack | copyCompose =>
      exact fate.attempt_requests _ ⟨rfl, rfl⟩
  | composeUp services =>
      change SameRequests world (world.composeUp fate services).2
      unfold World.composeUp
      split
      · cases services with
        | nil =>
            exact ⟨rfl, rfl⟩
        | cons first others =>
            exact ⟨rfl, rfl⟩
      · exact ⟨rfl, rfl⟩
  | makeDirectory path =>
      rw [World.perform]
      split
      · exact fate.read_requests _ world
      · exact fate.attempt_requests _ ⟨rfl, rfl⟩
  | help action destination =>
      exact world.help_requests fate action destination

/-- Continuing a program keeps the world. -/
@[simp] theorem System.continue_world
    (world : World)
    (remaining : Remaining)
    (response : Response) :
    (System.continue world remaining response).1.world = world := by
  cases remaining with
  | done result =>
      rfl
  | perform action next =>
      rfl

/-- What a single step does to the original folder and to what was asked. -/
structure StepLaws
    (move : Move)
    (entry : Entry System Step Response) : Prop where
  /-- A journaled intent is never taken back. -/
  forward : entry.before.world.journal.receipts.writesIntent = true →
    entry.after.world.journal.receipts.writesIntent = true
  /-- Only a running container of the library changes its original folder. -/
  intact : ∀ path, move.source.isPrefixOf path = true →
    entry.after.world.files path ≠ entry.before.world.files path →
      ∃ content, entry.step = .disturb (.serverWrites path content) ∧
        entry.before.world.containers.any (·.canWrite path) = true
  /-- A request to stop is accepted only without an intent. -/
  accepted : entry.response = .accepted →
    entry.before.world.journal.receipts.writesIntent = false ∧
      entry.after.world.stopping = true
  /-- A request is remembered while its process lives. -/
  asked : entry.before.world.stopping = true → entry.step ≠ .restart →
    entry.after.world.stopping = true
  /-- A marker that is written stays. -/
  marked : entry.before.world.cancel = true → entry.after.world.cancel = true

theorem stepLaws_memory
    {happened : Entry System Step Response}
    {operation : MoveOperation}
    (same : happened.after.world =
      { happened.before.world with memory := operation })
    (notAccepted : happened.response ≠ .accepted) :
    StepLaws move happened where
  forward := by
    rw [same]
    exact id
  intact := by
    intro path _ differs
    rw [same] at differs
    exact absurd rfl differs
  accepted := fun accepted => absurd accepted notAccepted
  asked := by
    rw [same]
    exact fun asked _ => asked
  marked := by
    rw [same]
    exact id

theorem stepLaws_begin
    (places : Places)
    {step : Step}
    {work : Work PUnit}
    (same : system.perform places step = system.begin work) :
    StepLaws move (entry (System.perform places) system step) := by
  have begins : ∃ operation,
      (system.begin work).1.world = { system.world with memory := operation } ∧
        (system.begin work).2 ≠ .accepted := by
    rw [System.begin]
    split
    · exact ⟨system.world.memory, rfl, by simp⟩
    · refine ⟨system.world.journal, System.continue_world _ _ _, ?_⟩
      cases work.run with
      | done result =>
          simp [System.continue]
      | perform action next =>
          simp [System.continue]
  obtain ⟨operation, memory, notAccepted⟩ := begins
  rw [← same] at memory notAccepted
  exact stepLaws_memory memory notAccepted

/-- Performing an action obeys the laws of a step. -/
theorem stepLaws_advance
    (working : Working move after system)
    (fate : Fate) :
    StepLaws move
      (entry (System.perform move.places) system (.advance fate)) := by
  have silent : ∀ outcome : System × Response,
      outcome = (system, .silent) → StepLaws move {
        before := system
        step := .advance fate
        response := outcome.2
        after := outcome.1 } := by
    rintro _ rfl
    exact stepLaws_memory rfl (by simp)
  cases isExecuting : system.executing with
  | none =>
      apply silent
      rw [System.perform, isExecuting]
  | some remaining =>
      have guarded := working.executes remaining isExecuting
      cases remaining with
      | done result =>
          apply silent
          rw [System.perform, isExecuting]
      | perform action next =>
          obtain ⟨_, lasting, _⟩ := guarded [] (fun _ => rfl) fate
          have requests := system.world.perform_requests action fate
          have performed : System.perform move.places system (.advance fate) =
              System.continue (World.perform action fate system.world).2
                (next (World.perform action fate system.world).1) .silent := by
            rw [System.perform, isExecuting]
          have world : (entry (System.perform move.places) system
              (.advance fate)).after.world =
                (World.perform action fate system.world).2 := by
            rw [entry, performed]
            exact System.continue_world _ _ _
          exact {
            forward := by
              rw [world]
              exact lasting.intent
            intact := by
              intro path inSource differs
              rw [world] at differs
              exact absurd (lasting.untouched path inSource) differs
            accepted := by
              rw [entry, performed]
              cases next (World.perform action fate system.world).1 with
              | done result =>
                  simp [System.continue]
              | perform action next =>
                  simp [System.continue]
            asked := by
              rw [world, requests.stopping]
              exact fun asked _ => asked
            marked := by
              rw [world, requests.cancel]
              exact id }

/-- Others change neither the journal nor what has been asked before. -/
theorem World.disturb_requests
    (world : World)
    (disturbance : Disturbance) :
    (world.disturb disturbance).journal = world.journal ∧
      (world.stopping = true →
        (world.disturb disturbance).stopping = true) ∧
      (world.cancel = true → (world.disturb disturbance).cancel = true) := by
  cases disturbance with
  | stopAccepted =>
      rw [World.disturb]
      split
      · exact ⟨rfl, id, id⟩
      · exact ⟨rfl, fun _ => rfl, id⟩
  | stopMarked written =>
      rw [World.disturb]
      split
      · exact ⟨rfl, id, id⟩
      · refine ⟨rfl, id, fun marked => ?_⟩
        rw [marked]
        rfl
  | serverWrites path entry =>
      rw [World.disturb]
      split
      · exact ⟨rfl, id, id⟩
      · exact ⟨rfl, id, id⟩
  | helperWrites path entry =>
      rw [World.disturb]
      split
      · rw [World.writeIn_eq]
        exact ⟨rfl, id, id⟩
      · exact ⟨rfl, id, id⟩
  | helperEnds =>
      exact ⟨rfl, id, id⟩

/-- Of all others only a container changes the original folder. -/
theorem Sound.disturb_files
    {world : World}
    (sound : Sound move world)
    {disturbance : Disturbance}
    {path : Path}
    (inSource : move.source.isPrefixOf path = true)
    (differs : (world.disturb disturbance).files path ≠ world.files path) :
    ∃ content, disturbance = .serverWrites path content ∧
      world.containers.any (·.canWrite path) = true := by
  cases disturbance with
  | stopAccepted =>
      rw [World.disturb] at differs
      split at differs
      · exact absurd rfl differs
      · exact absurd rfl differs
  | stopMarked written =>
      rw [World.disturb] at differs
      split at differs
      · exact absurd rfl differs
      · exact absurd rfl differs
  | serverWrites other entry =>
      rw [World.disturb] at differs
      split at differs
      · rename_i canWrite
        have same : path = other := by
          by_contra different
          exact differs (if_neg different)
        exact ⟨entry, by rw [same], same ▸ canWrite⟩
      · exact absurd rfl differs
  | helperWrites other entry =>
      rw [World.disturb] at differs
      split at differs
      · rename_i folders isHelping
        exact absurd
          (untouched_writeIn world (sound.fits.helper folders isHelping) _ path
            inSource) differs
      · exact absurd rfl differs
  | helperEnds =>
      exact absurd rfl differs

/-- What others do obeys the laws of a step. -/
theorem stepLaws_disturb
    (places : Places)
    (sound : Sound move system.world)
    (disturbance : Disturbance) :
    StepLaws move
      (entry (System.perform places) system (.disturb disturbance)) := by
  obtain ⟨journal, asked, marked⟩ := system.world.disturb_requests disturbance
  by_cases awaits : awaiting system.executing = true
  · have performed : system.perform places (.disturb disturbance) =
        ({ system with world := system.world.disturb disturbance },
          .silent) := by
      rw [System.perform, if_pos awaits]
    rw [entry, performed]
    exact {
      forward := by
        rw [journal]
        exact id
      intact := by
        intro path inSource differs
        obtain ⟨content, rfl, canWrite⟩ := sound.disturb_files inSource differs
        exact ⟨content, rfl, canWrite⟩
      accepted := by simp
      asked := fun before _ => asked before
      marked := marked }
  · have performed : system.perform places (.disturb disturbance) =
        (system, .silent) := by
      rw [System.perform, if_neg awaits]
    rw [entry, performed]
    exact stepLaws_memory rfl (by simp)

/-- A request to stop obeys the laws of a step. -/
theorem stepLaws_stop
    (places : Places)
    (sound : Sound move system.world) :
    StepLaws move (entry (System.perform places) system .stop) := by
  obtain ⟨journal, asked, marked⟩ := system.world.disturb_requests .stopAccepted
  by_cases awaits : awaiting system.executing = true
  · have performed : system.perform places .stop =
        ({ system with world := system.world.disturb .stopAccepted },
          system.world.stopAnswer) := by
      rw [System.perform, if_pos awaits]
    rw [entry, performed]
    exact {
      forward := by
        rw [journal]
        exact id
      intact := by
        intro path inSource differs
        obtain ⟨_, impossible, _⟩ := sound.disturb_files inSource differs
        cases impossible
      accepted := by
        intro accepted
        change system.world.stopAnswer = .accepted at accepted
        rw [World.stopAnswer] at accepted
        split at accepted
        · cases accepted
        · rename_i isOpen
          split at accepted
          · cases accepted
          · rename_i unintended
            refine ⟨Bool.not_eq_true _ ▸ unintended, ?_⟩
            change (World.disturb _ _).stopping = true
            rw [World.disturb, if_neg (not_or.mpr ⟨isOpen, unintended⟩)]
      asked := fun before _ => asked before
      marked := marked }
  · have performed : system.perform places .stop = (system, .silent) := by
      rw [System.perform, if_neg awaits]
    rw [entry, performed]
    exact stepLaws_memory rfl (by simp)

/-- Every step obeys the laws of a step. -/
theorem stepLaws_perform
    (working : Working move after system)
    (step : Step) :
    StepLaws move (entry (System.perform move.places) system step) := by
  cases step with
  | advance fate =>
      exact stepLaws_advance working fate
  | disturb disturbance =>
      exact stepLaws_disturb move.places working.sound disturbance
  | stop =>
      exact stepLaws_stop move.places working.sound
  | resume =>
      have begins : system.perform move.places .resume =
          system.begin (resumeOperation move.places) := rfl
      exact stepLaws_begin move.places begins
  | recover =>
      have begins : system.perform move.places .recover =
          system.begin recoverOperation := rfl
      exact stepLaws_begin move.places begins
  | restart =>
      obtain ⟨_, _, same, _⟩ := system.world.journal.interrupt_eq
      exact {
        forward := by
          change _ → system.world.journal.interrupt.receipts.writesIntent = true
          rw [same]
          exact id
        intact := fun _ _ differs => absurd rfl differs
        accepted := by
          intro accepted
          cases accepted
        asked := fun _ differs => absurd rfl differs
        marked := id }

end Frameleaf.LibraryMove
