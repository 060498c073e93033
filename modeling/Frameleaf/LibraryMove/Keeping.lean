import Frameleaf.LibraryMove.Invariant

namespace Frameleaf.LibraryMove

open Manager Programs

/-!
# Work that keeps what is known

Most work on a move reads, verifies, takes notes or puts restart policies back.
Such work keeps every steady property of the world, also when it fails and
whatever others do meanwhile.
-/

/-- A property that reading, noting and saving cannot make false. -/
structure Steady
    (move : Move)
    (property : World → Prop) : Prop where
  stable : Stable setting property
  owned : ∀ {world}, property world → Owned move world
  quiet : ∀ {before after}, property before → Quiet move before after →
    property after
  noted : ∀ {world operation}, property world →
    Noted world.memory operation → property { world with memory := operation }
  saved : ∀ {world}, property world →
    property { world with journal := world.memory }
  policies : ∀ {world} service policy, property world →
    property (world.changeContainer service fun container =>
      { container with restart := policy })

/-- Stopping containers cannot make the property false either. -/
structure Calm
    (move : Move)
    (property : World → Prop) : Prop extends Steady move property where
  calmed : ∀ {before after}, property before → Calmed before after →
    property after

/-- The work keeps a property, whether it fails or not. -/
def Keeps {α : Type}
    (move : Move)
    (property : World → Prop)
    (work : Work α) : Prop :=
  ∀ world, property world →
    Achieves (duty move) work (fun _ => property) (fun _ => property) world

variable {α β : Type} {move : Move} {property : World → Prop}

theorem keeps_pure
    (result : α) :
    Keeps move property (pure result : Work α) :=
  fun _ holds => holds

theorem keeps_throw
    (failure : Failure) :
    Keeps move property (throw failure : Work α) :=
  fun _ holds => holds

theorem keeps_refuse
    (code : String) :
    Keeps move property (refuse code : Work α) :=
  keeps_throw _

theorem keeps_done
    (result : Except Failure α) :
    Keeps move property (ExceptT.mk (.done result) : Work α) := by
  intro world holds
  cases result with
  | error failure =>
      exact holds
  | ok result =>
      exact holds

theorem Keeps.bind
    {work : Work α}
    {next : α → Work β}
    (first : Keeps move property work)
    (rest : ∀ result, Keeps move property (next result)) :
    Keeps move property (work >>= next) := by
  intro world holds
  rw [achieves_bind]
  apply (first world holds).mono
  · intro result later kept
    exact rest result later kept
  · intro _ later kept
    exact kept

theorem Keeps.tryCatch
    {work : Work α}
    {handle : Failure → Work α}
    (first : Keeps move property work)
    (rest : ∀ failure, Keeps move property (handle failure)) :
    Keeps move property (tryCatch work handle) := by
  intro world holds
  rw [achieves_tryCatch]
  apply (first world holds).mono
  · intro _ later kept
    exact kept
  · intro failure later kept
    exact rest failure later kept

theorem keeps_mk
    {program : Program Action Answer (Except Failure α)}
    (guarded : ∀ world, property world →
      Guarded (duty move) program (fun _ => property) world) :
    Keeps move property (ExceptT.mk program) := by
  intro world holds
  apply (guarded world holds).mono
  rintro (failure | result) later kept
  · exact kept
  · exact kept

theorem keeps_lift
    {program : Program Action Answer α}
    (guarded : ∀ world, property world →
      Guarded (duty move) program (fun _ => property) world) :
    Keeps move property (ExceptT.lift program) := by
  intro world holds
  rw [achieves_lift]
  exact guarded world holds

theorem Fate.read_cases
    (fate : Fate)
    (value : α)
    (world : World) :
    fate.read value world = (.ok value, world) ∨
      ∃ failure, fate.read value world = (.error failure, world) := by
  unfold Fate.read
  split
  · exact .inl rfl
  · exact .inr ⟨_, rfl⟩

theorem Fate.statement_cases
    (fate : Fate)
    (before after : World) :
    fate.statement before after = (.ok ⟨⟩, after) ∨
      ∃ failure, fate.statement before after = (.error failure, before) := by
  unfold Fate.statement
  split
  · exact .inl rfl
  · exact .inr ⟨_, rfl⟩

theorem Fate.attempt_cases
    (fate : Fate)
    (value : α)
    (before after : World) :
    fate.attempt value before after = (.ok value, after) ∨
      ∃ failure, fate.attempt value before after = (.error failure, after) ∨
        fate.attempt value before after = (.error failure, before) := by
  unfold Fate.attempt
  split
  · exact .inl rfl
  · rename_i failure _
    refine .inr ⟨failure, ?_⟩
    split
    · exact .inl rfl
    · exact .inr rfl

theorem Quiet.refl
    (move : Move)
    (world : World) :
    Quiet move world world where
  review := rfl
  journal := rfl
  memory := rfl
  installation := rfl
  stack := rfl
  checkpoint := rfl
  containers := rfl
  cancel := rfl
  stopping := rfl
  stops := rfl
  helper := fun _ isHelping => .inl isHelping

theorem Untouched.refl
    (move : Move)
    (world : World) :
    Untouched move world world :=
  fun _ _ => rfl

variable {world later : World}

theorem Steady.guarded_quiet
    (steady : Steady move property)
    (action : Action)
    (quiet : ∀ fate before answer later,
      World.perform action fate before = (answer, later) →
        Quiet move before later ∧ Untouched move before later)
    (holds : property world) :
    Guarded (duty move) (perform action) (fun _ => property) world := by
  apply guarded_act steady.stable holds
  intro fate before answer later kept isPerformed
  obtain ⟨isQuiet, untouched⟩ := quiet fate before answer later isPerformed
  have still := steady.quiet kept isQuiet
  have lasting : Lasting move before later := {
    untouched := untouched
    intent := by
      rw [isQuiet.journal]
      exact id }
  exact ⟨(steady.owned still).sound, lasting, still⟩

theorem Steady.guarded_read
    (steady : Steady move property)
    (action : Action)
    (reads : ∀ fate before answer later,
      World.perform action fate before = (answer, later) → later = before)
    (holds : property world) :
    Guarded (duty move) (perform action) (fun _ => property) world := by
  apply steady.guarded_quiet action _ holds
  intro fate before answer later isPerformed
  rw [reads fate before answer later isPerformed]
  exact ⟨.refl move before, .refl move before⟩

theorem Fate.eq_of_read
    {fate : Fate}
    {value : α}
    {answer : Except Failure α}
    (isRead : fate.read value world = (answer, later)) :
    later = world := by
  rcases fate.read_cases value world with read | ⟨failure, read⟩
  · rw [read] at isRead
    exact (Prod.mk.inj isRead).2.symm
  · rw [read] at isRead
    exact (Prod.mk.inj isRead).2.symm

theorem now
    {value answer : α}
    (isPerformed : (value, world) = (answer, later)) :
    later = world :=
  (Prod.mk.inj isPerformed).2.symm

section Reading

variable (steady : Steady move property)

include steady

theorem Steady.readMemory :
    Keeps move property readMemory :=
  keeps_lift fun _ holds =>
    steady.guarded_read .readMemory (fun _ _ _ _ => now) holds

theorem Steady.verify
    (check : Check) :
    Keeps move property (verify check) :=
  keeps_mk fun _ holds =>
    steady.guarded_read (.verify check) (fun _ _ _ _ => Fate.eq_of_read) holds

theorem Steady.inventory :
    Keeps move property inventory :=
  keeps_mk fun _ holds =>
    steady.guarded_read .inventory (fun _ _ _ _ => Fate.eq_of_read) holds

theorem Steady.isCancelled :
    Keeps move property isCancelled :=
  keeps_mk fun _ holds =>
    steady.guarded_read .isCancelled (fun _ _ _ _ => Fate.eq_of_read) holds

theorem Steady.identity
    (path : Path) :
    Keeps move property (identity path) :=
  keeps_mk fun _ holds =>
    steady.guarded_read (.identify path) (fun _ _ _ _ => Fate.eq_of_read) holds

theorem Steady.ask
    (request : ServerRequest) :
    Keeps move property (ask request) :=
  keeps_mk fun _ holds =>
    steady.guarded_read (.ask request) (fun _ _ _ _ => Fate.eq_of_read) holds

theorem Steady.getInstallation :
    Keeps move property (ExceptT.lift (perform .getInstallation)) :=
  keeps_lift fun _ holds =>
    steady.guarded_read .getInstallation (fun _ _ _ _ => now) holds

theorem Steady.deadline :
    Keeps move property (ExceptT.lift (perform .deadline)) :=
  keeps_lift fun _ holds =>
    steady.guarded_read .deadline (fun _ _ _ _ => now) holds

theorem Steady.refuseIfCancelled :
    Keeps move property refuseIfCancelled := by
  apply steady.isCancelled.bind
  intro cancelled
  split
  · exact keeps_refuse _
  · exact keeps_pure _

theorem Steady.current :
    Keeps move property current :=
  steady.getInstallation.bind fun _ => keeps_done _

theorem Steady.verifyIdentities
    (review : Review) :
    Keeps move property (verifyIdentities review) := by
  apply (steady.identity _).bind
  intro source
  dsimp only
  split
  · exact (keeps_refuse _).bind fun _ =>
      (steady.identity _).bind fun root => by
        split
        · exact keeps_refuse _
        · exact keeps_pure _
  · exact (steady.identity _).bind fun root => by
      split
      · exact keeps_refuse _
      · exact keeps_pure _

theorem Steady.verifyInstallation :
    Keeps move property verifyInstallation := by
  apply steady.inventory.bind
  intro owned
  dsimp only
  split
  · exact (keeps_refuse _).bind fun _ => steady.verify _
  · exact steady.verify _

theorem Steady.edit
    {change : MoveOperation → MoveOperation}
    (noted : ∀ operation, Noted operation (change operation)) :
    Keeps move property (edit change) := by
  apply keeps_lift
  intro world holds
  apply guarded_act steady.stable holds
  intro fate before answer later kept isPerformed
  cases isPerformed
  have still := steady.noted kept (noted before.memory)
  exact ⟨(steady.owned still).sound, .same rfl rfl, still⟩

theorem Steady.save :
    Keeps move property save := by
  apply keeps_mk
  intro world holds
  apply guarded_act steady.stable holds
  intro fate before answer later kept isPerformed
  rcases fate.statement_cases before
      { before with journal := before.memory } with outcome | ⟨_, outcome⟩
  · cases outcome.symm.trans isPerformed
    have still := steady.saved kept
    have lasting : Lasting move before
        { before with journal := before.memory } := {
      untouched := fun _ _ => rfl
      intent := (steady.owned kept).intent.trans }
    exact ⟨(steady.owned still).sound, lasting, still⟩
  · cases outcome.symm.trans isPerformed
    exact ⟨(steady.owned kept).sound, .refl move before, kept⟩

theorem Steady.restartPolicy
    (service : String)
    (policy : RestartPolicy) :
    Keeps move property
      (ExceptT.mk (perform (.restartPolicy service policy))) := by
  apply keeps_mk
  intro world holds
  apply guarded_act steady.stable holds
  intro fate before answer later kept isPerformed
  have still := steady.policies service policy kept
  have lasting : Lasting move before
      (before.changeContainer service fun container =>
        { container with restart := policy }) := .same rfl rfl
  have done := And.intro (steady.owned still).sound
    (And.intro lasting still)
  rcases fate.attempt_cases PUnit.unit before
      (before.changeContainer service fun container =>
        { container with restart := policy }) with outcome | ⟨_, outcome | outcome⟩
  · cases outcome.symm.trans isPerformed
    exact done
  · cases outcome.symm.trans isPerformed
    exact done
  · cases outcome.symm.trans isPerformed
    exact ⟨(steady.owned kept).sound, .refl move before, kept⟩

theorem Steady.restorePoliciesOf
    (containers : List Container)
    (policies : List (String × RestartPolicy)) :
    Keeps move property (restorePoliciesOf containers policies) := by
  induction policies with
  | nil =>
      exact keeps_pure _
  | cons writer rest inductionHypothesis =>
      rw [LibraryMove.restorePoliciesOf]
      split
      · exact (steady.restartPolicy _ _).bind fun _ => inductionHypothesis
      · exact keeps_refuse _

theorem Steady.restorePolicies :
    Keeps move property restorePolicies :=
  steady.inventory.bind fun _ => steady.readMemory.bind fun _ =>
    steady.restorePoliciesOf _ _

theorem Steady.serverRunning :
    Keeps move property serverRunning :=
  steady.inventory.bind fun _ => keeps_pure _

theorem Steady.editReceipts
    {change : Receipts → Receipts}
    (writesIntent : ∀ receipts,
      (change receipts).writesIntent = receipts.writesIntent)
    (recoveryIntent : ∀ receipts,
      (change receipts).recoveryIntent = receipts.recoveryIntent)
    (cancelled : ∀ receipts, (change receipts).cancelled = receipts.cancelled) :
    Keeps move property (editReceipts change) :=
  steady.edit fun operation => {
    id := rfl
    state := .inr rfl
    writesIntent := writesIntent operation.receipts
    recoveryIntent := recoveryIntent operation.receipts
    cancelled := cancelled operation.receipts
    completed := fun _ member => member
    started := .inl
    checkpointed := id
    switched := id }

theorem Steady.resumeServerFor
    (attempts : ℕ) :
    Keeps move property (resumeServerFor attempts) := by
  induction attempts with
  | zero =>
      exact keeps_pure _
  | succ attempts inductionHypothesis =>
      rw [LibraryMove.resumeServerFor]
      apply Keeps.bind
      · apply Keeps.tryCatch
        · apply steady.serverRunning.bind
          intro running
          dsimp only
          split
          · apply (steady.ask _).bind
            intro _
            apply Keeps.bind
            · exact steady.editReceipts (fun _ => rfl) (fun _ => rfl) fun _ => rfl
            · intro _
              exact steady.save.bind fun _ => keeps_pure _
          · exact keeps_pure _
        · exact fun _ => keeps_pure _
      · intro resumed
        split
        · exact keeps_pure _
        · exact inductionHypothesis

theorem Steady.resumeServer :
    Keeps move property resumeServer :=
  steady.deadline.bind fun _ => steady.resumeServerFor _

theorem Steady.drain
    (id : OperationId)
    (attempts : ℕ)
    (status : ServerPauseStatus) :
    Keeps move property (drain id attempts status) := by
  induction attempts generalizing status with
  | zero =>
      rw [LibraryMove.drain]
      split
      · exact keeps_pure _
      · exact steady.refuseIfCancelled.bind fun _ => keeps_refuse _
  | succ attempts inductionHypothesis =>
      rw [LibraryMove.drain]
      split
      · exact keeps_pure _
      · apply steady.refuseIfCancelled.bind
        intro _
        apply (steady.ask _).bind
        intro status
        dsimp only
        split
        · exact (keeps_refuse _).bind fun _ => inductionHypothesis _
        · exact inductionHypothesis _

theorem Steady.quiesce
    (id : OperationId) :
    Keeps move property (quiesce id) := by
  apply steady.serverRunning.bind
  intro running
  split
  · apply steady.deadline.bind
    intro attempts
    apply Keeps.tryCatch
    · exact (steady.ask _).bind fun _ => steady.drain _ _ _
    · intro failure
      apply steady.resumeServer.bind
      intro _
      split
      · exact keeps_throw _
      · exact keeps_refuse _
  · exact keeps_pure _

end Reading

theorem Calm.stopContainer
    (calm : Calm move property)
    (service : String) :
    Keeps move property (ExceptT.mk (perform (.stopContainer service))) := by
  apply keeps_mk
  intro world holds
  apply guarded_act calm.stable holds
  intro fate before answer later kept isPerformed
  have still := calm.calmed kept (calmed_stops before service)
  have lasting : Lasting move before
      (before.changeContainer service fun container =>
        { container with running := false }) := .same rfl rfl
  have done := And.intro (calm.owned still).sound
    (And.intro lasting still)
  rcases fate.attempt_cases PUnit.unit before
      (before.changeContainer service fun container =>
        { container with running := false }) with outcome | ⟨_, outcome | outcome⟩
  · cases outcome.symm.trans isPerformed
    exact done
  · cases outcome.symm.trans isPerformed
    exact done
  · cases outcome.symm.trans isPerformed
    exact ⟨(calm.owned kept).sound, .refl move before, kept⟩

theorem Calm.startDatabase
    (calm : Calm move property) :
    Keeps move property (ExceptT.mk (perform (.composeUp ["database"]))) := by
  apply keeps_mk
  intro world holds
  apply guarded_act calm.stable holds
  intro fate before answer later kept isPerformed
  have isStarted : ∃ services, serverService ∉ services ∧
      later = before.up services := by
    change before.composeUp fate ["database"] = (answer, later) at isPerformed
    unfold World.composeUp at isPerformed
    split at isPerformed
    · cases isPerformed
      exact ⟨["database"], by decide, rfl⟩
    · cases isPerformed
      refine ⟨_, ?_, rfl⟩
      intro member
      have named := (List.mem_filter.mp member).2
      simp [serverService] at named
  obtain ⟨services, other, rfl⟩ := isStarted
  have still := calm.calmed kept (calmed_up before other)
  exact ⟨(calm.owned still).sound, .same rfl rfl, still⟩

theorem Calm.stopContainers
    (calm : Calm move property)
    (containers : List Container) :
    Keeps move property (stopContainers containers) := by
  induction containers with
  | nil =>
      exact keeps_pure _
  | cons container rest inductionHypothesis =>
      rw [LibraryMove.stopContainers]
      apply (calm.restartPolicy _ _).bind
      intro _
      exact (calm.stopContainer _).bind fun _ => inductionHypothesis

theorem Calm.stopInstallation
    (calm : Calm move property)
    (installation : Installation) :
    Keeps move property (stopInstallation installation) := by
  apply (calm.verify _).bind
  intro _
  apply (calm.verify _).bind
  intro _
  apply calm.inventory.bind
  intro owned
  apply (calm.verify _).bind
  intro _
  exact (calm.stopContainers _).bind fun _ => calm.verifyInstallation

/-- Recording and stopping the writers keeps a calm property. -/
theorem Calm.stopWriters
    (calm : Calm move property)
    (review : Review) :
    Keeps move property (stopWriters review) := by
  have rest : Keeps move property (do
      verify (.storage review.root review.bytes)
      verify (.media review.current.mounts)
      let operation ← readMemory
      quiesce operation.id
      let writers ← inventory
      editReceipts fun receipts =>
        { receipts with
          writerPolicies := receipts.writerPolicies.or
            (some (writers.map fun container =>
              (container.service, container.restart))) }
      save
      LibraryMove.stopInstallation review.current
      return StepReceipt.done) := by
    apply (calm.verify _).bind
    intro _
    apply (calm.verify _).bind
    intro _
    apply calm.readMemory.bind
    intro operation
    apply (calm.quiesce _).bind
    intro _
    apply calm.inventory.bind
    intro writers
    apply Keeps.bind
    · exact calm.editReceipts (fun _ => rfl) (fun _ => rfl) fun _ => rfl
    · intro _
      apply calm.save.bind
      intro _
      exact (calm.stopInstallation _).bind fun _ => keeps_pure _
  apply calm.current.bind
  intro installation
  dsimp only
  split
  · exact (keeps_refuse _).bind fun _ => rest
  · exact rest

/-- Folders that nothing in the original folder lies in. -/
def Apart
    (move : Move)
    (folders : List Path) : Prop :=
  ∀ folder ∈ folders, overlap folder move.source = false

theorem overlap_of_isPrefixOf
    {first second path : Path}
    (inFirst : first.isPrefixOf path = true)
    (inSecond : second.isPrefixOf path = true) :
    overlap first second = true := by
  rw [List.isPrefixOf_iff_prefix] at inFirst inSecond
  rw [overlap, Bool.or_eq_true, List.isPrefixOf_iff_prefix,
    List.isPrefixOf_iff_prefix]
  exact List.prefix_or_prefix_of_prefix inFirst inSecond

theorem World.writeIn_eq
    (world : World)
    (folders : List Path)
    (entries : List (Path × FileEntry)) :
    world.writeIn folders entries =
      { world with files := (world.writeIn folders entries).files } := by
  induction entries generalizing world with
  | nil =>
      rfl
  | cons entry rest inductionHypothesis =>
      rw [World.writeIn]
      split
      · rw [inductionHypothesis]
        rfl
      · exact inductionHypothesis world

theorem untouched_writeIn
    (world : World)
    {folders : List Path}
    (apart : Apart move folders)
    (entries : List (Path × FileEntry)) :
    Untouched move world (world.writeIn folders entries) := by
  induction entries generalizing world with
  | nil =>
      exact .refl move world
  | cons entry rest inductionHypothesis =>
      obtain ⟨place, written⟩ := entry
      rw [World.writeIn]
      split
      · rename_i inFolder
        intro path inSource
        rw [inductionHypothesis _ path inSource]
        have different : path ≠ place := by
          rintro rfl
          obtain ⟨folder, isFolder, inFolder⟩ := List.any_eq_true.mp inFolder
          have overlaps := overlap_of_isPrefixOf inFolder inSource
          rw [apart folder isFolder] at overlaps
          simp at overlaps
        exact if_neg different
      · exact inductionHypothesis world

theorem quiet_writeIn
    (world : World)
    (folders : List Path)
    (entries : List (Path × FileEntry)) :
    Quiet move world (world.writeIn folders entries) := by
  rw [World.writeIn_eq]
  exact { Quiet.refl move world with }

/-- Running the copy helper for a folder apart keeps a steady property. -/
theorem Steady.helper
    (steady : Steady move property)
    (action : HelperAction)
    (destination : Path)
    (apart : overlap destination move.source = false) :
    Keeps move property (helper action destination) := by
  have apart : Apart move (action.writable destination) := by
    intro folder member
    cases action with
    | copy =>
        rw [List.mem_singleton.mp member]
        exact apart
    | freeze =>
        simp [HelperAction.writable] at member
    | verify =>
        simp [HelperAction.writable] at member
  apply keeps_mk
  intro world holds
  apply steady.guarded_quiet (.help action destination) _ holds
  intro fate before answer later isPerformed
  rw [World.perform, World.help] at isPerformed
  split at isPerformed
  · cases isPerformed
    exact ⟨.refl move before, .refl move before⟩
  · have quiet : Quiet move before
        (before.writeIn (action.writable destination) fate.written) :=
      quiet_writeIn before _ _
    have untouched := untouched_writeIn before apart fate.written
    dsimp only at isPerformed
    split at isPerformed
    · cases isPerformed
      exact ⟨quiet, untouched⟩
    · cases isPerformed
      refine ⟨{ quiet with helper := ?_ }, untouched⟩
      intro folders isHelping
      dsimp only at isHelping
      split at isHelping
      · simp at isHelping
      · rw [Option.some.injEq] at isHelping
        exact .inr (isHelping ▸ apart)

end Frameleaf.LibraryMove
