import Mathlib.Tactic.TypeStar

namespace Frameleaf.Programs

/-!
# Programs in a world that others change

A program performs one action after the other; which one comes next depends on
the answers before.  The answers and effects of an action depend on its fate,
which nobody controls.  While a program awaits an action others may disturb the
world; between two actions that it does not await they cannot.

A program is guarded when every world that it reaches meets an invariant and
every action meets a guarantee, whatever the fates and the disturbances are.  A
guarded program can therefore be stopped after any of its actions.
-/

/-- A program that performs actions and ends with a result. -/
inductive Program (Action : Type) (Answer : Action → Type) (α : Type) where
  | done (result : α)
  | perform (action : Action) (next : Answer action → Program Action Answer α)

variable {Action : Type} {Answer : Action → Type} {α β Failure : Type}

/-- Go on with another program. -/
def Program.bind :
    Program Action Answer α →
    (α → Program Action Answer β) →
    Program Action Answer β
  | .done result, after =>
      after result
  | .perform action next, after =>
      .perform action fun answer => (next answer).bind after

instance : Monad (Program Action Answer) where
  pure := .done
  bind := .bind

/-- A program that may fail. -/
abbrev Job (Action : Type) (Answer : Action → Type) (Failure α : Type) :=
  ExceptT Failure (Program Action Answer) α

/-- Perform one action. -/
def act
    (action : Action) : Program Action Answer (Answer action) :=
  .perform action .done

/-- The world that programs act in. -/
structure Setting (Action : Type) (Answer : Action → Type) where
  World : Type
  Fate : Type
  Disturbance : Type
  perform : (action : Action) → Fate → World → Answer action × World
  awaits : Action → Bool
  disturb : World → Disturbance → World

variable {setting : Setting Action Answer}

/-- The world after some disturbances. -/
def Setting.disturbed
    (setting : Setting Action Answer)
    (world : setting.World)
    (disturbances : List setting.Disturbance) : setting.World :=
  disturbances.foldl setting.disturb world

/-- Others cannot make a property of the world false. -/
def Stable
    (setting : Setting Action Answer)
    (property : setting.World → Prop) : Prop :=
  ∀ world disturbance, property world →
    property (setting.disturb world disturbance)

/-- What has to hold of a program at every moment. -/
structure Duty (setting : Setting Action Answer) where
  invariant : setting.World → Prop
  guarantee : setting.World → setting.World → Prop

variable {duty : Duty setting}

/-- The program does its duty and ends as it should. -/
def Guarded
    (duty : Duty setting) :
    Program Action Answer α →
    (α → setting.World → Prop) →
    setting.World → Prop
  | .done result, after, world =>
      after result world
  | .perform action next, after, world =>
      ∀ disturbances,
        (setting.awaits action = false → disturbances = []) →
        ∀ fate,
          let before := setting.disturbed world disturbances
          let (answer, later) := setting.perform action fate before
          duty.invariant later ∧ duty.guarantee before later ∧
            Guarded duty (next answer) after later

variable {world : setting.World}

theorem Stable.disturbed
    {property : setting.World → Prop}
    (stable : Stable setting property)
    (holds : property world)
    (disturbances : List setting.Disturbance) :
    property (setting.disturbed world disturbances) := by
  induction disturbances generalizing world with
  | nil =>
      exact holds
  | cons disturbance rest inductionHypothesis =>
      exact inductionHypothesis (stable world disturbance holds)

variable {program : Program Action Answer α}

/-- A sequence is guarded when its first part leads to a guarded rest. -/
@[simp] theorem guarded_bind
    {next : α → Program Action Answer β}
    {after : β → setting.World → Prop} :
    Guarded duty (program >>= next) after world ↔
      Guarded duty program
        (fun result => Guarded duty (next result) after) world := by
  induction program generalizing world with
  | done result =>
      exact Iff.rfl
  | perform action rest inductionHypothesis =>
      apply forall_congr'
      intro disturbances
      apply forall_congr'
      intro _
      apply forall_congr'
      intro fate
      exact and_congr_right' (and_congr_right' (inductionHypothesis _))

theorem Guarded.mono
    {first second : α → setting.World → Prop}
    (guarded : Guarded duty program first world)
    (weaker : ∀ result later, first result later → second result later) :
    Guarded duty program second world := by
  induction program generalizing world with
  | done result =>
      exact weaker result world guarded
  | perform action next inductionHypothesis =>
      intro disturbances allowed fate
      obtain ⟨invariant, guarantee, rest⟩ := guarded disturbances allowed fate
      exact ⟨invariant, guarantee, inductionHypothesis _ rest⟩

variable {after : α → setting.World → Prop}

theorem Guarded.invariant
    (guarded : Guarded duty program after world)
    (holds : duty.invariant world) :
    Guarded duty program
      (fun result later => after result later ∧ duty.invariant later)
      world := by
  induction program generalizing world with
  | done result =>
      exact ⟨guarded, holds⟩
  | perform action next inductionHypothesis =>
      intro disturbances allowed fate
      obtain ⟨invariant, guarantee, rest⟩ := guarded disturbances allowed fate
      exact ⟨invariant, guarantee, inductionHypothesis _ rest invariant⟩

variable {action : Action}

theorem Guarded.disturbed
    {next : Answer action → Program Action Answer α}
    (guarded : Guarded duty (.perform action next) after world)
    (awaits : setting.awaits action = true)
    (disturbance : setting.Disturbance) :
    Guarded duty (.perform action next) after
      (setting.disturb world disturbance) := by
  intro disturbances _ fate
  apply guarded (disturbance :: disturbances)
  intro atOnce
  rw [awaits] at atOnce
  simp at atOnce

theorem guarded_act
    {after : Answer action → setting.World → Prop}
    {property : setting.World → Prop}
    (stable : Stable setting property)
    (holds : property world)
    (acts : ∀ fate before answer later, property before →
      setting.perform action fate before = (answer, later) →
        duty.invariant later ∧ duty.guarantee before later ∧
          after answer later) :
    Guarded duty (act action) after world := by
  intro disturbances _ fate
  exact acts fate _ _ _ (stable.disturbed holds disturbances) rfl

theorem guarded_act_now
    {after : Answer action → setting.World → Prop}
    (atOnce : setting.awaits action = false)
    (acts : ∀ fate answer later,
      setting.perform action fate world = (answer, later) →
        duty.invariant later ∧ duty.guarantee world later ∧
          after answer later) :
    Guarded duty (act action) after world := by
  intro disturbances allowed fate
  rw [allowed atOnce]
  exact acts fate _ _ rfl

/-- The steps of a program that ends after as many actions as it has fates. -/
def Program.steps
    (setting : Setting Action Answer) :
    Program Action Answer α →
    List setting.Fate →
    setting.World → List (setting.World × setting.World)
  | .perform action next, fate :: fates, world =>
      let (answer, later) := setting.perform action fate world
      (world, later) :: (next answer).steps setting fates later
  | _, _, _ =>
      []

/-- The world when a program has ended after some actions. -/
def Program.stop
    (setting : Setting Action Answer) :
    Program Action Answer α →
    List setting.Fate →
    setting.World → setting.World
  | .perform action next, fate :: fates, world =>
      let (answer, later) := setting.perform action fate world
      (next answer).stop setting fates later
  | _, _, world =>
      world

theorem Guarded.steps
    (guarded : Guarded duty program after world)
    (fates : List setting.Fate) :
    ∀ step ∈ program.steps setting fates world,
      duty.invariant step.2 ∧ duty.guarantee step.1 step.2 := by
  induction program generalizing fates world with
  | done result =>
      intro step member
      cases member
  | perform action next inductionHypothesis =>
      cases fates with
      | nil =>
          intro step member
          cases member
      | cons fate fates =>
          obtain ⟨invariant, guarantee, rest⟩ := guarded [] (fun _ => rfl) fate
          intro step member
          rcases List.mem_cons.mp member with rfl | member
          · exact ⟨invariant, guarantee⟩
          · exact inductionHypothesis _ rest fates step member

theorem Guarded.stop
    (guarded : Guarded duty program after world)
    (holds : duty.invariant world)
    (fates : List setting.Fate) :
    duty.invariant (program.stop setting fates world) := by
  induction program generalizing fates world with
  | done result =>
      exact holds
  | perform action next inductionHypothesis =>
      cases fates with
      | nil =>
          exact holds
      | cons fate fates =>
          obtain ⟨invariant, _, rest⟩ := guarded [] (fun _ => rfl) fate
          exact inductionHypothesis _ rest invariant fates

/-- The result of a program whose actions share a fate, and the world then. -/
def Program.finish
    (setting : Setting Action Answer)
    (fate : setting.Fate) :
    Program Action Answer α → setting.World → α × setting.World
  | .done result, world =>
      (result, world)
  | .perform action next, world =>
      let (answer, later) := setting.perform action fate world
      (next answer).finish setting fate later

/-- A setting in which nobody else acts and all actions share a fate. -/
abbrev Setting.settled
    (setting : Setting Action Answer)
    (fate : setting.Fate) : Setting Action Answer where
  World := setting.World
  Fate := Unit
  Disturbance := Empty
  perform := fun action _ world => setting.perform action fate world
  awaits := fun _ => false
  disturb := fun world _ => world

/-- Nothing has to hold at every moment. -/
abbrev Duty.free
    (setting : Setting Action Answer) : Duty setting where
  invariant := fun _ => True
  guarantee := fun _ _ => True

theorem guarded_free
    (program : Program Action Answer α)
    (world : setting.World) :
    Guarded (Duty.free setting) program (fun _ _ => True) world := by
  induction program generalizing world with
  | done result =>
      exact trivial
  | perform action next inductionHypothesis =>
      intro _ _ _
      exact ⟨trivial, trivial, inductionHypothesis _ _⟩

theorem Guarded.finish
    {fate : setting.Fate}
    (guarded : Guarded (Duty.free (setting.settled fate)) program after
      world) :
    after (program.finish setting fate world).1
      (program.finish setting fate world).2 := by
  induction program generalizing world with
  | done result =>
      exact guarded
  | perform action next inductionHypothesis =>
      obtain ⟨_, _, rest⟩ := guarded [] (fun _ => rfl) ()
      exact inductionHypothesis _ rest

/-- The job does its duty and ends as it should, whether it fails or not. -/
def Achieves
    (duty : Duty setting)
    (job : Job Action Answer Failure α)
    (after : α → setting.World → Prop)
    (failed : Failure → setting.World → Prop)
    (world : setting.World) : Prop :=
  Guarded duty job.run
    (fun
      | .ok result => after result
      | .error failure => failed failure)
    world

section Jobs

variable {job : Job Action Answer Failure α}
variable {after : α → setting.World → Prop}
variable {failed : Failure → setting.World → Prop}
variable {world : setting.World}

/-- A job may end when its result is as it should be. -/
@[simp] theorem achieves_pure
    {result : α} :
    Achieves duty (pure result : Job Action Answer Failure α) after failed
      world ↔ after result world :=
  Iff.rfl

/-- A program that cannot fail ends as it should when it is guarded. -/
@[simp] theorem achieves_lift
    {program : Program Action Answer α} :
    Achieves duty (ExceptT.lift program : Job Action Answer Failure α) after
      failed world ↔ Guarded duty program after world :=
  guarded_bind

theorem guarded_outcome_congr
    {program : Program Action Answer (Except Failure α)}
    {first second : Except Failure α → setting.World → Prop}
    (same : ∀ result later, first result later ↔ second result later) :
    Guarded duty program first world ↔ Guarded duty program second world :=
  ⟨fun guarded => guarded.mono fun result later => (same result later).mp,
    fun guarded => guarded.mono fun result later => (same result later).mpr⟩

/-- A sequence of jobs ends as it should when its first part leads there. -/
@[simp] theorem achieves_bind
    {next : α → Job Action Answer Failure β}
    {after : β → setting.World → Prop} :
    Achieves duty (job >>= next) after failed world ↔
      Achieves duty job
        (fun result => Achieves duty (next result) after failed) failed
        world := by
  unfold Achieves
  change Guarded duty (job.run >>= ExceptT.bindCont next) _ world ↔ _
  rw [guarded_bind]
  apply guarded_outcome_congr
  rintro (failure | result) later
  · rfl
  · rfl

theorem Achieves.mono
    {after' : α → setting.World → Prop}
    {failed' : Failure → setting.World → Prop}
    (achieves : Achieves duty job after failed world)
    (weaker : ∀ result later, after result later → after' result later)
    (weakerFailed : ∀ failure later, failed failure later →
      failed' failure later) :
    Achieves duty job after' failed' world := by
  apply Guarded.mono achieves
  rintro (failure | result) later holds
  · exact weakerFailed failure later holds
  · exact weaker result later holds

theorem Achieves.invariant
    (achieves : Achieves duty job after failed world)
    (holds : duty.invariant world) :
    Achieves duty job
      (fun result later => after result later ∧ duty.invariant later)
      (fun failure later => failed failure later ∧ duty.invariant later)
      world := by
  apply (Guarded.invariant achieves holds).mono
  rintro (failure | result) later holds
  · exact holds
  · exact holds

theorem achieves_tryCatch
    {handle : Failure → Job Action Answer Failure α} :
    Achieves duty (tryCatch job handle) after failed world ↔
      Achieves duty job after
        (fun failure => Achieves duty (handle failure) after failed)
        world := by
  unfold Achieves
  change Guarded duty (job.run >>= _) _ world ↔ _
  rw [guarded_bind]
  apply guarded_outcome_congr
  rintro (failure | result) later
  · rfl
  · rfl

end Jobs

end Frameleaf.Programs
