import Frameleaf.Coalesced.ReadLaws

namespace Frameleaf.Coalesced

open Trace

/-!
# Every request is followed by a run

At most one run is going at any time.  A request that finds the loop going is
followed by a run when the run before it is fulfilled; after a run that failed
the loop ends, and the request is not heard.
-/

/-- A run that is going is the one that the loop waits for. -/
structure Task.Sound (task : Task) : Prop where
  awaited : ∀ run : ℕ, task.runs[run]? = some .going →
    task.active = some (.awaiting run)
  begun : ∀ run, task.active = some (.awaiting run) →
    run < task.runs.length

/-- A run can only be begun when none is going. -/
def Task.Still (task : Task) : Prop :=
  ∀ run : ℕ, task.runs[run]? ≠ some .going

theorem Task.sound_idle : Task.idle.Sound where
  awaited := nofun
  begun := nofun

variable {task : Task}

theorem Task.Still.sound_begin
    (still : task.Still) :
    (task.begin false (some (.awaiting task.runs.length))).1.Sound where
  awaited := by
    intro run going
    change (task.runs ++ [Run.going])[run]? = some .going at going
    rcases Nat.lt_trichotomy run task.runs.length with old | new | beyond
    · rw [List.getElem?_append_left old] at going
      exact absurd going (still run)
    · rw [new]
      rfl
    · rw [List.getElem?_eq_none
        (by rw [List.length_append]; exact beyond)] at going
      exact nomatch going
  begun := by
    intro run isActive
    cases isActive
    change task.runs.length < (task.runs ++ [Run.going]).length
    rw [List.length_append]
    exact Nat.lt_succ_self _

theorem Task.Still.sound_throw
    (still : task.Still)
    {active : Option Active}
    (waits : ∀ run, active ≠ some (.awaiting run)) :
    (task.begin true active).1.Sound where
  awaited := by
    intro run going
    change (task.runs ++ [Run.rejected])[run]? = some .going at going
    rcases Nat.lt_trichotomy run task.runs.length with old | new | beyond
    · rw [List.getElem?_append_left old] at going
      exact absurd going (still run)
    · rw [new, List.getElem?_concat_length] at going
      exact nomatch going
    · rw [List.getElem?_eq_none
        (by rw [List.length_append]; exact beyond)] at going
      exact nomatch going
  begun := fun run isActive => absurd isActive (waits run)

theorem Task.Sound.still_of_none
    (sound : task.Sound)
    (noLoop : task.active = none) :
    task.Still :=
  fun run going => nomatch noLoop.symm.trans (sound.awaited run going)

theorem Task.Sound.still_of_ended
    (sound : task.Sound)
    {run : ℕ}
    (waits : task.active = some (.awaiting run))
    (ended : task.runs[run]? ≠ some .going) :
    task.Still := by
  intro other going
  cases waits.symm.trans (sound.awaited other going)
  exact ended going

theorem Task.Still.sound_rest
    (still : task.Still) :
    Task.Sound { task with active := none } where
  awaited := fun run going => absurd going (still run)
  begun := nofun

theorem Task.request_cases
    (task : Task)
    (throws : Bool) :
    (task.active = none ∧
      (throws = true ∧ task.request throws =
          task.begin true (some .ended) ∨
        throws = false ∧ task.request throws =
          task.begin false (some (.awaiting task.runs.length)))) ∨
      ∃ active, task.active = some active ∧
        task.request throws = ({ task with requested := true }, none) := by
  unfold request
  cases isActive : task.active with
  | none =>
      cases throws with
      | false =>
          exact Or.inl ⟨rfl, Or.inr ⟨rfl, rfl⟩⟩
      | true =>
          exact Or.inl ⟨rfl, Or.inl ⟨rfl, rfl⟩⟩
  | some active =>
      exact Or.inr ⟨active, rfl, rfl⟩

theorem Task.resume_cases
    (task : Task)
    (throws : Bool) :
    task.resume throws = (task, none) ∨
      ∃ run, task.active = some (.awaiting run) ∧
        (task.runs[run]? = some .rejected ∧
            task.resume throws = ({ task with active := none }, none) ∨
          task.runs[run]? = some .fulfilled ∧ task.requested = false ∧
            task.resume throws = ({ task with active := none }, none) ∨
          task.runs[run]? = some .fulfilled ∧ task.requested = true ∧
            (throws = true ∧ task.resume throws = task.begin true none ∨
              throws = false ∧ task.resume throws =
                task.begin false (some (.awaiting task.runs.length)))) := by
  unfold resume
  cases isActive : task.active with
  | none =>
      exact Or.inl rfl
  | some active =>
      cases active with
      | ended =>
          exact Or.inl rfl
      | awaiting run =>
          dsimp only
          split
          · rename_i fulfilled
            refine Or.inr ⟨run, rfl, Or.inr ?_⟩
            cases requested : task.requested with
            | false =>
                exact Or.inl ⟨fulfilled, rfl, rfl⟩
            | true =>
                refine Or.inr ⟨fulfilled, rfl, ?_⟩
                cases throws with
                | false =>
                    exact Or.inr ⟨rfl, rfl⟩
                | true =>
                    exact Or.inl ⟨rfl, rfl⟩
          · rename_i rejected
            exact Or.inr ⟨run, rfl, Or.inl ⟨rejected, rfl⟩⟩
          · exact Or.inl rfl

theorem Task.Sound.settle
    (sound : task.Sound)
    (run : ℕ)
    (fulfilled : Bool) :
    (task.settle run fulfilled).Sound := by
  unfold Task.settle
  split
  · refine ⟨?_, ?_⟩
    · intro other going
      refine sound.awaited other ?_
      by_cases same : run = other
      · subst same
        rename_i wasGoing
        exact wasGoing
      · rwa [List.getElem?_set_ne same] at going
    · intro other isActive
      rw [List.length_set]
      exact sound.begun other isActive
  · exact sound

theorem Task.Sound.step
    (sound : task.Sound)
    (step : TaskStep) :
    (performTask task step).1.Sound ∧
      ((performTask task step).2 = none ∨ task.Still) := by
  cases step with
  | request throws =>
      rw [performTask]
      rcases task.request_cases throws with
        ⟨noLoop, ⟨-, requestEq⟩ | ⟨-, requestEq⟩⟩ | ⟨active, -, requestEq⟩
      · have still := sound.still_of_none noLoop
        rw [requestEq]
        exact ⟨still.sound_throw nofun, Or.inr still⟩
      · have still := sound.still_of_none noLoop
        rw [requestEq]
        exact ⟨still.sound_begin, Or.inr still⟩
      · rw [requestEq]
        exact ⟨⟨sound.awaited, sound.begun⟩, Or.inl rfl⟩
  | settle run fulfilled =>
      exact ⟨sound.settle run fulfilled, Or.inl rfl⟩
  | resume throws =>
      rw [performTask]
      rcases task.resume_cases throws with resumeEq | ⟨run, waits,
        ⟨ended, resumeEq⟩ | ⟨ended, -, resumeEq⟩ |
        ⟨ended, -, ⟨-, resumeEq⟩ | ⟨-, resumeEq⟩⟩⟩
      · rw [resumeEq]
        exact ⟨sound, Or.inl rfl⟩
      · have still := sound.still_of_ended waits (by rw [ended]; nofun)
        rw [resumeEq]
        exact ⟨still.sound_rest, Or.inl rfl⟩
      · have still := sound.still_of_ended waits (by rw [ended]; nofun)
        rw [resumeEq]
        exact ⟨still.sound_rest, Or.inl rfl⟩
      · have still := sound.still_of_ended waits (by rw [ended]; nofun)
        rw [resumeEq]
        exact ⟨still.sound_throw nofun, Or.inr still⟩
      · have still := sound.still_of_ended waits (by rw [ended]; nofun)
        rw [resumeEq]
        exact ⟨still.sound_begin, Or.inr still⟩

/-- A step, with the task before and after it. -/
abbrev TaskEntry := Entry Task TaskStep (Option ℕ)

/-- Whether a step is a request. -/
def TaskStep.IsRequest : TaskStep → Prop
  | .request _ =>
      True
  | .settle _ _ | .resume _ =>
      False

/-- A loop that waits for a run. -/
def Task.Waits (task : Task) : Prop :=
  ∃ run, task.active = some (.awaiting run)

/-- No request is lost with a step: a run that an idle task begins does not
throw at once, and a loop does not end after a run that failed while another
run is requested. -/
def Heard (task : Task) : TaskStep → Prop
  | .request throws =>
      ¬(task.active = none ∧ throws = true)
  | .settle _ _ =>
      True
  | .resume _ =>
      task.requested = true →
        ∀ run, task.active = some (.awaiting run) →
          task.runs[run]? ≠ some .rejected

/-- Every request of the past was followed by a run, or is remembered by a
loop that waits. -/
structure Answers
    (past : List TaskEntry)
    (task : Task) : Prop where
  followed : ∀ earlier happened later,
    past = earlier ++ happened :: later → happened.step.IsRequest →
      (∃ next ∈ happened :: later, next.response ≠ none) ∨
        task.requested = true ∧ task.Waits
  loops : task.active ≠ some .ended

variable {past : List TaskEntry}

theorem Answers.of_begun
    {happened : TaskEntry}
    (begun : happened.response ≠ none)
    (loops : task.active ≠ some .ended) :
    Answers (past ++ [happened]) task where
  followed := by
    intro earlier request later split _
    refine Or.inl ⟨happened, ?_, begun⟩
    have isLast : (request :: later).getLast? = some happened := by
      have whole := congrArg List.getLast? split
      rw [List.getLast?_concat, List.getLast?_append_of_ne_nil _
        (List.cons_ne_nil _ _)] at whole
      exact whole.symm
    exact List.mem_of_getLast? isLast
  loops := loops

theorem Answers.of_waiting
    (requested : task.requested = true)
    (waits : task.Waits)
    (past : List TaskEntry) :
    Answers past task where
  followed := fun _ _ _ _ _ => Or.inr ⟨requested, waits⟩
  loops := by
    obtain ⟨run, isActive⟩ := waits
    rw [isActive]
    nofun

theorem Answers.of_kept
    {before after : Task}
    (answers : Answers past before)
    {happened : TaskEntry}
    (noRequest : ¬happened.step.IsRequest)
    (remembers : before.requested = true → before.Waits →
      after.requested = true ∧ after.Waits)
    (loops : after.active ≠ some .ended) :
    Answers (past ++ [happened]) after where
  followed := by
    intro earlier request later split isRequest
    rcases List.eq_nil_or_concat' later with rfl | ⟨rest, last, rfl⟩
    · obtain ⟨-, same⟩ := List.append_inj' split rfl
      cases same
      exact absurd isRequest noRequest
    · have regrouped : past ++ [happened] =
          (earlier ++ request :: rest) ++ [last] := by
        rw [split, List.append_assoc]
        rfl
      obtain ⟨pastEq, -⟩ := List.append_inj' regrouped rfl
      rcases answers.followed earlier request rest pastEq isRequest with
        ⟨next, member, begun⟩ | ⟨requested, waits⟩
      · refine Or.inl ⟨next, ?_, begun⟩
        exact List.mem_append_left [last] member
      · exact Or.inr (remembers requested waits)
  loops := loops

/-- A step by which no request is lost keeps all answers. -/
theorem Answers.step
    (answers : Answers past task)
    {step : TaskStep}
    (heard : Heard task step) :
    Answers (past ++ [entry performTask task step])
      (performTask task step).1 := by
  cases step with
  | request throws =>
      rw [performTask]
      rcases task.request_cases throws with
        ⟨noLoop, ⟨isThrown, -⟩ | ⟨-, requestEq⟩⟩ | ⟨active, isActive, requestEq⟩
      · exact absurd ⟨noLoop, isThrown⟩ heard
      · rw [requestEq]
        refine Answers.of_begun ?_ nofun
        change (task.request throws).2 ≠ none
        rw [requestEq]
        nofun
      · rw [requestEq]
        refine Answers.of_waiting rfl ?_ _
        cases active with
        | awaiting run =>
            exact ⟨run, isActive⟩
        | ended =>
            exact absurd isActive answers.loops
  | settle run fulfilled =>
      refine answers.of_kept id ?_ ?_
      · intro requested waits
        change (task.settle run fulfilled).requested = true ∧
          (task.settle run fulfilled).Waits
        unfold Task.settle
        split <;> exact ⟨requested, waits⟩
      · change (task.settle run fulfilled).active ≠ some .ended
        unfold Task.settle
        split <;> exact answers.loops
  | resume throws =>
      rw [performTask]
      rcases task.resume_cases throws with resumeEq | ⟨run, waits,
        ⟨ended, resumeEq⟩ | ⟨ended, unrequested, resumeEq⟩ |
        ⟨ended, -, ⟨-, resumeEq⟩ | ⟨-, resumeEq⟩⟩⟩
      · rw [resumeEq]
        exact answers.of_kept id (fun requested waits => ⟨requested, waits⟩)
          answers.loops
      · rw [resumeEq]
        refine answers.of_kept id ?_ nofun
        intro requested _
        exact absurd ended (heard requested run waits)
      · rw [resumeEq]
        refine answers.of_kept id ?_ nofun
        intro requested _
        exact nomatch unrequested.symm.trans requested
      · rw [resumeEq]
        refine Answers.of_begun ?_ nofun
        change (task.resume throws).2 ≠ none
        rw [resumeEq]
        nofun
      · rw [resumeEq]
        refine Answers.of_begun ?_ nofun
        change (task.resume throws).2 ≠ none
        rw [resumeEq]
        nofun

/-- The task after a run of steps. -/
abbrev taskAfter (steps : List TaskStep) : Task :=
  finalState performTask Task.idle steps

/-- Once no loop waits any more, every request was followed by a run that began
with it or after it. -/
def Followed (steps : List TaskStep) : Prop :=
  ¬(taskAfter steps).Waits →
    ∀ earlier happened later,
      trace performTask Task.idle steps = earlier ++ happened :: later →
        happened.step.IsRequest →
          ∃ next ∈ happened :: later, next.response ≠ none

/-- A request during a run that fails is not followed by a run. -/
theorem waiting_request_lost : ¬∀ steps, Followed steps := by
  intro followed
  let lost : List TaskStep :=
    [.request false, .request false, .settle 0 false, .resume false]
  have noLoop : ¬(taskAfter lost).Waits := by
    rintro ⟨run, waits⟩
    exact nomatch waits
  obtain ⟨next, member, begun⟩ := followed lost noLoop
    [entry performTask Task.idle (.request false)] _ _ rfl trivial
  have noneBegun : next.response = none := by
    rcases List.mem_cons.mp member with rfl | inRest
    · rfl
    rcases List.mem_cons.mp inRest with rfl | inRest
    · rfl
    cases List.mem_singleton.mp inRest
    rfl
  exact begun noneBegun

/-- What is promised of shared reads, and of a task in a run of steps. -/
structure CoalescedLaws
    (Value : Type)
    (reuse : Reuse)
    (steps : List TaskStep) : Prop where
  /-- A read after a clear answers with a later load, and reads at the same
  time share one. -/
  reads : ReadLaws Value reuse
  /-- At most one run of the action is going. -/
  single : ∀ first second : ℕ,
    (taskAfter steps).runs[first]? = some .going →
      (taskAfter steps).runs[second]? = some .going → first = second
  /-- A run is begun only when none is going. -/
  serial : ∀ step : TaskStep,
    (performTask (taskAfter steps) step).2 ≠ none →
      (taskAfter steps).Still
  /-- When no step loses a request, every request is followed by a run. -/
  followed : AllMeet performTask Heard Task.idle steps → Followed steps
  /-- Before it is, a loop that waits for the end of a run remembers it. -/
  remembered : AllMeet performTask Heard Task.idle steps →
    ∀ earlier happened later,
      trace performTask Task.idle steps = earlier ++ happened :: later →
        happened.step.IsRequest →
          (∃ next ∈ happened :: later, next.response ≠ none) ∨
            (taskAfter steps).requested = true ∧ (taskAfter steps).Waits
  /-- A loop that remembers a request begins a run after the run that it waits
  for was fulfilled. -/
  wakes : ∀ (run : ℕ) (throws : Bool),
    (taskAfter steps).active = some (.awaiting run) →
      (taskAfter steps).requested = true →
        (taskAfter steps).runs[run]? = some .fulfilled →
          (performTask (taskAfter steps) (.resume throws)).2 =
            some (taskAfter steps).runs.length

theorem sound_taskAfter (steps : List TaskStep) : (taskAfter steps).Sound :=
  invariant_of_kept (fun _ step before => (before.step step).1)
    Task.sound_idle

theorem answers_taskAfter
    {steps : List TaskStep}
    (heard : AllMeet performTask Heard Task.idle steps) :
    Answers (trace performTask Task.idle steps) (taskAfter steps) := by
  have initially : Answers [] Task.idle := by
    refine ⟨fun earlier happened later split => ?_, nofun⟩
    exact absurd split.symm
      (List.append_ne_nil_of_right_ne_nil _ (List.cons_ne_nil _ _))
  exact holds_of_history_of_meets
    (fun _ _ _ before stepHeard => before.step stepHeard) initially heard

/-- The laws hold in every run. -/
theorem coalescedLaws
    (Value : Type)
    (reuse : Reuse)
    (steps : List TaskStep) : CoalescedLaws Value reuse steps where
  reads := ReadLaws.hold
  single := by
    intro first second firstGoing secondGoing
    have sound := sound_taskAfter steps
    cases (sound.awaited first firstGoing).symm.trans
      (sound.awaited second secondGoing)
    rfl
  serial := by
    intro step begun
    exact ((sound_taskAfter steps).step step).2.resolve_left begun
  followed := by
    intro heard noLoop earlier happened later split isRequest
    have answered :=
      (answers_taskAfter heard).followed earlier happened later split isRequest
    exact answered.resolve_right fun remembered => noLoop remembered.2
  remembered := fun heard => (answers_taskAfter heard).followed
  wakes := by
    intro run throws waits requested fulfilled
    rw [performTask, Task.resume, waits]
    dsimp only
    rw [fulfilled]
    dsimp only
    rw [if_pos requested]
    cases throws <;> rfl

end Frameleaf.Coalesced
