import Frameleaf.Lib.Trace
import Mathlib.Algebra.Order.Field.Rat
import Mathlib.Order.WithBot

namespace Frameleaf.Coalesced

/-!
# A read that is shared while it runs

Everyone who asks while a load runs gets the same load.  A load that was costly
is reused for some time after it; a cheap one, a failed one, and every one from
before a clear is not.
-/

variable {Value : Type}

/-- A load, and what is remembered of it. -/
structure Load (Value : Type) where
  id : String
  started : ℚ
  outcome : Option (Option Value)
  noted : Bool
  reusableUntil : WithTop ℚ
  deriving DecidableEq

/-- The loads so far, and the load that is remembered of each key. -/
structure Reads (Value : Type) where
  loads : List (Load Value)
  remembered : String → Option ℕ

/-- Nothing was read. -/
def Reads.empty : Reads Value where
  loads := []
  remembered := fun _ => none

/-- How long a load is reused, and from which cost on. -/
structure Reuse where
  factor : ℚ
  minCostMs : ℚ

/-- What happens to reads; the clock may be read again at each moment. -/
inductive ReadStep (Value : Type) where
  | read (id : String) (now : ℚ)
  | clear
  | settle (load : ℕ) (outcome : Option Value)
  | note (load : ℕ) (ended noted : ℚ)

/-- The load that a read answers with, and whether it began with this read. -/
structure Answered where
  load : ℕ
  began : Bool
  deriving DecidableEq

/-- Forget the loads that are not reused any more. -/
def Reads.pruned
    (reads : Reads Value)
    (started : ℚ) : String → Option ℕ :=
  fun other => (reads.remembered other).filter fun load =>
    ¬ ∃ entry ∈ reads.loads[load]?, entry.reusableUntil ≤ started

/-- Read a key. -/
def Reads.read
    (reads : Reads Value)
    (id : String)
    (started : ℚ) : Reads Value × Answered :=
  let remembered := reads.pruned started
  match remembered id with
  | some reused =>
      ({ reads with remembered }, ⟨reused, false⟩)
  | none =>
      let load := reads.loads.length
      let entry : Load Value :=
        { id, started, outcome := none, noted := false, reusableUntil := ⊤ }
      ({ loads := reads.loads ++ [entry]
         remembered := Function.update remembered id (some load) },
        ⟨load, true⟩)

/-- Forget a load, if it is the one that is remembered of its key. -/
def Reads.forget
    (reads : Reads Value)
    (load : ℕ)
    (entry : Load Value) : String → Option ℕ :=
  if reads.remembered entry.id = some load then
    Function.update reads.remembered entry.id none
  else
    reads.remembered

/-- Note the end of a load: a costly one is reused, any other one is
forgotten. -/
def Reads.note
    (reuse : Reuse)
    (reads : Reads Value)
    (load : ℕ)
    (ended noted : ℚ) : Reads Value :=
  match reads.loads[load]? with
  | none =>
      reads
  | some entry =>
      match entry.outcome, entry.noted with
      | some (some _), false =>
          let cost := ended - entry.started
          if cost ≥ reuse.minCostMs then
            let reusableUntil : ℚ := noted + reuse.factor * cost
            { reads with
              loads := reads.loads.set load
                { entry with noted := true, reusableUntil } }
          else
            { loads := reads.loads.set load { entry with noted := true }
              remembered := reads.forget load entry }
      | some none, false =>
          { loads := reads.loads.set load { entry with noted := true }
            remembered := reads.forget load entry }
      | _, _ =>
          reads

/-- A load that runs comes to an end. -/
def Reads.settle
    (reads : Reads Value)
    (load : ℕ)
    (outcome : Option Value) : Reads Value :=
  match reads.loads[load]? with
  | none =>
      reads
  | some entry =>
      if entry.outcome.isNone then
        { reads with
          loads := reads.loads.set load { entry with outcome := some outcome } }
      else
        reads

/-- One step of the reads. -/
def performRead
    (reuse : Reuse)
    (reads : Reads Value) : ReadStep Value → Reads Value × Option Answered
  | .read id now =>
      (reads.read id now).map (fun after => after) some
  | .clear =>
      ({ reads with remembered := fun _ => none }, none)
  | .settle load outcome =>
      (reads.settle load outcome, none)
  | .note load ended noted =>
      (reads.note reuse load ended noted, none)

/-!
## Requests that share a run

A request wakes a loop that runs an action, or asks the loop that is going for
another run.  The loop waits for each run, and goes on in a moment of its own
after the run came to an end.
-/

/-- A run of the action. -/
inductive Run where
  | going
  | fulfilled
  | rejected
  deriving DecidableEq

/-- The promise that requests are answered with. -/
inductive Active where
  | awaiting (run : ℕ)
  | ended
  deriving DecidableEq

/-- A task, and all runs that were begun. -/
structure Task where
  active : Option Active
  requested : Bool
  runs : List Run
  deriving DecidableEq

/-- No run was begun. -/
def Task.idle : Task where
  active := none
  requested := false
  runs := []

/-- What happens to a task.  A run that is begun in a step may throw before it
gives a promise. -/
inductive TaskStep where
  | request (throws : Bool)
  | settle (run : ℕ) (fulfilled : Bool)
  | resume (throws : Bool)
  deriving DecidableEq

/-- Begin a run; the answer is its number. -/
def Task.begin
    (task : Task)
    (throws : Bool)
    (active : Option Active) : Task × Option ℕ :=
  ({ active
     requested := false
     runs := task.runs ++ [if throws then .rejected else .going] },
    some task.runs.length)

/-- A request: it is remembered, and begins a loop when none is going.  The
loop has left its promise behind before it is kept, when the action throws at
once. -/
def Task.request
    (task : Task)
    (throws : Bool) : Task × Option ℕ :=
  match task.active with
  | none =>
      if throws then
        task.begin true (some .ended)
      else
        task.begin false (some (.awaiting task.runs.length))
  | some _ =>
      ({ task with requested := true }, none)

/-- The loop goes on after its run came to an end. -/
def Task.resume
    (task : Task)
    (throws : Bool) : Task × Option ℕ :=
  match task.active with
  | some (.awaiting run) =>
      match task.runs[run]? with
      | some .fulfilled =>
          if task.requested then
            if throws then
              task.begin true none
            else
              task.begin false (some (.awaiting task.runs.length))
          else
            ({ task with active := none }, none)
      | some .rejected =>
          ({ task with active := none }, none)
      | _ =>
          (task, none)
  | _ =>
      (task, none)

/-- A run that is going comes to an end. -/
def Task.settle
    (task : Task)
    (run : ℕ)
    (fulfilled : Bool) : Task :=
  if task.runs[run]? = some .going then
    { task with
      runs := task.runs.set run (if fulfilled then .fulfilled else .rejected) }
  else
    task

/-- One step of the task; the answer is the run that was begun. -/
def performTask
    (task : Task) : TaskStep → Task × Option ℕ
  | .request throws =>
      task.request throws
  | .settle run fulfilled =>
      (task.settle run fulfilled, none)
  | .resume throws =>
      task.resume throws

end Frameleaf.Coalesced
