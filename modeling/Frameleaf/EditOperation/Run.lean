import Frameleaf.MediaOperation.StepLaws

namespace Frameleaf.EditOperation

open MediaOperation

/-!
# One run of an edit under its row's claim

A run keeps its own idea of its claim in memory.  Its calls wait for the
database, and others of its calls and its heartbeat go on meanwhile.  A call is
kept here as the place where it waits; what it does when the answer comes is a
function of that place and of what the run thinks then.
-/

/-- What a run thinks of its claim. -/
inductive RunState where
  | working
  | validating
  | settled
  | lost
deriving DecidableEq, Repr

/-- The result that an executor completes with. -/
inductive CompletedResult where
  | asset (id : Option AssetId)
  /-- A function of the executor, asked when the result is published. -/
  | asked
deriving DecidableEq, Repr

/-- What an executor returns. -/
inductive JobStatus where
  | success
  | failed
  | skipped
deriving DecidableEq, Repr

/-- Why an edit failed that gave no reason of its own. -/
def EDIT_RENDER_FAILED : Failure where
  errorCode := "edit_render_failed"
  error := "The edit could not be rendered"

/-- The result of an edit that had nothing to publish. -/
def EDIT_NOTHING_PUBLISHED : OperationResult where
  studioRenderProgress := none
  status := none
  rest := "\x7b\"outcome\":\"nothing_published\"\x7d"

/-- Why an edit failed whose item left the library. -/
def RESULT_NOT_OWNED : Failure where
  errorCode := "result_not_owned"
  error := "The edited item is no longer in this library"

/-- A run, with what it keeps in memory. -/
structure EditOperationRun where
  id : OperationId
  ownerId : OwnerId
  assetId : Option AssetId
  claimToken : Token
  leaseMs : ℤ
  /-- The run is one of the job queue, which publishes what it completes. -/
  inQueue : Bool
  state : RunState
  timer : Bool
  errorNote : Option Failure
  progressUnits : ℕ
  publicationQueued : Bool
deriving DecidableEq, Repr

namespace EditOperationRun

/-- Settled or lost: the run takes no call any more. -/
def done (run : EditOperationRun) : Bool :=
  run.state == .settled || run.state == .lost

/-- The run is settled, and its heartbeat stops. -/
def settle (run : EditOperationRun) : EditOperationRun :=
  { run with state := .settled, timer := false }

/-- The run thinks that its claim is lost. -/
def lose (run : EditOperationRun) : EditOperationRun :=
  { run with state := .lost }

end EditOperationRun

/-- Who asked whether the run may publish. -/
inductive Asker where
  | executor
  | complete (result : CompletedResult)
deriving DecidableEq, Repr

/-- Who asked for the run to be cancelled. -/
inductive Canceller where
  | executor
  | validate (asker : Asker)
deriving DecidableEq, Repr

/-- Where a call of the run waits. -/
inductive Await where
  /-- A report of progress is being written. -/
  | reporting (value : ℕ)
  /-- The row is read, since a report was refused. -/
  | checkingReport
  /-- The row is being moved to its last gate. -/
  | beginning (asker : Asker)
  /-- The row is read, since the last gate was refused. -/
  | checkingCancel (asker : Asker)
  /-- The answer of `validate` is on its way to `complete`. -/
  | validated (result : CompletedResult) (ok : Bool)
  /-- The cancel of the run is being written. -/
  | requestingCancel (canceller : Canceller)
  /-- The acknowledgement of the cancel is being written. -/
  | acknowledging (canceller : Canceller)
  /-- The completion is being written. -/
  | completing (accepted : Option AssetId)
  /-- The first write of a failure. -/
  | failingRetry (failure : Failure)
  /-- The second write of a failure. -/
  | failingReport (failure : Failure)
  /-- The row is being handed back. -/
  | releasing (delayMs : ℤ)
  /-- The lease is being extended. -/
  | beating
  /-- The queue committed the publication, and tells the run. -/
  | settling
deriving DecidableEq, Repr

/-- The completion that a run writes. -/
def completion (accepted : Option AssetId) : Completion where
  resultAssetId := accepted
  progress := none
  result := if accepted = none then some EDIT_NOTHING_PUBLISHED else none

/-- The report of progress that a run writes. -/
def progressPatch (value : ℕ) : ProgressPatch where
  status := .rendering
  processedUnits := value
  totalUnits := some 100
  progress := value
  studioRender := none

/-- The statement that a waiting call sent, if it sent one. -/
def Await.write (run : EditOperationRun) : Await → Option Call
  | .reporting value =>
      some (.reportProgress run.id run.claimToken (progressPatch value))
  | .checkingReport => none
  | .beginning _ => some (.beginValidation run.id run.claimToken false)
  | .checkingCancel _ => none
  | .validated _ _ => none
  | .requestingCancel _ =>
      some (.requestCancel run.id run.ownerId (some run.claimToken) false)
  | .acknowledging _ =>
      some (.acknowledgeCancel run.id run.claimToken true false)
  | .completing accepted =>
      some (.complete run.id run.claimToken (completion accepted) false)
  | .failingRetry failure =>
      some (.failRetry run.id run.claimToken failure false false)
  | .failingReport failure =>
      some (.failReport run.id run.claimToken failure false)
  | .releasing delayMs =>
      some (.requeue run.id run.claimToken delayMs true false)
  | .beating => some (.heartbeat run.id run.claimToken run.leaseMs false)
  | .settling => none

/-- What comes back to a waiting call: whether a row was written or meets. -/
abbrev Answer := Bool

/-- The row shows a cancel that the run's own claim is to answer. -/
def cancelRequested (run : EditOperationRun) (row : Option Row) : Bool :=
  row.any fun row =>
    row.cancelRequestedAt.isSome && row.claimToken == some run.claimToken

/-- How a call goes on: what the run thinks then, and where it waits next. -/
structure Onward where
  run : EditOperationRun
  waits : Option Await
  /-- `validate` answers that the run may publish. -/
  mayPublish : Bool
  /-- The publication is left to the queue. -/
  defers : Option CompletedResult

namespace Onward

/-- The call ends. -/
def ends (run : EditOperationRun) : Onward where
  run
  waits := none
  mayPublish := false
  defers := none

/-- The call waits again. -/
def wait (run : EditOperationRun) (await : Await) : Onward where
  run
  waits := some await
  mayPublish := false
  defers := none

/-- The answer of `validate` goes to whoever asked. -/
def answer (run : EditOperationRun) (asker : Asker) (ok : Bool) : Onward :=
  match asker with
  | .executor =>
      { ends run with mayPublish := ok }
  | .complete result =>
      { wait run (.validated result ok) with mayPublish := ok }

end Onward

/-- The result that is published, decided now where a function is asked. -/
def CompletedResult.accepted
    (decided : Option AssetId) : CompletedResult → Option AssetId
  | .asset id => id
  | .asked => decided

/-- The answer leaves a call nothing more to do in a run that is done. -/
def Await.isIdle (answer : Answer) : Await → Bool
  | .reporting _ => answer
  | .checkingReport => answer
  | .checkingCancel _ => answer
  | .beating => answer
  | .validated _ ok => !ok
  | .completing accepted => !answer && accepted.isSome
  | _ => false

namespace EditOperationRun

/-- `progress`: a report, while the run thinks it is working. -/
def progress (run : EditOperationRun) (value : ℕ) : Onward :=
  if run.state ≠ .working then
    .ends run
  else
    .wait run (.reporting (min 100 value))

/-- `validate`: the last gate before an executor publishes. -/
def validate (run : EditOperationRun) (asker : Asker) : Onward :=
  if run.state = .validating then
    .answer run asker true
  else if run.state ≠ .working then
    .answer run asker false
  else
    .wait run (.beginning asker)

/-- `complete`: what was published, or that there was nothing to publish. -/
def complete (run : EditOperationRun) (result : CompletedResult) : Onward :=
  if run.publicationQueued then
    .ends run
  else
    run.validate (.complete result)

/-- `fail`: a failure, with the automatic retry unless it cannot help. -/
def fail (run : EditOperationRun) (failure : Failure) (retry : Bool) : Onward :=
  if run.done then
    .ends run
  else if retry then
    .wait run (.failingRetry failure)
  else
    .wait run (.failingReport failure)

/-- `cancelled`: the executor stopped for a cancel. -/
def cancelled (run : EditOperationRun) (canceller : Canceller) : Onward :=
  if run.done then
    match canceller with
    | .executor => .ends run
    | .validate asker => .answer run asker false
  else
    .wait run (.requestingCancel canceller)

/-- `release`: the row is handed back without using an attempt. -/
def release (run : EditOperationRun) (delayMs : ℤ) : Onward :=
  if run.done then
    .ends run
  else
    .wait run (.releasing delayMs)

/-- `finish`: the row is settled from what the executor returned. -/
def finish (run : EditOperationRun) (status : JobStatus) : Onward :=
  if run.done then
    .ends run
  else
    match status with
    | .success => run.complete (.asset run.assetId)
    | .skipped => run.complete (.asset none)
    | .failed => run.fail (run.errorNote.getD EDIT_RENDER_FAILED) true

/-- `heartbeat`, when the timer fires. -/
def heartbeat (run : EditOperationRun) : Onward :=
  if run.done then
    .ends { run with timer := false }
  else
    .wait run .beating

/-- How a call goes on when its answer comes. -/
def goOn
    (run : EditOperationRun)
    (decided : Option AssetId)
    (answer : Answer) : Await → Onward
  | .reporting value =>
      if answer then
        .ends { run with progressUnits := max run.progressUnits value }
      else
        .wait run .checkingReport
  | .checkingReport =>
      if answer then .ends run else .ends run.lose
  | .beginning asker =>
      if answer then
        .answer { run with state := .validating } asker true
      else
        .wait run (.checkingCancel asker)
  | .checkingCancel asker =>
      if answer then
        run.cancelled (.validate asker)
      else
        .answer run.lose asker false
  | .validated result ok =>
      if !ok then
        .ends run
      else if run.inQueue then
        { Onward.ends { run with publicationQueued := true } with
          defers := some result }
      else
        .wait run (.completing (result.accepted decided))
  | .requestingCancel canceller =>
      .wait run (.acknowledging canceller)
  | .acknowledging .executor =>
      .ends run.settle
  | .acknowledging (.validate asker) =>
      .answer run.settle asker false
  | .completing accepted =>
      if answer then
        .ends run.settle
      else if accepted.isNone then
        .ends run.lose
      else
        run.fail RESULT_NOT_OWNED false
  | .failingRetry failure =>
      if answer then .ends run.settle else .wait run (.failingReport failure)
  | .failingReport _ =>
      .ends run.settle
  | .releasing _ =>
      .ends run.settle
  | .beating =>
      if answer then .ends run else .ends { run.lose with timer := false }
  | .settling =>
      .ends run.settle

end EditOperationRun

open MediaOperation Table Trace

/-!
## A run among everybody else

The run's calls and heartbeats begin, their statements are written and their
answers come back, each at a moment of its own, while others write to the table
under other tokens.  What the run leaves to the queue is published, or settled
as a failure, in one transaction of the queue.
-/

/-- A call that waits, with the answer that the database gave. -/
structure Waiting where
  await : Await
  answer : Option Answer
deriving DecidableEq, Repr

/-- The operations, and the run with its calls. -/
structure Edit where
  store : OperationStore
  run : EditOperationRun
  waiting : List Waiting
  /-- Completions that were left to the queue. -/
  deferred : List CompletedResult

/-- A method of the run that an executor calls. -/
inductive RunCall where
  | noteError (failure : Failure)
  | progress (value : ℕ)
  | validate
  | complete (result : CompletedResult)
  | fail (failure : Failure) (retry : Bool)
  | cancelled
  | release (delayMs : ℤ)
  | finish (status : JobStatus)
deriving DecidableEq, Repr

/-- How a call begins. -/
def RunCall.start (run : EditOperationRun) : RunCall → Onward
  | .noteError failure => .ends { run with errorNote := some failure }
  | .progress value => run.progress value
  | .validate => run.validate .executor
  | .complete result => run.complete result
  | .fail failure retry => run.fail failure retry
  | .cancelled => run.cancelled .executor
  | .release delayMs => run.release delayMs
  | .finish status => run.finish status

/-- Something that happens. -/
inductive Event where
  /-- Somebody else writes to the table. -/
  | others (step : MediaOperation.Step)
  /-- The executor calls the run. -/
  | calls (call : RunCall)
  /-- The timer of the heartbeat fires. -/
  | beats
  /-- The database serves the call that waits at a place. -/
  | serves (place : ℕ) (instant : Instant) (seen : Surroundings)
  /-- The answer reaches the call that waits at a place. -/
  | answers (place : ℕ) (decided : Option AssetId)
  /-- The queue publishes what was left to it. -/
  | publishes (instant : Instant) (seen : Surroundings)
      (decided : Option AssetId)
  /-- The queue settles a job whose publication was rejected. -/
  | settles (instant : Instant) (seen : Surroundings) (reason : String)
      (cancelled : Bool)

/-- What a step showed: a statement that was sent, and leave to publish. -/
structure Shown where
  sends : Option Call
  mayPublish : Bool

/-- Nothing was shown. -/
def Shown.nothing : Shown where
  sends := none
  mayPublish := false

/-- A call goes on: it waits again, or its publication is left to the queue. -/
def Edit.goOn (edit : Edit) (onward : Onward) : Edit × Shown :=
  ({ store := edit.store
     run := onward.run
     waiting := edit.waiting ++
       (onward.waits.map fun await => ⟨await, none⟩).toList
     deferred := edit.deferred ++ onward.defers.toList },
    { sends := onward.waits.bind (·.write onward.run)
      mayPublish := onward.mayPublish })

/-- The database serves a waiting call. -/
def Edit.serve
    (edit : Edit)
    (instant : Instant)
    (seen : Surroundings)
    (await : Await) : OperationStore × Answer :=
  match await.write edit.run with
  | some call =>
      let (store, taken) := perform edit.store ⟨instant, seen, call⟩
      (store, taken.contains edit.run.id)
  | none =>
      (edit.store,
        match await with
        | .validated _ ok => ok
        | .settling => true
        | _ => cancelRequested edit.run (edit.store.table.lookup edit.run.id))

/-- One completion within the transaction of the queue. -/
def publishOne
    (run : EditOperationRun)
    (instant : Instant)
    (seen : Surroundings)
    (accepted : Option AssetId)
    (store : OperationStore) : Option OperationStore :=
  let (after, taken) := perform store
    ⟨instant, seen, .complete run.id run.claimToken (completion accepted) true⟩
  if taken.contains run.id then some after else none

/-- Every completion that was left to the queue, or none of them. -/
def publishAll
    (run : EditOperationRun)
    (instant : Instant)
    (seen : Surroundings)
    (decided : Option AssetId)
    (store : OperationStore) : List CompletedResult → Option OperationStore
  | [] => some store
  | result :: rest =>
      (publishOne run instant seen (result.accepted decided) store).bind
        fun after => publishAll run instant seen decided after rest

/-- Execute the statements of a transaction one after the other. -/
def performAll
    (instant : Instant)
    (seen : Surroundings)
    (store : OperationStore)
    (calls : List Call) : OperationStore :=
  calls.foldl (fun store call => (perform store ⟨instant, seen, call⟩).1) store

/-- How the queue settles a job whose publication was rejected. -/
def settlement
    (run : EditOperationRun)
    (store : OperationStore)
    (instant : Instant)
    (seen : Surroundings)
    (reason : String)
    (cancelled : Bool) : OperationStore :=
  match (store.table.lookup run.id).filter (Row.heldBy run.claimToken) with
  | none => store
  | some row =>
      if cancelled || row.cancelRequestedAt.isSome then
        performAll instant seen store
          [.requestCancel run.id run.ownerId (some run.claimToken) false,
            .acknowledgeCancel run.id run.claimToken true false]
      else
        let failure : Failure := ⟨reason, EDIT_RENDER_FAILED.errorCode⟩
        let (after, taken) := perform store
          ⟨instant, seen, .failRetry run.id run.claimToken failure false false⟩
        if taken.contains run.id then
          after
        else
          performAll instant seen after
            [.failReport run.id run.claimToken failure false]

/-- What an event does. -/
def happen (edit : Edit) : Event → Edit × Shown
  | .others step =>
      if step.call.bears.any (·.2 == edit.run.claimToken) then
        (edit, .nothing)
      else
        ({ edit with store := edit.store.after step }, .nothing)
  | .calls call =>
      edit.goOn (call.start edit.run)
  | .beats =>
      if edit.run.timer then
        edit.goOn edit.run.heartbeat
      else
        (edit, .nothing)
  | .serves place instant seen =>
      match edit.waiting[place]? with
      | some ⟨await, none⟩ =>
          let (store, answer) := edit.serve instant seen await
          ({ edit with
              store
              waiting := edit.waiting.set place ⟨await, some answer⟩ },
            .nothing)
      | _ => (edit, .nothing)
  | .answers place decided =>
      match edit.waiting[place]? with
      | some ⟨await, some answer⟩ =>
          { edit with waiting := edit.waiting.eraseIdx place }.goOn
            (edit.run.goOn decided answer await)
      | _ => (edit, .nothing)
  | .publishes instant seen decided =>
      match publishAll edit.run instant seen decided edit.store edit.deferred with
      | none => (edit, .nothing)
      | some store =>
          ({ edit with
              store
              waiting := edit.waiting ++
                edit.deferred.map fun _ => ⟨.settling, some true⟩ },
            .nothing)
  | .settles instant seen reason cancelled =>
      if edit.deferred.isEmpty || edit.run.done then
        (edit, .nothing)
      else
        ({ edit with
            store := settlement edit.run edit.store instant seen reason cancelled },
          .nothing)

/--
An event is on time when no answer and no publication reaches the run after
another answer has settled or lost it, unless it leaves nothing to do.
-/
def Edit.onTime (edit : Edit) : Event → Bool
  | .answers place _ =>
      match edit.waiting[place]? with
      | some ⟨await, some answer⟩ => !edit.run.done || await.isIdle answer
      | _ => true
  | .publishes _ _ _ => !edit.run.done || edit.deferred.isEmpty
  | _ => true

/-- A delivery of the queue's job claims the row and begins a run. -/
def begin
    (earlier : List MediaOperation.Step)
    (instant : Instant)
    (seen : Surroundings)
    (id : OperationId)
    (leaseMs : ℤ)
    (inQueue : Bool) : Option Edit :=
  let before := finalState perform .empty earlier
  let (store, taken) := perform before
    ⟨instant, seen, .beginJobQueueRun id leaseMs⟩
  match taken.contains id, store.table.lookup id with
  | true, some row =>
      some {
        store
        run := {
          id
          ownerId := row.ownerId
          assetId := row.assetId
          claimToken := before.issued
          leaseMs
          inQueue
          state := .working
          timer := true
          errorNote := none
          progressUnits := 0
          publicationQueued := false }
        waiting := []
        deferred := [] }
  | _, _ => none

end Frameleaf.EditOperation
