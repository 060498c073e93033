import Frameleaf.Lib.Trace
import Frameleaf.Manager.Store
import Mathlib.Data.List.Nodup
import Mathlib.Logic.Function.Basic

namespace Frameleaf.Manager

open Json Trace

/-!
# Manager processes over one operation store

A step is one statement of one process together with what the process does
around it, so a run is any interleaving of the processes' calls.  A process may
stop between any two of its steps; it then starts again with an empty memory.
-/

/-- The identifier of a manager process. -/
abbrev ProcessId := ℕ

/-- The database and the memories of the processes that have it open. -/
structure System where
  rows : List Row := []
  processes : ProcessId → Process := fun _ => {}

/-- One statement of one process. -/
inductive StoreStep where
  /-- The process stops and loses its memory. -/
  | crash (process : ProcessId)
  /-- The process changes an operation in its memory. -/
  | edit (process : ProcessId) (handle : ℕ) (operation : Operation)
  /-- A start begins with the lookup of its request key. -/
  | start (process : ProcessId) (kind : OperationKind)
      (requestKey : String) (input : Fields)
      (reviewedImport : Option ReviewedImport) (fresh : OperationId)
      (createdAt updatedAt : ℤ)
  /-- A start that found its request key unused inserts its operation. -/
  | insert (process : ProcessId) (available : Bool)
  | request (process : ProcessId) (kind : Option OperationKind)
      (requestKey : String) (input : Fields)
  | save (process : ProcessId) (handle : ℕ) (now : ℤ) (available : Bool)
  /-- An interruption begins with the listing of the operations. -/
  | interrupt (process : ProcessId)
  /-- An interruption saves the next operation that was running. -/
  | interruptNext (process : ProcessId) (now : ℤ) (available : Bool)
  | locked (process : ProcessId)
  | history (process : ProcessId)

/-- The process that makes a step. -/
def StoreStep.process : StoreStep → ProcessId
  | .crash process | .edit process .. | .start process .. | .insert process ..
  | .request process .. | .save process .. | .interrupt process
  | .interruptNext process .. | .locked process | .history process => process

/-- What a call answers in a step. -/
inductive StoreResponse where
  | silent
  | started (operation : Operation) (created : Bool)
  | found (operation : Option Operation)
  | read (operations : List Operation)
  | saved (operation : Operation)
  | refused (refusal : Refusal)
  | failed (failure : StatementFailure)
deriving DecidableEq

/-- The stored values that an answer shows to its process. -/
def StoreResponse.values : StoreResponse → List Operation
  | .started operation _ | .found (some operation) | .saved operation =>
      [operation]
  | .read operations => operations
  | .silent | .found none | .refused _ | .failed _ => []

/-- Change the memory of one process. -/
def System.setProcess
    (system : System)
    (id : ProcessId)
    (process : Process) : System :=
  { system with processes := Function.update system.processes id process }

/-- One process saves one operation and goes on with a call. -/
def System.saveHeld
    (system : System)
    (id : ProcessId)
    (handle : ℕ)
    (held : Held)
    (goesOn : Call)
    (now : ℤ)
    (available : Bool) : System × StoreResponse :=
  let process := system.processes id
  match save system.rows held now available with
  | .saved rows held =>
      ({ system with rows := rows }.setProcess id
          { process.replace handle held with call := goesOn },
        .saved held.operation)
  | .refused refusal held =>
      (system.setProcess id (process.replace handle held).finish,
        .refused refusal)
  | .failed failure held =>
      (system.setProcess id (process.replace handle held).finish,
        .failed failure)

/-- A process that is in no call reads values into its memory. -/
def System.readValues
    (system : System)
    (id : ProcessId)
    (values : List Operation)
    (response : StoreResponse) : System × StoreResponse :=
  (system.setProcess id ((system.processes id).hold (values.map decode)),
    response)

/-- The call an interruption goes on with. -/
def Call.interruptingFrom : List ℕ → Call
  | [] => .idle
  | handles => .interrupting handles

/-- The places in a process's memory of the listed operations that ran. -/
def runningHandles
    (process : Process)
    (values : List Operation) : List ℕ :=
  (List.range values.length).filterMap fun index =>
    if values[index]?.any (·.state == .running) then
      some (process.held.length + index)
    else
      none

/-- A step that begins a call of a process that is in none. -/
def System.beginCall
    (system : System)
    (id : ProcessId)
    (result : System × StoreResponse) : System × StoreResponse :=
  if (system.processes id).call = .idle then
    result
  else
    (system, .silent)

/-- One step of one process. -/
def System.perform
    (system : System) :
    StoreStep → System × StoreResponse
  | .crash id =>
      (system.setProcess id {}, .silent)
  | .edit id handle operation =>
      system.beginCall id
        (match (system.processes id).held[handle]? with
          | none =>
              (system, .silent)
          | some held =>
              (system.setProcess id
                ((system.processes id).replace handle
                  { held with operation := operation }), .silent))
  | .start id kind requestKey input reviewedImport fresh createdAt updatedAt =>
      system.beginCall id
        (match beginStart system.rows kind requestKey input reviewedImport
            fresh createdAt updatedAt with
        | .error refusal =>
            (system, .refused refusal)
        | .ok (.inl prior) =>
            system.readValues id [prior] (.started prior false)
        | .ok (.inr operation) =>
            (system.setProcess id
              { system.processes id with
                call := .inserting operation requestKey }, .silent))
  | .insert id available =>
      match (system.processes id).call with
      | .inserting operation requestKey =>
          match
              if available then
                insertOperation system.rows operation.id requestKey operation
              else
                .error .unavailable with
          | .error _ =>
              (system.setProcess id (system.processes id).finish,
                .refused { code := "operation_in_progress" })
          | .ok rows =>
              ({ system with rows := rows }.setProcess id
                  ((system.processes id).hold [decode operation]).finish,
                .started operation true)
      | _ =>
          (system, .silent)
  | .request id kind requestKey input =>
      system.beginCall id
        (match requested system.rows kind requestKey input with
        | .error refusal =>
            (system, .refused refusal)
        | .ok found =>
            system.readValues id found.toList (.found found))
  | .save id handle now available =>
      system.beginCall id
        (match (system.processes id).held[handle]? with
          | none =>
              (system, .silent)
          | some held =>
              system.saveHeld id handle held .idle now available)
  | .interrupt id =>
      let process := system.processes id
      let values := selectHistory system.rows
      system.beginCall id
        (system.setProcess id
          { process.hold (values.map decode) with
            call := .interruptingFrom (runningHandles process values) },
          .read values)
  | .interruptNext id now available =>
      match (system.processes id).call with
      | .interrupting (handle :: rest) =>
          match (system.processes id).held[handle]? with
          | none =>
              (system, .silent)
          | some held =>
              system.saveHeld id handle held.interrupt
                (.interruptingFrom rest) now available
      | _ =>
          (system, .silent)
  | .locked id =>
      system.beginCall id
        (system.readValues id (selectActive system.rows).toList
          (.found (selectActive system.rows)))
  | .history id =>
      system.beginCall id
        (system.readValues id (selectHistory system.rows)
          (.read (selectHistory system.rows)))

open Json Trace

/-!
## What one statement does to the store and to its process

A statement keeps the rows, adds an open operation that conflicts with none, or
overwrites the one row that still holds the value its process remembers.  A
process remembers only values that an answer has shown to it.
-/

/-- What the rows of one statement come from. -/
inductive RowsEffect
    (rows : List Row)
    (process : Process) :
    StoreResponse → List Row → Prop
  | kept {response : StoreResponse}
      (notSaved : ∀ operation, response ≠ .saved operation)
      (notCreated : ∀ operation, response ≠ .started operation true) :
      RowsEffect rows process response rows
  | inserted {operation : Operation} {requestKey : String}
      {after : List Row}
      (inserting : process.call = .inserting operation requestKey)
      (accepted :
        insertOperation rows operation.id requestKey operation = .ok after) :
      RowsEffect rows process (.started operation true) after
  | saved {operation previous : Operation} {held : Held} {after : List Row}
      (inMemory : held ∈ process.held)
      (remembered : held.version = some previous)
      (accepted :
        updateOperation rows operation.activeColumn operation operation.id
          previous = .ok (after, 1)) :
      RowsEffect rows process (.saved operation) after

/-- What the memory of a process comes from in one of its steps. -/
structure MemoryEffect
    (before after : Process)
    (response : StoreResponse) : Prop where
  versions : ∀ held ∈ after.held, ∀ version,
    held.version = some version →
      (∃ earlier ∈ before.held, earlier.version = some version) ∨
        version ∈ response.values
  inserting : ∀ operation requestKey,
    after.call = .inserting operation requestKey →
      before.call = .inserting operation requestKey ∨
        operation.state = .running

/-- What one step of a process does. -/
structure StepEffect
    (before : System)
    (id : ProcessId)
    (response : StoreResponse)
    (after : System) : Prop where
  others : ∀ other, other ≠ id → after.processes other = before.processes other
  memory : MemoryEffect (before.processes id) (after.processes id) response
  rows : RowsEffect before.rows (before.processes id) response after.rows

section Memory

variable {process : Process} {response : StoreResponse}

theorem memoryEffect_refl : MemoryEffect process process response where
  versions := by
    intro held member version remembered
    exact .inl ⟨held, member, remembered⟩
  inserting := by
    intro operation requestKey waits
    exact .inl waits

theorem memoryEffect_crash : MemoryEffect process {} response where
  versions := by
    simp
  inserting := by
    simp

theorem memoryEffect_hold
    {values : List Operation}
    {call : Call}
    (shown : ∀ value ∈ values, value ∈ response.values)
    (goesOn : ∀ operation requestKey,
      call = .inserting operation requestKey →
        process.call = .inserting operation requestKey ∨
          operation.state = .running) :
    MemoryEffect process
      { process.hold (values.map decode) with call := call } response where
  versions := by
    intro held member version remembered
    rcases List.mem_append.mp member with inMemory | taken
    · exact .inl ⟨held, inMemory, remembered⟩
    · obtain ⟨value, listed, rfl⟩ := List.mem_map.mp taken
      have sameValue : value = version := Option.some.inj remembered
      exact .inr (sameValue ▸ shown value listed)
  inserting := goesOn

theorem memoryEffect_replace
    {handle : ℕ}
    {held : Held}
    {call : Call}
    (version : ∀ value, held.version = some value →
      (∃ earlier ∈ process.held, earlier.version = some value) ∨
        value ∈ response.values)
    (goesOn : ∀ operation requestKey,
      call = .inserting operation requestKey →
        process.call = .inserting operation requestKey ∨
          operation.state = .running) :
    MemoryEffect process
      { process.replace handle held with call := call } response where
  versions := by
    intro other member value remembered
    rcases List.mem_or_eq_of_mem_set member with inMemory | rfl
    · exact .inl ⟨other, inMemory, remembered⟩
    · exact version value remembered
  inserting := goesOn

end Memory

/-- What a save comes to. -/
theorem save_cases
    (rows : List Row)
    (held : Held)
    (now : ℤ)
    (available : Bool) :
    (∃ after previous,
      save rows held now available =
          .saved after (decode (held.stamp now).operation) ∧
        held.version = some previous ∧
        updateOperation rows (held.stamp now).operation.activeColumn
            (held.stamp now).operation (held.stamp now).operation.id
            previous = .ok (after, 1)) ∨
      (∃ kept,
        save rows held now available =
            .refused { code := "operation_journal_changed" } kept ∧
          kept.version = held.version) ∨
      ∃ failure kept,
        save rows held now available = .failed failure kept ∧
          kept.version = held.version := by
  rw [save]
  cases remembered : held.version with
  | none =>
      exact .inr (.inl ⟨held, rfl, remembered⟩)
  | some previous =>
      have stamped : (held.stamp now).version = some previous := remembered
      cases available with
      | false =>
          exact .inr (.inr ⟨.unavailable, held.stamp now, rfl, stamped⟩)
      | true =>
          generalize held.stamp now = written at stamped ⊢
          cases updated : updateOperation rows written.operation.activeColumn
              written.operation written.operation.id previous with
          | error failure =>
              exact .inr (.inr ⟨failure, written, by simp [updated], stamped⟩)
          | ok result =>
              obtain ⟨after, changes⟩ := result
              by_cases one : changes = 1
              · subst one
                exact .inl
                  ⟨after, previous, by simp [updated], rfl, updated⟩
              · exact .inr
                  (.inl ⟨written, by simp [updated, one], stamped⟩)

variable {system : System} {id : ProcessId}

theorem setProcess_others
    {other : ProcessId}
    {process : Process}
    (different : other ≠ id) :
    (system.setProcess id process).processes other =
      system.processes other :=
  Function.update_of_ne different ..

/-- A process that was given a memory has it. -/
@[simp] theorem setProcess_own
    {process : Process} :
    (system.setProcess id process).processes id = process :=
  Function.update_self ..

/-- Giving a process a memory leaves the rows alone. -/
@[simp] theorem setProcess_rows
    {process : Process} :
    (system.setProcess id process).rows = system.rows :=
  rfl

section Effects

variable {system : System} {id : ProcessId}

theorem stepEffect_silent :
    StepEffect system id .silent system where
  others := by
    simp
  memory := memoryEffect_refl
  rows := .kept (by simp) (by simp)

theorem stepEffect_setProcess
    {process : Process}
    {response : StoreResponse}
    (memory : MemoryEffect (system.processes id) process response)
    (notSaved : ∀ operation, response ≠ .saved operation)
    (notCreated : ∀ operation, response ≠ .started operation true) :
    StepEffect system id response (system.setProcess id process) where
  others := by
    intro other different
    exact setProcess_others different
  memory := by
    rw [setProcess_own]
    exact memory
  rows := .kept notSaved notCreated

theorem stepEffect_beginCall
    {result : System × StoreResponse}
    (begun : (system.processes id).call = .idle →
      StepEffect system id result.2 result.1) :
    StepEffect system id (system.beginCall id result).2
      (system.beginCall id result).1 := by
  rw [System.beginCall]
  split
  · next isIdle =>
      exact begun isIdle
  · exact stepEffect_silent

theorem stepEffect_readValues
    {values : List Operation}
    {response : StoreResponse}
    (shown : ∀ value ∈ values, value ∈ response.values)
    (notSaved : ∀ operation, response ≠ .saved operation)
    (notCreated : ∀ operation, response ≠ .started operation true) :
    StepEffect system id (system.readValues id values response).2
      (system.readValues id values response).1 := by
  have memory :
      MemoryEffect (system.processes id)
        ((system.processes id).hold (values.map decode)) response :=
    memoryEffect_hold shown (fun _ _ waits => .inl waits)
  exact stepEffect_setProcess memory notSaved notCreated

/-- A save writes the row that holds the remembered value, or nothing. -/
theorem stepEffect_saveHeld
    {handle : ℕ}
    {held inMemory : Held}
    {goesOn : Call}
    {now : ℤ}
    {available : Bool}
    (member : inMemory ∈ (system.processes id).held)
    (sameVersion : held.version = inMemory.version)
    (notInserting : ∀ operation requestKey,
      goesOn ≠ .inserting operation requestKey) :
    StepEffect system id
      (system.saveHeld id handle held goesOn now available).2
      (system.saveHeld id handle held goesOn now available).1 := by
  have keeps
      {kept : Held}
      (keptVersion : kept.version = held.version)
      (response : StoreResponse) :
      MemoryEffect (system.processes id)
        ((system.processes id).replace handle kept).finish response := by
    apply memoryEffect_replace
    · intro value remembered
      refine .inl ⟨inMemory, member, ?_⟩
      rw [← sameVersion, ← keptVersion, remembered]
    · simp
  rw [System.saveHeld]
  rcases save_cases system.rows held now available with
    ⟨after, previous, saved, remembered, accepted⟩ |
      ⟨kept, refused, keptVersion⟩ |
      ⟨failure, kept, failed, keptVersion⟩
  · rw [saved]
    refine ⟨fun other different => setProcess_others different, ?_,
      .saved member (sameVersion ▸ remembered) accepted⟩
    rw [setProcess_own]
    apply memoryEffect_replace
    · intro value shown
      obtain rfl : _ = value := Option.some.inj shown
      exact .inr (List.mem_singleton.mpr rfl)
    · intro operation requestKey waits
      exact absurd waits (notInserting operation requestKey)
  · rw [refused]
    exact stepEffect_setProcess (keeps keptVersion _) (by simp) (by simp)
  · rw [failed]
    exact stepEffect_setProcess (keeps keptVersion _) (by simp) (by simp)

theorem interruptingFrom_ne_inserting
    (handles : List ℕ)
    (operation : Operation)
    (requestKey : String) :
    Call.interruptingFrom handles ≠ .inserting operation requestKey := by
  cases handles <;> simp [Call.interruptingFrom]

theorem beginStart_running
    {rows : List Row}
    {kind : OperationKind}
    {requestKey : String}
    {input : Fields}
    {reviewedImport : Option ReviewedImport}
    {fresh : OperationId}
    {createdAt updatedAt : ℤ}
    {operation : Operation}
    (goesOn :
      beginStart rows kind requestKey input reviewedImport fresh createdAt
        updatedAt = .ok (.inr operation)) :
    operation =
      newOperation kind input reviewedImport fresh createdAt updatedAt := by
  rw [beginStart] at goesOn
  split at goesOn
  · cases goesOn
  · obtain ⟨found, _, continued⟩ := Outcome.bind_eq_ok.mp goesOn
    cases found with
    | none =>
        simpa using (Outcome.pure_eq_ok.mp continued).symm
    | some prior =>
        simp only at continued
        split at continued
        · cases continued
        · cases Outcome.pure_eq_ok.mp continued

/-- Every step does to the rows and to its process's memory what it may. -/
theorem perform_effect
    (system : System)
    (step : StoreStep) :
    StepEffect system step.process (system.perform step).2
      (system.perform step).1 := by
  cases step with
  | crash id =>
      have silent : (system.perform (.crash id)).2 = .silent := rfl
      rw [silent]
      exact stepEffect_setProcess memoryEffect_crash (by simp) (by simp)
  | edit id handle operation =>
      apply stepEffect_beginCall
      intro isIdle
      cases found : (system.processes id).held[handle]? with
      | none =>
          exact stepEffect_silent
      | some held =>
          refine stepEffect_setProcess ?_ (by simp) (by simp)
          apply memoryEffect_replace
          · intro value remembered
            exact .inl ⟨held, List.mem_of_getElem? found, remembered⟩
          · intro operation requestKey waits
            exact .inl waits
  | start id kind requestKey input reviewedImport fresh createdAt updatedAt =>
      apply stepEffect_beginCall
      intro isIdle
      cases begun : beginStart system.rows kind requestKey input
          reviewedImport fresh createdAt updatedAt with
      | error refusal =>
          exact ⟨by simp, memoryEffect_refl, .kept (by simp) (by simp)⟩
      | ok next =>
          cases next with
          | inl prior =>
              exact stepEffect_readValues (by simp [StoreResponse.values])
                (by simp) (by simp)
          | inr operation =>
              refine stepEffect_setProcess ?_ (by simp) (by simp)
              refine ⟨memoryEffect_refl.versions, ?_⟩
              intro inserted insertedKey waits
              obtain ⟨rfl, rfl⟩ := Call.inserting.inj waits
              rw [beginStart_running begun]
              exact .inr rfl
  | insert id available =>
      simp only [System.perform, StoreStep.process]
      cases waits : (system.processes id).call with
      | idle =>
          exact stepEffect_silent
      | interrupting handles =>
          exact stepEffect_silent
      | inserting operation requestKey =>
          simp only
          cases inserted :
              (if available then
                insertOperation system.rows operation.id requestKey operation
              else
                .error .unavailable) with
          | error failure =>
              refine stepEffect_setProcess ?_ (by simp) (by simp)
              exact ⟨memoryEffect_refl.versions, by simp [Process.finish]⟩
          | ok rows =>
              cases available with
              | false =>
                  cases inserted
              | true =>
                  refine ⟨fun other different => setProcess_others different,
                    ?_, .inserted waits inserted⟩
                  rw [setProcess_own]
                  apply @memoryEffect_hold _ _ [operation] .idle
                  · simp [StoreResponse.values]
                  · simp
  | request id kind requestKey input =>
      apply stepEffect_beginCall
      intro isIdle
      cases found : requested system.rows kind requestKey input with
      | error refusal =>
          exact ⟨by simp, memoryEffect_refl, .kept (by simp) (by simp)⟩
      | ok prior =>
          refine stepEffect_readValues ?_ (by simp) (by simp)
          cases prior <;> simp [StoreResponse.values]
  | save id handle now available =>
      apply stepEffect_beginCall
      intro isIdle
      cases found : (system.processes id).held[handle]? with
      | none =>
          exact stepEffect_silent
      | some held =>
          exact stepEffect_saveHeld (List.mem_of_getElem? found) rfl (by simp)
  | interrupt id =>
      apply stepEffect_beginCall
      intro isIdle
      refine stepEffect_setProcess ?_ (by simp) (by simp)
      apply memoryEffect_hold
      · intro value listed
        exact listed
      · intro operation requestKey waits
        exact absurd waits (interruptingFrom_ne_inserting _ _ _)
  | interruptNext id now available =>
      simp only [System.perform, StoreStep.process]
      cases waits : (system.processes id).call with
      | idle =>
          exact stepEffect_silent
      | inserting operation requestKey =>
          exact stepEffect_silent
      | interrupting handles =>
          cases handles with
          | nil =>
              exact stepEffect_silent
          | cons handle rest =>
              simp only
              cases found : (system.processes id).held[handle]? with
              | none =>
                  exact stepEffect_silent
              | some held =>
                  exact stepEffect_saveHeld (List.mem_of_getElem? found) rfl
                    (interruptingFrom_ne_inserting rest)
  | locked id =>
      apply stepEffect_beginCall
      intro isIdle
      refine stepEffect_readValues ?_ (by simp) (by simp)
      cases selectActive system.rows <;> simp [StoreResponse.values]
  | history id =>
      apply stepEffect_beginCall
      intro isIdle
      exact stepEffect_readValues (by simp [StoreResponse.values])
        (by simp) (by simp)

end Effects

end Frameleaf.Manager
