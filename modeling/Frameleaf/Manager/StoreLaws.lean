import Mathlib.Data.List.Induction
import Frameleaf.Manager.StoreEffects

namespace Frameleaf.Manager

open Json Trace

/-!
# Mutual exclusion, no lost update and one operation for each request key

Every interleaving keeps the operations table well formed: its keys are
distinct, an operation is marked active exactly while it is open, and at most
one is.  Nothing overwrites a value that its process has not been shown, and a
request key stays with the first operation that was inserted under it.
-/

/-- What every reachable operations table satisfies. -/
structure RowsWellFormed (rows : List Row) : Prop where
  distinctIds : (rows.map Row.id).Nodup
  distinctKeys : (rows.map Row.requestKey).Nodup
  activeIff : ∀ row ∈ rows,
    row.active = some 1 ↔ row.value.state ≠ .complete
  ownId : ∀ row ∈ rows, row.value.id = row.id
  oneActive : (rows.filter (·.active == some 1)).length ≤ 1

theorem rowsWellFormed_nil : RowsWellFormed [] := by
  constructor <;> simp

variable {rows after : List Row} {id : OperationId} {requestKey : String}
  {value previous operation prior : Operation}

theorem insertOperation_eq_ok :
    insertOperation rows id requestKey value = .ok after ↔
      (∀ row ∈ rows, row.id ≠ id ∧ row.requestKey ≠ requestKey ∧
        row.active ≠ some 1) ∧
        after = rows ++ [⟨id, requestKey, some 1, value⟩] := by
  rw [insertOperation]
  split
  · next conflict =>
      obtain ⟨row, member, conflicts⟩ := List.any_eq_true.mp conflict
      simp only [reduceCtorEq, false_iff, not_and]
      intro free
      have rowFree := free row member
      simp [Row.conflicts, rowFree] at conflicts
  · next free =>
      simp only [List.any_eq_true, not_exists, not_and] at free
      rw [Except.ok.injEq]
      constructor
      · intro added
        refine ⟨?_, added.symm⟩
        intro row member
        simpa [Row.conflicts, and_assoc] using free row member
      · intro added
        exact added.2.symm

theorem updateOperation_eq_ok
    {active : Option ℕ}
    {changes : ℕ} :
    updateOperation rows active value id previous = .ok (after, changes) ↔
      after = rows.map (Row.write id previous active value) ∧
        (after.filter (·.active == some 1)).length ≤ 1 ∧
        changes = rows.countP (Row.isAt id previous) := by
  simp only [updateOperation]
  split
  · next tooMany =>
      simp only [reduceCtorEq, false_iff, not_and]
      rintro rfl few
      omega
  · next few =>
      simp only [Except.ok.injEq, Prod.mk.injEq]
      constructor
      · rintro ⟨rfl, rfl⟩
        exact ⟨rfl, Nat.le_of_not_lt few, rfl⟩
      · rintro ⟨rfl, _, rfl⟩
        exact ⟨rfl, rfl⟩

section Write

variable {id : OperationId} {previous value : Operation}
variable {active : Option ℕ} {row : Row}

/-- An update leaves the identifiers alone. -/
@[simp] theorem write_id :
    (row.write id previous active value).id = row.id := by
  rw [Row.write]
  split <;> rfl

/-- An update leaves the request keys alone. -/
@[simp] theorem write_requestKey :
    (row.write id previous active value).requestKey = row.requestKey := by
  rw [Row.write]
  split <;> rfl

theorem write_cases :
    row.write id previous active value = row ∨
      row.id = id ∧ row.value = previous ∧
        row.write id previous active value =
          { row with active := active, value := value } := by
  rw [Row.write]
  split
  · next taken =>
      simp only [Row.isAt, Bool.and_eq_true, beq_iff_eq] at taken
      exact .inr ⟨taken.1, taken.2, rfl⟩
  · exact .inl rfl

end Write

theorem RowsWellFormed.insert
    (wellFormed : RowsWellFormed rows)
    (running : operation.state = .running)
    (accepted :
      insertOperation rows operation.id requestKey operation = .ok after) :
    RowsWellFormed after := by
  obtain ⟨free, rfl⟩ := insertOperation_eq_ok.mp accepted
  constructor
  · rw [List.map_append, List.nodup_append]
    refine ⟨wellFormed.distinctIds, List.nodup_singleton _, ?_⟩
    simp only [List.mem_map, List.map_cons, List.map_nil, List.mem_singleton]
    rintro _ ⟨row, member, rfl⟩ _ rfl
    exact (free row member).1
  · rw [List.map_append, List.nodup_append]
    refine ⟨wellFormed.distinctKeys, List.nodup_singleton _, ?_⟩
    simp only [List.mem_map, List.map_cons, List.map_nil, List.mem_singleton]
    rintro _ ⟨row, member, rfl⟩ _ rfl
    exact (free row member).2.1
  · intro row member
    rcases List.mem_append.mp member with old | new
    · exact wellFormed.activeIff row old
    · rw [List.mem_singleton.mp new]
      simp [running]
  · intro row member
    rcases List.mem_append.mp member with old | new
    · exact wellFormed.ownId row old
    · rw [List.mem_singleton.mp new]
  · have noneActive : rows.filter (·.active == some 1) = [] := by
      apply List.filter_eq_nil_iff.mpr
      intro row member isActive
      exact (free row member).2.2 (beq_iff_eq.mp isActive)
    simp [List.filter_append, noneActive]

theorem RowsWellFormed.update
    {changes : ℕ}
    (wellFormed : RowsWellFormed rows)
    (accepted :
      updateOperation rows operation.activeColumn operation operation.id
        previous = .ok (after, changes)) :
    RowsWellFormed after := by
  obtain ⟨rfl, oneActive, _⟩ := updateOperation_eq_ok.mp accepted
  constructor
  · simpa [List.map_map, Function.comp_def] using wellFormed.distinctIds
  · simpa [List.map_map, Function.comp_def] using wellFormed.distinctKeys
  · intro row member
    obtain ⟨old, inRows, rfl⟩ := List.mem_map.mp member
    rcases write_cases with same | ⟨_, _, written⟩
    · rw [same]
      exact wellFormed.activeIff old inRows
    · rw [written]
      simp [Operation.activeColumn]
  · intro row member
    obtain ⟨old, inRows, rfl⟩ := List.mem_map.mp member
    rcases write_cases with same | ⟨sameId, _, written⟩
    · rw [same]
      exact wellFormed.ownId old inRows
    · rw [written]
      exact sameId.symm
  · exact oneActive

theorem RowsEffect.wellFormed
    {process : Process}
    {response : StoreResponse}
    (effect : RowsEffect rows process response after)
    (running : ∀ operation requestKey,
      process.call = .inserting operation requestKey →
        operation.state = .running)
    (before : RowsWellFormed rows) :
    RowsWellFormed after := by
  cases effect with
  | kept notSaved notCreated =>
      exact before
  | inserted inserting accepted =>
      exact before.insert (running _ _ inserting) accepted
  | saved inMemory remembered accepted =>
      exact before.update accepted

/-- What every reachable system satisfies. -/
structure SystemWellFormed (system : System) : Prop where
  rows : RowsWellFormed system.rows
  inserting : ∀ id operation requestKey,
    (system.processes id).call = .inserting operation requestKey →
      operation.state = .running

variable {system : System}

theorem systemWellFormed_perform
    (step : StoreStep)
    (wellFormed : SystemWellFormed system) :
    SystemWellFormed (system.perform step).1 := by
  have effect := perform_effect system step
  constructor
  · exact effect.rows.wellFormed (wellFormed.inserting step.process)
      wellFormed.rows
  · intro id operation requestKey waits
    by_cases own : id = step.process
    · subst own
      rcases effect.memory.inserting operation requestKey waits with
        before | running
      · exact wellFormed.inserting _ _ _ before
      · exact running
    · rw [effect.others id own] at waits
      exact wellFormed.inserting _ _ _ waits

/-- The system after a run from an empty store. -/
def reached
    (steps : List StoreStep) : System :=
  finalState System.perform {} steps

theorem systemWellFormed_reached
    (steps : List StoreStep) :
    SystemWellFormed (reached steps) := by
  apply invariant_of_kept
  · intro system step wellFormed
    exact systemWellFormed_perform step wellFormed
  · exact ⟨rowsWellFormed_nil, by simp⟩

theorem RowsEffect.row
    {process : Process}
    {response : StoreResponse}
    {row : Row}
    (effect : RowsEffect rows process response after)
    (member : row ∈ rows) :
    ∃ later ∈ after, later.id = row.id ∧
      later.requestKey = row.requestKey ∧
        (later = row ∨
          ∃ held ∈ process.held, held.version = some row.value) := by
  cases effect with
  | kept notSaved notCreated =>
      exact ⟨row, member, rfl, rfl, .inl rfl⟩
  | inserted inserting accepted =>
      obtain ⟨_, rfl⟩ := insertOperation_eq_ok.mp accepted
      exact ⟨row, List.mem_append_left _ member, rfl, rfl, .inl rfl⟩
  | saved inMemory remembered accepted =>
      obtain ⟨rfl, _, _⟩ := updateOperation_eq_ok.mp accepted
      refine ⟨_, List.mem_map_of_mem member, write_id, write_requestKey, ?_⟩
      rcases write_cases with same | ⟨_, sameValue, _⟩
      · exact .inl same
      · exact .inr ⟨_, inMemory, sameValue ▸ remembered⟩

theorem RowsWellFormed.eq_of_id
    {first second : Row}
    (wellFormed : RowsWellFormed rows)
    (firstIn : first ∈ rows)
    (secondIn : second ∈ rows)
    (sameId : first.id = second.id) :
    first = second :=
  List.inj_on_of_nodup_map wellFormed.distinctIds firstIn secondIn sameId

theorem RowsWellFormed.eq_of_requestKey
    {first second : Row}
    (wellFormed : RowsWellFormed rows)
    (firstIn : first ∈ rows)
    (secondIn : second ∈ rows)
    (sameKey : first.requestKey = second.requestKey) :
    first = second :=
  List.inj_on_of_nodup_map wellFormed.distinctKeys firstIn secondIn sameKey

theorem reached_append
    (first second : List StoreStep) :
    reached (first ++ second) =
      finalState System.perform (reached first) second :=
  finalState_append

theorem row_kept
    {row : Row}
    (steps : List StoreStep)
    (member : row ∈ system.rows) :
    ∃ later ∈ (finalState System.perform system steps).rows,
      later.id = row.id ∧ later.requestKey = row.requestKey := by
  induction steps generalizing system row with
  | nil =>
      exact ⟨row, member, rfl, rfl⟩
  | cons step rest inductionHypothesis =>
      obtain ⟨next, nextIn, sameId, sameKey, _⟩ :=
        (perform_effect system step).rows.row member
      obtain ⟨later, laterIn, laterId, laterKey⟩ := inductionHypothesis nextIn
      exact ⟨later, laterIn, laterId.trans sameId, laterKey.trans sameKey⟩

/-- A process has been shown a value since it last started. -/
def Seen
    (steps : List StoreStep)
    (id : ProcessId)
    (value : Operation) : Prop :=
  ∃ earlier step later, steps = earlier ++ step :: later ∧
    step.process = id ∧ .crash id ∉ later ∧
      value ∈ ((reached earlier).perform step).2.values

variable {steps : List StoreStep} {step : StoreStep}

theorem Seen.append
    {id : ProcessId}
    (seen : Seen steps id value)
    (goesOn : step ≠ .crash id) :
    Seen (steps ++ [step]) id value := by
  obtain ⟨earlier, shown, later, rfl, own, noCrash, member⟩ := seen
  refine ⟨earlier, shown, later ++ [step], by simp, own, ?_, member⟩
  rw [List.mem_append, List.mem_singleton]
  rintro (inLater | isStep)
  · exact noCrash inLater
  · exact goesOn isStep.symm

theorem seen_of_version
    {id : ProcessId}
    {held : Held}
    (inMemory : held ∈ ((reached steps).processes id).held)
    (remembered : held.version = some value) :
    Seen steps id value := by
  induction steps using List.reverseRecOn generalizing held with
  | nil =>
      simp [reached, finalState] at inMemory
  | append_singleton earlier step inductionHypothesis =>
      rw [reached_append] at inMemory
      have effect := perform_effect (reached earlier) step
      by_cases own : id = step.process
      · subst own
        by_cases crashes : step = .crash step.process
        · have emptied :
              ((reached earlier).perform step).1.processes step.process =
                {} := by
            rw [crashes]
            exact setProcess_own
          simp only [finalState, emptied] at inMemory
          cases inMemory
        · rcases effect.memory.versions held inMemory value remembered with
            ⟨before, beforeIn, beforeVersion⟩ | shown
          · exact (inductionHypothesis beforeIn beforeVersion).append crashes
          · exact ⟨earlier, step, [], rfl, rfl, by simp, shown⟩
      · have same :
            (finalState System.perform (reached earlier) [step]).processes id =
              (reached earlier).processes id :=
          effect.others id own
        rw [same] at inMemory
        apply (inductionHypothesis inMemory remembered).append
        rintro rfl
        exact own rfl

/-- The request key that a step asks for. -/
def askedKey
    (system : System) : StoreStep → Option String
  | .start _ _ requestKey .. | .request _ _ requestKey _ => some requestKey
  | .insert id _ =>
      match (system.processes id).call with
      | .inserting _ requestKey => some requestKey
      | _ => none
  | _ => none

/-- The content a request asks for is not that of an operation. -/
def Differs
    (kind : Option OperationKind)
    (input : Fields)
    (operation : Operation) : Prop :=
  (∃ asked, kind = some asked ∧ operation.kind ≠ asked) ∨
    operation.input ≠ input

/-- What a call answers about a key that already has an operation. -/
def AnswersFor
    (prior : Operation) : StoreStep → StoreResponse → Prop
  | .start _ kind _ input reviewedImport .., response =>
      response = .started prior false ∨
        response = .refused { code := "request_key_reused" } ∧
          Differs (some kind) input prior ∨
        response = .refused { code := "invalid_import_authority" } ∧
          ∃ reviewed ∈ reviewedImport,
            reviewed.valid kind = false ∨ reviewed.isOf prior = false
  | .request _ kind _ input, response =>
      response = .found (some prior) ∨
        response = .refused { code := "request_key_reused" } ∧
          Differs kind input prior
  | .insert _ _, response =>
      response = .refused { code := "operation_in_progress" }
  | _, _ => True

/-- The key's operation, or a refusal because its content is another. -/
def AnswersSameOrReused
    (prior : Operation) : StoreStep → StoreResponse → Prop
  | .start _ kind _ input .., response =>
      response = .started prior false ∨
        response = .refused { code := "request_key_reused" } ∧
          Differs (some kind) input prior
  | .request _ kind _ input, response =>
      response = .found (some prior) ∨
        response = .refused { code := "request_key_reused" } ∧
          Differs kind input prior
  | .insert _ _, response =>
      response = .started prior true ∨
        response = .refused { code := "request_key_reused" }
  | _, _ => True

/-- What holds of the store after a run, and of any further step. -/
structure StoreLaws
    (answersFor : Operation → StoreStep → StoreResponse → Prop)
    (steps : List StoreStep) : Prop where
  /-- At most one stored operation is not complete. -/
  oneOpen : ((reached steps).rows.filter (·.value.isOpen)).length ≤ 1
  /-- An operation is marked active exactly when it is not complete. -/
  activeIff : ∀ row ∈ (reached steps).rows,
    row.active = some 1 ↔ row.value.state ≠ .complete
  /-- Only a process that has seen a row's value changes that row. -/
  neverOverwrites : ∀ step, ∀ row ∈ (reached steps).rows,
    ∀ later ∈ ((reached steps).perform step).1.rows,
      later.id = row.id → later ≠ row → Seen steps step.process row.value
  /-- A save over another value than the stored one changes nothing. -/
  staleRefused : ∀ id handle held now, ∀ row ∈ (reached steps).rows,
    ((reached steps).processes id).call = .idle →
      ((reached steps).processes id).held[handle]? = some held →
        row.id = held.operation.id → held.version ≠ some row.value →
          ((reached steps).perform (.save id handle now true)).1.rows =
              (reached steps).rows ∧
            ((reached steps).perform (.save id handle now true)).2 =
              .refused { code := "operation_journal_changed" }
  /-- A call about a key that has an operation is answered about it. -/
  answers : ∀ step, ∀ row ∈ (reached steps).rows,
    askedKey (reached steps) step = some row.requestKey →
      ((reached steps).processes step.process).call = .idle ∨
          (∃ available, step = .insert step.process available) →
        answersFor row.value step ((reached steps).perform step).2
  /-- Whatever a run answers for one key is one operation. -/
  oneOperation :
    ∀ first ∈ trace System.perform {} steps,
      ∀ second ∈ trace System.perform {} steps,
        ∀ requestKey ∈ askedKey first.before first.step,
          askedKey second.before second.step = some requestKey →
            ∀ operation ∈ first.response.values,
              ∀ other ∈ second.response.values, other.id = operation.id

theorem RowsWellFormed.oneOpen
    (wellFormed : RowsWellFormed rows) :
    (rows.filter (·.value.isOpen)).length ≤ 1 := by
  have same :
      rows.filter (·.value.isOpen) = rows.filter (·.active == some 1) := by
    apply List.filter_congr
    intro row member
    have activeIff := wellFormed.activeIff row member
    cases isComplete : row.value.state == .complete <;>
      simp_all [Operation.isOpen]
  rw [same]
  exact wellFormed.oneActive

theorem updateOperation_none
    {active : Option ℕ}
    (oneActive : (rows.filter (·.active == some 1)).length ≤ 1)
    (none : ∀ row ∈ rows, row.isAt id previous = false) :
    updateOperation rows active value id previous = .ok (rows, 0) := by
  apply updateOperation_eq_ok.mpr
  refine ⟨?_, oneActive, ?_⟩
  · apply List.ext_getElem
    · simp
    · intro index inRows _
      have notAt := none rows[index] (List.getElem_mem inRows)
      simp [Row.write, notAt]
  · apply Eq.symm
    apply List.countP_eq_zero.mpr
    simpa using none

theorem save_stale
    {held : Held}
    {row : Row}
    (wellFormed : RowsWellFormed rows)
    (member : row ∈ rows)
    (sameId : row.id = held.operation.id)
    (stale : held.version ≠ some row.value)
    (now : ℤ) :
    ∃ kept, save rows held now true =
      .refused { code := "operation_journal_changed" } kept := by
  rw [save]
  cases remembered : held.version with
  | none =>
      exact ⟨held, rfl⟩
  | some previous =>
      refine ⟨held.stamp now, ?_⟩
      have noneAt :
          ∀ other ∈ rows, other.isAt held.operation.id previous = false := by
        intro other otherIn
        rw [Bool.eq_false_iff, Ne, Row.isAt, Bool.and_eq_true, beq_iff_eq,
          beq_iff_eq]
        rintro ⟨otherId, sameValue⟩
        have same : other = row :=
          wellFormed.eq_of_id otherIn member (otherId.trans sameId.symm)
        rw [remembered, ← sameValue, same] at stale
        exact stale rfl
      have unchanged :
          updateOperation rows (held.stamp now).operation.activeColumn
              (held.stamp now).operation (held.stamp now).operation.id
              previous = .ok (rows, 0) :=
        updateOperation_none wellFormed.oneActive noneAt
      simp [unchanged]

theorem RowsWellFormed.selectByRequestKey
    {row : Row}
    (wellFormed : RowsWellFormed rows)
    (member : row ∈ rows) :
    selectByRequestKey rows row.requestKey = some row.value := by
  rw [Manager.selectByRequestKey]
  cases found : rows.find? fun other => other.requestKey == row.requestKey with
  | none =>
      have differs := List.find?_eq_none.mp found row member
      simp at differs
  | some other =>
      have sameKey : other.requestKey = row.requestKey := by
        simpa using List.find?_some found
      rw [wellFormed.eq_of_requestKey (List.mem_of_find?_eq_some found) member
        sameKey]
      rfl

theorem selectByRequestKey_eq_some
    (found : selectByRequestKey rows requestKey = some value) :
    ∃ row ∈ rows, row.requestKey = requestKey ∧ row.value = value := by
  obtain ⟨row, foundRow, sameValue⟩ := Option.map_eq_some_iff.mp found
  have sameKey : row.requestKey = requestKey := by
    simpa using List.find?_some foundRow
  exact ⟨row, List.mem_of_find?_eq_some foundRow, sameKey, sameValue⟩

theorem requested_bound
    {row : Row}
    (wellFormed : RowsWellFormed rows)
    (member : row ∈ rows)
    (kind : Option OperationKind)
    (input : Fields) :
    requested rows kind row.requestKey input = .ok (some row.value) ∨
      requested rows kind row.requestKey input =
          .error { code := "request_key_reused" } ∧
        Differs kind input row.value := by
  rw [requested, wellFormed.selectByRequestKey member]
  simp only
  split
  · next differs =>
      refine .inr ⟨rfl, ?_⟩
      rcases (Bool.or_eq_true _ _).mp differs with otherKind | otherInput
      · obtain ⟨asked, isAsked, notKind⟩ := (Option.any_eq_true _ _).mp otherKind
        exact .inl ⟨asked, isAsked, by simpa using notKind⟩
      · exact .inr (by simpa using otherInput)
  · exact .inl rfl

theorem beginStart_bound
    {row : Row}
    (wellFormed : RowsWellFormed rows)
    (member : row ∈ rows)
    (kind : OperationKind)
    (input : Fields)
    (reviewedImport : Option ReviewedImport)
    (fresh : OperationId)
    (createdAt updatedAt : ℤ) :
    let begun :=
      beginStart rows kind row.requestKey input reviewedImport fresh
        createdAt updatedAt
    begun = .ok (.inl row.value) ∨
      begun = .error { code := "request_key_reused" } ∧
        Differs (some kind) input row.value ∨
      begun = .error { code := "invalid_import_authority" } ∧
        ∃ reviewed ∈ reviewedImport,
          reviewed.valid kind = false ∨ reviewed.isOf row.value = false := by
  simp only [beginStart]
  split
  · next invalid =>
      obtain ⟨reviewed, isReviewed, notValid⟩ :=
        (Option.any_eq_true _ _).mp invalid
      refine .inr (.inr ⟨rfl, reviewed, isReviewed, .inl ?_⟩)
      simpa using notValid
  · rcases requested_bound wellFormed member (some kind) input with
      found | ⟨refused, differs⟩
    · simp only [found, Outcome.ok_bind]
      split
      · next foreign =>
          obtain ⟨reviewed, isReviewed, notOf⟩ :=
            (Option.any_eq_true _ _).mp foreign
          refine .inr (.inr ⟨rfl, reviewed, isReviewed, .inr ?_⟩)
          simpa using notOf
      · exact .inl rfl
    · rw [refused]
      exact .inr (.inl ⟨rfl, differs⟩)

theorem requested_eq_some
    {kind : Option OperationKind}
    {input : Fields}
    (found : requested rows kind requestKey input = .ok (some prior)) :
    ∃ row ∈ rows, row.requestKey = requestKey ∧ row.value = prior := by
  rw [requested] at found
  cases selected : selectByRequestKey rows requestKey with
  | none =>
      simp [selected] at found
  | some operation =>
      rw [selected] at found
      simp only at found
      split at found
      · cases found
      · cases found
        exact selectByRequestKey_eq_some selected

theorem beginStart_prior
    {kind : OperationKind}
    {input : Fields}
    {reviewedImport : Option ReviewedImport}
    {fresh : OperationId}
    {createdAt updatedAt : ℤ}
    (begun :
      beginStart rows kind requestKey input reviewedImport fresh createdAt
        updatedAt = .ok (.inl prior)) :
    ∃ row ∈ rows, row.requestKey = requestKey ∧ row.value = prior := by
  rw [beginStart] at begun
  split at begun
  · cases begun
  · obtain ⟨found, isRequested, continued⟩ := Outcome.bind_eq_ok.mp begun
    cases found with
    | none =>
        cases Outcome.pure_eq_ok.mp continued
    | some operation =>
        simp only at continued
        split at continued
        · cases continued
        · cases Outcome.pure_eq_ok.mp continued
          exact requested_eq_some isRequested

/-- What a call about a key shows is the operation of the row with the key. -/
theorem values_bound
    (wellFormed : RowsWellFormed system.rows)
    (asks : askedKey system step = some requestKey)
    (shown : operation ∈ (system.perform step).2.values) :
    ∃ row ∈ (system.perform step).1.rows,
      row.requestKey = requestKey ∧ row.id = operation.id := by
  cases step with
  | start id kind key input reviewedImport fresh createdAt updatedAt =>
      cases asks
      simp only [System.perform, System.beginCall] at shown ⊢
      split at shown
      · cases begun : beginStart system.rows kind requestKey input
            reviewedImport fresh createdAt updatedAt with
        | error refusal =>
            simp [begun, StoreResponse.values] at shown
        | ok next =>
            cases next with
            | inr created =>
                simp [begun, StoreResponse.values] at shown
            | inl prior =>
                obtain ⟨row, member, sameKey, rfl⟩ := beginStart_prior begun
                simp only [begun, System.readValues, StoreResponse.values,
                  List.mem_singleton] at shown
                subst shown
                refine ⟨row, ?_, sameKey, (wellFormed.ownId row member).symm⟩
                simp [*, System.readValues]
      · cases shown
  | request id kind key input =>
      cases asks
      simp only [System.perform, System.beginCall] at shown ⊢
      split at shown
      · cases found : requested system.rows kind requestKey input with
        | error refusal =>
            simp [found, StoreResponse.values] at shown
        | ok prior =>
            cases prior with
            | none =>
                simp [found, System.readValues,
                  StoreResponse.values] at shown
            | some prior =>
                obtain ⟨row, member, sameKey, rfl⟩ := requested_eq_some found
                simp only [found, System.readValues, StoreResponse.values,
                  List.mem_singleton] at shown
                subst shown
                refine ⟨row, ?_, sameKey, (wellFormed.ownId row member).symm⟩
                simp [*, System.readValues]
      · cases shown
  | insert id available =>
      simp only [askedKey] at asks
      cases waits : (system.processes id).call with
      | idle =>
          simp [waits] at asks
      | interrupting handles =>
          simp [waits] at asks
      | inserting created key =>
          simp only [waits, Option.some.injEq] at asks
          subst asks
          simp only [System.perform, waits] at shown ⊢
          split at shown
          · cases shown
          · next rows inserted =>
              have sameOperation : operation = created := by
                simpa [StoreResponse.values] using shown
              subst sameOperation
              cases available with
              | false =>
                  cases inserted
              | true =>
                  obtain ⟨_, rfl⟩ := insertOperation_eq_ok.mp inserted
                  exact ⟨_, List.mem_append_right _ (List.mem_singleton.mpr rfl),
                    rfl, rfl⟩
  | crash id | edit id handle operation | save id handle now available
  | interrupt id | interruptNext id now available | locked id | history id =>
      cases asks

theorem shown_bound
    {happened : Entry System StoreStep StoreResponse}
    (member : happened ∈ trace System.perform {} steps)
    (asks : askedKey happened.before happened.step = some requestKey)
    (shown : operation ∈ happened.response.values) :
    ∃ row ∈ (reached steps).rows,
      row.requestKey = requestKey ∧ row.id = operation.id := by
  obtain ⟨earlier, step, later, rfl, rfl⟩ := exists_split_of_mem_trace member
  have wellFormed := (systemWellFormed_reached earlier).rows
  obtain ⟨row, rowIn, rowKey, rowId⟩ := values_bound wellFormed asks shown
  obtain ⟨kept, keptIn, keptId, keptKey⟩ := row_kept later rowIn
  refine ⟨kept, ?_, keptKey.trans rowKey, keptId.trans rowId⟩
  rw [reached_append]
  exact keptIn

/-- A call about a key that has an operation is answered about it. -/
theorem answersFor_perform
    {row : Row}
    (wellFormed : RowsWellFormed system.rows)
    (member : row ∈ system.rows)
    (asks : askedKey system step = some row.requestKey)
    (made : (system.processes step.process).call = .idle ∨
      ∃ available, step = .insert step.process available) :
    AnswersFor row.value step (system.perform step).2 := by
  cases step with
  | start id kind key input reviewedImport fresh createdAt updatedAt =>
      cases asks
      have isIdle : (system.processes id).call = .idle := by
        simpa [StoreStep.process] using made
      simp only [AnswersFor, System.perform, System.beginCall, isIdle,
        if_true]
      rcases beginStart_bound wellFormed member kind input reviewedImport fresh
          createdAt updatedAt with found | ⟨reused, differs⟩ | ⟨refused, why⟩
      · simp [found, System.readValues]
      · simp [reused, differs]
      · simp only [refused]
        exact .inr (.inr ⟨trivial, why⟩)
  | request id kind key input =>
      cases asks
      have isIdle : (system.processes id).call = .idle := by
        simpa [StoreStep.process] using made
      simp only [AnswersFor, System.perform, System.beginCall, isIdle,
        if_true]
      rcases requested_bound wellFormed member kind input with
        found | ⟨reused, differs⟩
      · simp [found, System.readValues]
      · simp [reused, differs]
  | insert id available =>
      simp only [askedKey] at asks
      cases waits : (system.processes id).call with
      | idle =>
          simp [waits] at asks
      | interrupting handles =>
          simp [waits] at asks
      | inserting created key =>
          simp only [waits, Option.some.injEq] at asks
          subst asks
          simp only [AnswersFor, System.perform, waits]
          split
          · rfl
          · next rows inserted =>
              cases available with
              | false =>
                  cases inserted
              | true =>
                  obtain ⟨free, _⟩ := insertOperation_eq_ok.mp inserted
                  exact absurd rfl (free row member).2.1
  | crash id | edit id handle operation | save id handle now available
  | interrupt id | interruptNext id now available | locked id | history id =>
      trivial

/--
Any interleaving keeps one open operation at most, loses no update and has one
operation for each request key; a start that loses the race for its key is
refused like any start while another operation is in progress.
-/
theorem storeLaws
    (steps : List StoreStep) : StoreLaws AnswersFor steps where
  oneOpen := (systemWellFormed_reached steps).rows.oneOpen
  activeIff := (systemWellFormed_reached steps).rows.activeIff
  neverOverwrites := by
    intro step row member later laterIn sameId changed
    have wellFormed := systemWellFormed_reached steps
    obtain ⟨kept, keptIn, keptId, _, unchanged | ⟨held, inMemory, version⟩⟩ :=
      (perform_effect (reached steps) step).rows.row member
    · have same : later = kept :=
        (systemWellFormed_perform step wellFormed).rows.eq_of_id laterIn keptIn
          (sameId.trans keptId.symm)
      exact absurd (same.trans unchanged) changed
    · exact seen_of_version inMemory version
  staleRefused := by
    intro id handle held now row member isIdle inMemory sameId stale
    have wellFormed := (systemWellFormed_reached steps).rows
    obtain ⟨kept, refused⟩ := save_stale wellFormed member sameId stale now
    simp [System.perform, System.beginCall, isIdle, inMemory, System.saveHeld,
      refused]
  answers := by
    intro step row member asks made
    exact answersFor_perform (systemWellFormed_reached steps).rows member asks
      made
  oneOperation := by
    intro first firstIn second secondIn requestKey asks otherAsks
      operation shown other otherShown
    obtain ⟨row, rowIn, rowKey, rowId⟩ := shown_bound firstIn asks shown
    obtain ⟨otherRow, otherIn, otherKey, otherId⟩ :=
      shown_bound secondIn otherAsks otherShown
    have same : otherRow = row :=
      (systemWellFormed_reached steps).rows.eq_of_requestKey otherIn rowIn
        (otherKey.trans rowKey.symm)
    rw [← rowId, ← otherId, same]

/--
Two processes look up one unused request key before either inserts: the second
is refused although it asks for the very content that the first has stored.
-/
theorem storeLaws_fail_for_racing_starts :
    ¬ StoreLaws AnswersSameOrReused
      [.start 0 .install "key" [] none "first" 1 1,
        .start 1 .install "key" [] none "second" 2 2,
        .insert 0 true] := by
  intro laws
  have answer :=
    laws.answers (.insert 1 true)
      ⟨"first", "key", some 1, newOperation .install [] none "first" 1 1⟩
      (by decide) (by decide) (.inr ⟨true, rfl⟩)
  simp only [AnswersSameOrReused] at answer
  revert answer
  decide

end Frameleaf.Manager
