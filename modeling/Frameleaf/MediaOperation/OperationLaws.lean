import Frameleaf.MediaOperation.StepLaws
import Mathlib.Data.List.Induction

namespace Frameleaf.MediaOperation

open Standing Table Trace

/-!
# What holds of every operation along every run

A stale claim writes nothing, a claim goes only forward, a cancel that was
asked for stays, no queued operation has a pause pending, and recovery puts an
operation back within its one retry.
-/

variable {store : OperationStore} {step : Step} {steps : List Step}
variable {id : OperationId} {row : Row} {token : Token}

/-- An operation is held under a token. -/
def OperationStore.Holds
    (store : OperationStore)
    (id : OperationId)
    (token : Token) : Prop :=
  ∃ row, store.table.lookup id = some row ∧ row.claimToken = some token

/-- Every operation is sound and held under a token that was drawn. -/
structure OperationStore.Sound (store : OperationStore) : Prop where
  standing : ∀ id row, store.table.lookup id = some row → row.standing.Sound
  drawn : ∀ id token, store.Holds id token → token < store.issued

theorem empty_sound : OperationStore.empty.Sound where
  standing := by
    intro id row found
    cases found
  drawn := by
    rintro id token ⟨row, found, _⟩
    cases found

theorem issued_le_after
    (store : OperationStore)
    (step : Step) :
    store.issued ≤ (store.after step).issued := by
  simp only [OperationStore.after]
  split
  · exact Nat.le_succ _
  · exact le_rfl

theorem drawn_between
    (drawn : step.draws store = some token) :
    token = store.issued ∧ token < (store.after step).issued := by
  simp only [Step.draws] at drawn
  split at drawn
  case isTrue draws =>
    obtain rfl := Option.some.inj drawn
    refine ⟨rfl, ?_⟩
    rw [OperationStore.after, if_pos draws]
    exact Nat.lt_succ_self _
  case isFalse =>
    cases drawn

theorem new_or_moved
    {after : Row}
    (sound : store.Sound)
    (found : (store.after step).table.lookup id = some after) :
    (store.table.lookup id = none ∧ after.standing = Standing.new) ∨
      ∃ row, store.table.lookup id = some row ∧
        Move (step.draws store) row.standing after.standing := by
  cases wasThere : store.table.lookup id with
  | none =>
      exact .inl ⟨rfl, lookup_after_of_none wasThere found⟩
  | some row =>
      obtain ⟨same, isSame, move⟩ :=
        exists_move step wasThere (sound.standing id row wasThere)
      obtain rfl := Option.some.inj (found.symm.trans isSame)
      exact .inr ⟨row, rfl, move⟩

theorem holds_after
    (sound : store.Sound)
    (holds : (store.after step).Holds id token) :
    step.draws store = some token ∨ store.Holds id token := by
  obtain ⟨after, found, isHeld⟩ := holds
  rcases new_or_moved sound found with ⟨_, standing⟩ | ⟨row, wasThere, move⟩
  · have noClaim : after.claimToken = none :=
      congrArg Standing.claimToken standing
    cases noClaim.symm.trans isHeld
  · rcases move.claimToken isHeld with drawn | wasHeld
    · exact .inl drawn
    · exact .inr ⟨row, wasThere, wasHeld⟩

theorem OperationStore.Sound.after
    (sound : store.Sound)
    (step : Step) :
    (store.after step).Sound where
  standing := by
    intro id after found
    rcases new_or_moved sound found with ⟨_, standing⟩ | ⟨row, wasThere, move⟩
    · rw [standing]
      exact new_sound
    · exact move.sound (sound.standing id row wasThere)
  drawn := by
    intro id token holds
    rcases holds_after sound holds with drawn | held
    · exact (drawn_between drawn).2
    · exact (sound.drawn id token held).trans_le (issued_le_after store step)

/-- The store after a run from the beginning. -/
def storeAfter (steps : List Step) : OperationStore :=
  finalState perform .empty steps

theorem storeAfter_append_singleton
    (steps : List Step)
    (step : Step) :
    storeAfter (steps ++ [step]) = (storeAfter steps).after step :=
  finalState_append

theorem storeAfter_sound
    (steps : List Step) :
    (storeAfter steps).Sound :=
  invariant_of_kept (fun _ step sound => sound.after step) empty_sound

theorem perform_of_stale
    (bears : step.call.bears = some (id, token))
    (stale : ¬ store.Holds id token) :
    perform store step = (store, []) := by
  have missed : ∀ key row, store.table.lookup key = some row →
      (step.statement store).condition key row = false := by
    intro key row found
    by_contra taken
    obtain ⟨rfl, held⟩ :=
      heldBy_of_taken row bears (Bool.eq_true_of_not_eq_false taken)
    exact stale ⟨row, found, held⟩
  have notCreated : step.inserts = none ∧ step.call.drawsToken = false := by
    obtain ⟨instant, seen, call⟩ := step
    cases call with
    | create | claimNext | beginJobQueueRun => cases bears
    | _ => exact ⟨rfl, rfl⟩
  have same : store.after step = store := by
    simp only [OperationStore.after, Statement.execute,
      updateWhere_eq_self missed, notCreated.1, notCreated.2, insertNew,
      Bool.false_eq_true, if_false]
  rw [perform, same, select_eq_nil missed]

theorem issued_le_later
    (earlier later : List Step) :
    (storeAfter earlier).issued ≤ (storeAfter (earlier ++ later)).issued := by
  induction later using List.reverseRecOn with
  | nil =>
      rw [List.append_nil]
  | append_singleton rest step inductionHypothesis =>
      rw [← List.append_assoc, storeAfter_append_singleton]
      exact inductionHypothesis.trans (issued_le_after _ step)

variable {earlier : List Step}

theorem not_holds_later
    (later : List Step)
    (drawn : token < (storeAfter earlier).issued)
    (gone : ¬ (storeAfter earlier).Holds id token) :
    ¬ (storeAfter (earlier ++ later)).Holds id token := by
  induction later using List.reverseRecOn with
  | nil =>
      rw [List.append_nil]
      exact gone
  | append_singleton rest step inductionHypothesis =>
      intro holds
      rw [← List.append_assoc, storeAfter_append_singleton] at holds
      rcases holds_after (storeAfter_sound _) holds with isDrawn | held
      · have isNew := (drawn_between isDrawn).1
        exact (drawn.trans_le (issued_le_later earlier rest)).ne isNew
      · exact inductionHypothesis held

theorem exists_later
    (Kept : Standing → Prop)
    (kept : ∀ drawn before after, Move drawn before after →
      Kept before → Kept after)
    (later : List Step)
    (found : (storeAfter earlier).table.lookup id = some row)
    (initially : Kept row.standing) :
    ∃ new, (storeAfter (earlier ++ later)).table.lookup id = some new ∧
      Kept new.standing := by
  induction later using List.reverseRecOn with
  | nil =>
      rw [List.append_nil]
      exact ⟨row, found, initially⟩
  | append_singleton rest step inductionHypothesis =>
      obtain ⟨middle, isMiddle, keptThen⟩ := inductionHypothesis
      have sound := storeAfter_sound (earlier ++ rest)
      obtain ⟨new, isNew, move⟩ := exists_move step isMiddle
        (sound.standing id middle isMiddle)
      rw [← List.append_assoc, storeAfter_append_singleton]
      exact ⟨new, isNew, kept _ _ _ move keptThen⟩

theorem kept_later
    (Kept : Standing → Prop)
    (kept : ∀ drawn before after, Move drawn before after →
      Kept before → Kept after)
    {later : List Step}
    {new : Row}
    (found : (storeAfter earlier).table.lookup id = some row)
    (foundLater : (storeAfter (earlier ++ later)).table.lookup id = some new)
    (initially : Kept row.standing) :
    Kept new.standing := by
  obtain ⟨same, isSame, keptThen⟩ := exists_later Kept kept later found initially
  obtain rfl := Option.some.inj (foundLater.symm.trans isSame)
  exact keptThen

theorem stage_le_later
    (later : List Step)
    {new : Row}
    (found : (storeAfter earlier).table.lookup id = some row)
    (held : row.claimToken = some token)
    (foundLater : (storeAfter (earlier ++ later)).table.lookup id = some new)
    (heldLater : new.claimToken = some token) :
    stage row.status ≤ stage new.status := by
  induction later using List.reverseRecOn generalizing new with
  | nil =>
      rw [List.append_nil] at foundLater
      obtain rfl := Option.some.inj (found.symm.trans foundLater)
      exact le_rfl
  | append_singleton rest step inductionHypothesis =>
      obtain ⟨middle, isMiddle, _⟩ :=
        exists_later (fun _ => True) (fun _ _ _ _ _ => trivial) rest
          found trivial
      have sound := storeAfter_sound (earlier ++ rest)
      obtain ⟨same, isSame, move⟩ := exists_move step isMiddle
        (sound.standing id middle isMiddle)
      rw [← List.append_assoc, storeAfter_append_singleton] at foundLater
      obtain rfl := Option.some.inj (foundLater.symm.trans isSame)
      have heldThen : middle.claimToken = some token := by
        have drawn := (storeAfter_sound earlier).drawn id token
          ⟨row, found, held⟩
        rcases move.claimToken heldLater with isDrawn | heldBefore
        · have isNew := (drawn_between isDrawn).1
          exact absurd (isNew ▸ drawn.trans_le (issued_le_later earlier rest))
            (lt_irrefl _)
        · exact heldBefore
      exact (inductionHypothesis isMiddle heldThen).trans
        (move.stage_le heldLater)

/-! ## Retries by recovery -/

/-- How often the retry of a recovery took an operation. -/
def recoveries
    (id : OperationId)
    (entries : List (Entry OperationStore Step (List OperationId))) : ℕ :=
  entries.countP fun entry =>
    entry.step.call.isRecoveryRetry && entry.response.contains id

theorem taken_of_recoveryRetry
    (isRetry : step.call.isRecoveryRetry = true)
    (taken : (step.statement store).condition id row = true) :
    row.safeAutomaticReplay = true ∧
      ((step.statement store).change row).standing.autoRetries =
        row.autoRetries + 1 := by
  obtain ⟨instant, seen, call⟩ := step
  cases call with
  | recoverRetried left failure =>
      obtain ⟨_, meets⟩ := expired_condition taken
      simp only [Bool.and_eq_true] at meets
      exact ⟨meets.1.1, rfl⟩
  | _ => cases isRetry

theorem lookup_of_mem_response
    (member : id ∈ (perform store step).2) :
    ∃ row, store.table.lookup id = some row ∧
      (step.statement store).condition id row = true :=
  mem_select.mp member

/-- The automatic retries that an operation has spent. -/
def OperationStore.spent (store : OperationStore) (id : OperationId) : ℕ :=
  ((store.table.lookup id).map (·.autoRetries)).getD 0

theorem spent_le_after
    (sound : store.Sound)
    (step : Step) :
    store.spent id ≤ (store.after step).spent id := by
  cases found : store.table.lookup id with
  | none =>
      rw [OperationStore.spent, found]
      exact Nat.zero_le _
  | some row =>
      obtain ⟨after, isAfter, move⟩ :=
        exists_move step found (sound.standing id row found)
      rw [OperationStore.spent, OperationStore.spent, found, isAfter]
      exact move.autoRetries_le

theorem spent_lt_of_recovered
    (isRetry : step.call.isRecoveryRetry = true)
    (member : id ∈ (perform store step).2) :
    store.spent id < (store.after step).spent id := by
  obtain ⟨row, found, taken⟩ := lookup_of_mem_response member
  obtain ⟨after, isAfter, ⟨missed, _⟩ | ⟨_, standing⟩⟩ :=
    exists_lookup_after step found
  · rw [taken] at missed
    cases missed
  · have counted := (taken_of_recoveryRetry isRetry taken).2
    rw [← standing] at counted
    have one_more : after.autoRetries = row.autoRetries + 1 := counted
    rw [OperationStore.spent, OperationStore.spent, found, isAfter]
    simp [one_more]

theorem recoveries_le_spent
    (id : OperationId)
    (steps : List Step) :
    recoveries id (trace perform .empty steps) ≤ (storeAfter steps).spent id := by
  induction steps using List.reverseRecOn with
  | nil =>
      exact Nat.zero_le _
  | append_singleton rest step inductionHypothesis =>
      rw [trace_append, recoveries, List.countP_append,
        storeAfter_append_singleton]
      change recoveries id _ + List.countP _ [entry perform (storeAfter rest) step]
        ≤ _
      cases counts : step.call.isRecoveryRetry &&
          (perform (storeAfter rest) step).2.contains id with
      | false =>
          rw [List.countP_singleton]
          simp only [entry, counts, Bool.false_eq_true, if_false]
          exact inductionHypothesis.trans (spent_le_after (storeAfter_sound rest) step)
      | true =>
          rw [List.countP_singleton]
          simp only [entry, counts, if_true]
          obtain ⟨isRetry, member⟩ := Bool.and_eq_true_iff.mp counts
          have := spent_lt_of_recovered isRetry (List.contains_iff_mem.mp member)
          omega

theorem spent_le
    (sound : store.Sound)
    (id : OperationId) :
    store.spent id ≤ MEDIA_OPERATION_AUTO_RETRIES := by
  cases found : store.table.lookup id with
  | none =>
      rw [OperationStore.spent, found]
      exact Nat.zero_le _
  | some row =>
      rw [OperationStore.spent, found]
      exact (sound.standing id row found).budgetKept

theorem isRecoveryRetry_of_queued
    {after : Row}
    (recovers : step.call.isRecovery = true)
    (member : id ∈ (perform store step).2)
    (found : (store.after step).table.lookup id = some after)
    (queued : after.status = .queued) :
    step.call.isRecoveryRetry = true := by
  obtain ⟨row, wasThere, taken⟩ := lookup_of_mem_response member
  obtain ⟨same, isSame, ⟨missed, _⟩ | ⟨_, standing⟩⟩ :=
    exists_lookup_after step wasThere
  · rw [taken] at missed
    cases missed
  · obtain rfl := Option.some.inj (found.symm.trans isSame)
    have status := (congrArg Standing.status standing).symm.trans queued
    obtain ⟨instant, seen, call⟩ := step
    cases call with
    | recoverRetried left failure => rfl
    | recoverPaused | recoverFailed | recoverAbandonedCancels =>
        cases status
    | _ => cases recovers

/-! ## The laws -/

/-- What holds of a run and of what comes after it. -/
structure OperationLaws (earlier later : List Step) : Prop where
  /-- A call whose claim is not the current one changes nothing. -/
  stale : ∀ step id token, step.call.bears = some (id, token) →
    ¬ (storeAfter earlier).Holds id token →
    perform (storeAfter earlier) step = (storeAfter earlier, [])
  /-- A claim that is gone never becomes the current one again. -/
  claimGone : ∀ id token, token < (storeAfter earlier).issued →
    ¬ (storeAfter earlier).Holds id token →
    ¬ (storeAfter (earlier ++ later)).Holds id token
  /-- Within one claim the status moves only forward. -/
  forward : ∀ id token row new,
    (storeAfter earlier).table.lookup id = some row →
    (storeAfter (earlier ++ later)).table.lookup id = some new →
    row.claimToken = some token → new.claimToken = some token →
    stage row.status ≤ stage new.status
  /-- What has ended stays as it ended. -/
  ended : ∀ id row new,
    (storeAfter earlier).table.lookup id = some row →
    (storeAfter (earlier ++ later)).table.lookup id = some new →
    row.status ∈ TERMINAL_MEDIA_OPERATION_STATUSES → new.status = row.status
  /-- What was asked to cancel neither completes nor goes back to the queue. -/
  cancelKept : ∀ id row new,
    (storeAfter earlier).table.lookup id = some row →
    (storeAfter (earlier ++ later)).table.lookup id = some new →
    row.cancelRequestedAt.isSome = true →
    new.cancelRequestedAt.isSome = true ∧
      new.status ∈ [MediaOperationStatus.cancelling, .cancelled, .failed]
  /-- Nothing is left queued with a pause pending. -/
  pauseHeld : ∀ id row, (storeAfter earlier).table.lookup id = some row →
    row.status = .queued → row.pauseRequestedAt = none
  /-- Recovery retries an operation within the number of its retries. -/
  recoveries : ∀ id,
    recoveries id (trace perform .empty earlier) ≤ MEDIA_OPERATION_AUTO_RETRIES
  /-- Recovery retries only what is safe to replay. -/
  safe : ∀ entry ∈ trace perform .empty earlier,
    entry.step.call.isRecoveryRetry = true → ∀ id ∈ entry.response,
      ∃ row, entry.before.table.lookup id = some row ∧
        row.kind ∈ SAFE_MEDIA_OPERATION_REPLAY_KINDS ∧
        row.destination = .localMachine ∧ row.remoteJobId = none
  /-- No other statement of a recovery puts anything into the queue. -/
  onlyRetry : ∀ entry ∈ trace perform .empty earlier,
    entry.step.call.isRecovery = true → ∀ id ∈ entry.response, ∀ row,
      entry.after.table.lookup id = some row → row.status = .queued →
        entry.step.call.isRecoveryRetry = true

/-- Every run of calls on media operations, in any order, keeps the laws. -/
theorem operations_keep_their_laws
    (earlier later : List Step) :
    OperationLaws earlier later where
  stale _ _ _ := perform_of_stale
  claimGone _ _ := not_holds_later later
  forward _ _ _ _ found foundLater held heldLater :=
    stage_le_later later found held foundLater heldLater
  ended := by
    intro id row new found foundLater finished
    apply kept_later (·.status = row.status) _ found foundLater rfl
    intro drawn before after move same
    rw [move.eq_of_terminal (same ▸ finished)]
    exact same
  cancelKept := by
    intro id row new found foundLater asked
    have kept := kept_later (·.cancelRequested = true)
      (fun _ _ _ move => move.cancelRequested) found foundLater asked
    exact ⟨kept, ((storeAfter_sound _).standing id new foundLater).cancelKept kept⟩
  pauseHeld := by
    intro id row found queued
    have held := ((storeAfter_sound _).standing id row found).pauseHeld queued
    simpa [Row.standing] using held
  recoveries id :=
    (recoveries_le_spent id earlier).trans (spent_le (storeAfter_sound _) id)
  safe := by
    intro happened member isRetry id taken
    obtain ⟨_, step, _, _, rfl⟩ := exists_split_of_mem_trace member
    obtain ⟨row, found, condition⟩ := lookup_of_mem_response taken
    have safe := (taken_of_recoveryRetry isRetry condition).1
    simp only [Row.safeAutomaticReplay, Bool.and_eq_true, beq_iff_eq,
      List.contains_iff_mem, Option.isNone_iff_eq_none] at safe
    exact ⟨row, found, safe.1.1, safe.1.2, safe.2⟩
  onlyRetry := by
    intro happened member recovers id taken row found queued
    obtain ⟨_, step, _, _, rfl⟩ := exists_split_of_mem_trace member
    exact isRecoveryRetry_of_queued recovers taken found queued

/-- A scan whose worker disappears twice is retried once and then fails. -/
example :
    let atTime (ms : Moment) (call : Call) : Step := ⟨⟨ms, ms⟩, ⟨[], [], []⟩, call⟩
    let scan : MediaOperationCreate :=
      ⟨1, .mediaHealth, .localMachine, none,
        ⟨none, none, none, none, none, none⟩, none, none, none, none⟩
    let worker : ClaimOptions := ⟨[.mediaHealth], "scanner", 10, none, none, none⟩
    let recovery (ms : Moment) : List Step :=
      [atTime ms (.recoverRetried [] ⟨"lost", "claim_lost"⟩),
        atTime ms (.recoverFailed [] ⟨"lost", "claim_lost"⟩)]
    let steps := [atTime 0 (.create 7 scan), atTime 1 (.claimNext [] worker)] ++
      recovery 20 ++ [atTime 40000 (.claimNext [] worker)] ++ recovery 50000
    recoveries 7 (trace perform .empty steps) = 1 ∧
      ((storeAfter steps).table.lookup 7).map (·.status) = some .failed := by
  decide +kernel

end Frameleaf.MediaOperation
