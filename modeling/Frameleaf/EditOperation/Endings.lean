import Frameleaf.EditOperation.Publishing

namespace Frameleaf.EditOperation

open MediaOperation Table Trace

/-!
# A run ends once

A run that is settled or lost stays so, and sends nothing more, as long as no
answer and no publication reaches it late.  An answer that comes late is not
checked again: it can bring a lost run back to publish.
-/

variable {edit : Edit} {event : Event} {events : List Event}
variable {run : EditOperationRun}

/-! ## Calls of a run that is done -/

theorem not_working_of_done
    (done : run.done = true) :
    run.state ≠ .working ∧ run.state ≠ .validating := by
  unfold EditOperationRun.done at done
  revert done
  cases run.state <;> decide

/-- A call sends nothing and leaves nothing to the queue. -/
structure Onward.Silent (onward : Onward) : Prop where
  sends : onward.waits.bind (·.write onward.run) = none
  keeps : onward.defers = none

theorem ends_silent
    (run : EditOperationRun) :
    (Onward.ends run).Silent :=
  ⟨rfl, rfl⟩

theorem answer_silent
    (asker : Asker)
    (ok : Bool) :
    (Onward.answer run asker ok).Silent := by
  cases asker <;> exact ⟨rfl, rfl⟩

theorem validate_silent
    (done : run.done = true)
    (asker : Asker) :
    (run.validate asker).Silent := by
  obtain ⟨notWorking, notValidating⟩ := not_working_of_done done
  rw [EditOperationRun.validate, if_neg notValidating, if_pos notWorking]
  exact answer_silent asker false

theorem complete_silent
    (done : run.done = true)
    (result : CompletedResult) :
    (run.complete result).Silent := by
  unfold EditOperationRun.complete
  split
  · exact ends_silent run
  · exact validate_silent done _

theorem fail_silent
    (done : run.done = true)
    (failure : Failure)
    (retry : Bool) :
    (run.fail failure retry).Silent := by
  rw [EditOperationRun.fail, if_pos done]
  exact ends_silent run

theorem cancelled_silent
    (done : run.done = true)
    (canceller : Canceller) :
    (run.cancelled canceller).Silent := by
  unfold EditOperationRun.cancelled
  rw [if_pos done]
  cases canceller with
  | executor => exact ends_silent run
  | validate asker => exact answer_silent asker false

theorem start_silent
    (done : run.done = true)
    (call : RunCall) :
    (call.start run).Silent := by
  cases call with
  | noteError failure => exact ends_silent _
  | progress value =>
      change (run.progress value).Silent
      rw [EditOperationRun.progress, if_pos (not_working_of_done done).1]
      exact ends_silent run
  | validate => exact validate_silent done _
  | complete result => exact complete_silent done result
  | fail failure retry => exact fail_silent done failure retry
  | cancelled => exact cancelled_silent done _
  | release delayMs =>
      change (run.release delayMs).Silent
      rw [EditOperationRun.release, if_pos done]
      exact ends_silent run
  | finish status =>
      change (run.finish status).Silent
      unfold EditOperationRun.finish
      rw [if_pos done]
      exact ends_silent run

theorem goOn_silent
    (decided : Option AssetId)
    {answer : Answer}
    {await : Await}
    (done : run.done = true)
    (idle : await.isIdle answer = true) :
    (run.goOn decided answer await).Silent ∧
      (run.goOn decided answer await).run.state = run.state := by
  cases await with
  | reporting value =>
      obtain rfl : answer = true := idle
      exact ⟨ends_silent _, rfl⟩
  | checkingReport =>
      obtain rfl : answer = true := idle
      exact ⟨ends_silent _, rfl⟩
  | checkingCancel asker =>
      obtain rfl : answer = true := idle
      exact ⟨cancelled_silent done _, by
        change (run.cancelled _).run.state = run.state
        rw [cancelled_run]⟩
  | beating =>
      obtain rfl : answer = true := idle
      exact ⟨ends_silent _, rfl⟩
  | validated result ok =>
      obtain rfl : ok = false := by simpa [Await.isIdle] using idle
      exact ⟨ends_silent _, rfl⟩
  | completing accepted =>
      obtain ⟨rfl, accepts⟩ : answer = false ∧ accepted.isSome = true := by
        simpa [Await.isIdle] using idle
      obtain ⟨asset, rfl⟩ := Option.isSome_iff_exists.mp accepts
      exact ⟨fail_silent done _ _, by
        change (run.fail _ _).run.state = run.state
        rw [fail_run]⟩
  | beginning | requestingCancel | acknowledging | failingRetry
  | failingReport | releasing | settling => cases idle

/-- An event that the run itself makes, not the database or somebody else. -/
def Event.isOwn : Event → Bool
  | .others _ => false
  | .serves _ _ _ => false
  | _ => true

/-- An event on time leaves a run that is done as it is. -/
theorem happen_of_done
    (done : edit.run.done = true)
    (onTime : edit.onTime event = true) :
    (happen edit event).1.run.state = edit.run.state ∧
      (happen edit event).2.sends = none ∧
      (event.isOwn = true → (happen edit event).1.store = edit.store) := by
  cases event with
  | others step =>
      simp only [happen]
      split
      · exact ⟨rfl, rfl, by simp [Event.isOwn]⟩
      · exact ⟨rfl, rfl, by simp [Event.isOwn]⟩
  | calls call =>
      exact ⟨(start_run call).2, (start_silent done call).sends, fun _ => rfl⟩
  | beats =>
      simp only [happen]
      split
      · refine ⟨heartbeat_run.2, ?_, fun _ => rfl⟩
        rw [EditOperationRun.heartbeat, if_pos done]
        rfl
      · exact ⟨rfl, rfl, fun _ => rfl⟩
  | serves place instant seen =>
      simp only [happen]
      split
      · exact ⟨rfl, rfl, by simp [Event.isOwn]⟩
      · exact ⟨rfl, rfl, by simp [Event.isOwn]⟩
  | answers place decided =>
      simp only [happen, Edit.onTime] at onTime ⊢
      split
      case h_1 await answer isWaiting =>
        rw [isWaiting] at onTime
        simp only [done, Bool.not_true, Bool.false_or] at onTime
        obtain ⟨silent, state⟩ := goOn_silent decided done onTime
        exact ⟨state, silent.sends, fun _ => rfl⟩
      case h_2 => exact ⟨rfl, rfl, fun _ => rfl⟩
  | publishes instant seen decided =>
      simp only [Edit.onTime, done, Bool.not_true, Bool.false_or,
        List.isEmpty_iff] at onTime
      have unchanged : happen edit (.publishes instant seen decided) =
          ({ edit with waiting := edit.waiting ++ [], deferred := [] },
            Shown.nothing) := by
        simp only [happen, onTime, publishAll, List.map_nil]
      rw [unchanged]
      exact ⟨rfl, rfl, fun _ => rfl⟩
  | settles instant seen reason cancelled =>
      have unchanged : happen edit (.settles instant seen reason cancelled) =
          (edit, Shown.nothing) := by
        simp only [happen, done, Bool.or_true, if_true]
      rw [unchanged]
      exact ⟨rfl, rfl, fun _ => rfl⟩

/-! ## Runs -/

/-- What holds of a run in whatever order things happen. -/
structure ClaimLaws (edit : Edit) (events : List Event) : Prop where
  /-- The operation is completed under the claim only with leave to publish. -/
  published : ∀ earlier happened later,
    trace happen edit events = earlier ++ happened :: later → ∀ row new,
    happened.before.store.table.lookup edit.run.id = some row →
    row.claimToken = some edit.run.claimToken →
    happened.after.store.table.lookup edit.run.id = some new →
    new.status = .completed →
      row.status = .validating ∧
        ∃ granted ∈ earlier, granted.response.mayPublish = true
  /-- Without its claim the run changes nothing. -/
  guarded : ∀ happened ∈ trace happen edit events,
    (∀ step, happened.step ≠ .others step) →
    ¬ happened.before.store.Holds edit.run.id edit.run.claimToken →
      happened.after.store = happened.before.store
  /-- A claim that is gone stays gone. -/
  gone : ∀ happened ∈ trace happen edit events,
    ¬ happened.before.store.Holds edit.run.id edit.run.claimToken →
      ¬ happened.after.store.Holds edit.run.id edit.run.claimToken

/-- What holds of a run that is over once. -/
structure EndLaws (edit : Edit) (events : List Event) : Prop where
  /-- A run that is settled or lost stays so, and does nothing more. -/
  final : ∀ earlier happened later,
    trace happen edit events = earlier ++ happened :: later →
    happened.after.run.done = true → ∀ next ∈ later,
      next.after.run.state = happened.after.run.state ∧
        next.response.sends = none ∧
        (next.step.isOwn = true → next.after.store = next.before.store)
  /-- A run is settled or lost at most once. -/
  once : (trace happen edit events).countP (fun happened =>
    !happened.before.run.done && happened.after.run.done) ≤ 1

theorem done_of_state_eq
    {later : EditOperationRun}
    (same : later.state = run.state)
    (done : run.done = true) :
    later.done = true := by
  rw [EditOperationRun.done, same]
  exact done

theorem trace_of_done
    (done : edit.run.done = true)
    (onTime : AllMeet happen (fun edit event => edit.onTime event = true) edit
      events) :
    ∀ next ∈ trace happen edit events,
      next.before.run.done = true ∧
        next.after.run.state = edit.run.state ∧
        next.response.sends = none ∧
        (next.step.isOwn = true → next.after.store = next.before.store) := by
  induction events generalizing edit with
  | nil =>
      intro next member
      cases member
  | cons event rest inductionHypothesis =>
      obtain ⟨isOnTime, restOnTime⟩ := onTime
      have quiet := happen_of_done done isOnTime
      intro next member
      rcases List.mem_cons.mp member with rfl | later
      · exact ⟨done, quiet⟩
      · have laterLaws := inductionHypothesis (done_of_state_eq quiet.1 done)
          restOnTime next later
        rw [quiet.1] at laterLaws
        exact laterLaws

theorem endLaws
    (onTime : AllMeet happen (fun edit event => edit.onTime event = true) edit
      events) :
    EndLaws edit events where
  final := by
    intro earlier happened later split done next member
    obtain ⟨first, second, rfl, _, secondEq⟩ := exists_split_of_trace_eq split
    cases second with
    | nil => cases secondEq
    | cons event rest =>
        obtain ⟨rfl, rfl⟩ := List.cons.inj secondEq
        have restOnTime := (allMeet_append.mp onTime).2.2
        exact (trace_of_done done restOnTime next member).2
  once := by
    induction events generalizing edit with
    | nil => exact Nat.zero_le _
    | cons event rest inductionHypothesis =>
        rw [trace, List.countP_cons]
        by_cases done : (happen edit event).1.run.done = true
        · have noneLater : (trace happen (happen edit event).1 rest).countP
              (fun happened => !happened.before.run.done &&
                happened.after.run.done) = 0 := by
            apply List.countP_eq_zero.mpr
            intro next member
            rw [(trace_of_done done onTime.2 next member).1]
            exact Bool.false_ne_true
          rw [noneLater]
          split <;> omega
        · have notNow : (!(entry happen edit event).before.run.done &&
              (entry happen edit event).after.run.done) = false := by
            change (!_ && (happen edit event).1.run.done) = false
            rw [Bool.eq_false_iff.mpr done, Bool.and_false]
          rw [notNow]
          exact inductionHypothesis onTime.2

/-- What is known of a run when something happens. -/
structure Known (edit later : Edit) (granted : Prop) : Prop where
  same : SameRun edit.run later.run
  reached : ∃ steps, later.store = storeAfter steps
  drawn : edit.store.issued ≤ later.store.issued
  leave : later.Granted → granted

theorem known_later
    {steps : List MediaOperation.Step}
    (reached : edit.store = storeAfter steps)
    (noLeave : ¬ edit.Granted)
    (events : List Event) :
    Known edit (finalState happen edit events)
      (∃ granted ∈ trace happen edit events,
        granted.response.mayPublish = true) := by
  induction events using List.reverseRecOn with
  | nil =>
      exact {
        same := ⟨rfl, rfl⟩
        reached := ⟨steps, reached⟩
        drawn := le_rfl
        leave := fun granted => absurd granted noLeave }
  | append_singleton rest event inductionHypothesis =>
      rw [finalState_append, trace_append]
      obtain ⟨before, isBefore⟩ := inductionHypothesis.reached
      have leads := happen_leads (finalState happen edit rest) event
      rw [isBefore] at leads
      obtain ⟨more, isAfter⟩ := leads.reached
      exact {
        same := by
          obtain ⟨sameId, sameToken⟩ :=
            happen_run (finalState happen edit rest) event
          exact ⟨sameId.trans inductionHypothesis.same.1,
            sameToken.trans inductionHypothesis.same.2⟩
        reached := ⟨before ++ more, isAfter⟩
        drawn := by
          apply inductionHypothesis.drawn.trans
          rw [isBefore]
          exact (issued_le_later before more).trans_eq
            (congrArg OperationStore.issued isAfter.symm)
        leave := by
          intro granted
          rcases happen_granted granted with before | now
          · obtain ⟨told, member, mayPublish⟩ := inductionHypothesis.leave before
            exact ⟨told, List.mem_append_left _ member, mayPublish⟩
          · exact ⟨entry happen (finalState happen edit rest) event,
              List.mem_append_right _ (List.mem_singleton_self _), now⟩ }

/-- A run over a reached table keeps the laws of its claim. -/
theorem claimLaws
    {steps : List MediaOperation.Step}
    (reached : edit.store = storeAfter steps)
    (drawn : edit.run.claimToken < edit.store.issued)
    (noLeave : ¬ edit.Granted)
    (events : List Event) :
    ClaimLaws edit events where
  published := by
    intro earlier happened later split row new found held foundAfter completed
    obtain ⟨first, second, rfl, firstEq, secondEq⟩ :=
      exists_split_of_trace_eq split
    have known := known_later reached noLeave first
    obtain ⟨before, isBefore⟩ := known.reached
    cases second with
    | nil => cases secondEq
    | cons event rest =>
        obtain ⟨rfl, _⟩ := List.cons.inj secondEq
        have sound : (finalState happen edit first).store.Sound := by
          rw [isBefore]
          exact storeAfter_sound before
        rw [← known.same.1] at found foundAfter
        rw [← known.same.2] at held
        obtain ⟨validating, granted⟩ :=
          happen_completed sound found held foundAfter completed
        rw [← firstEq]
        exact ⟨validating, known.leave granted⟩
  guarded := by
    intro happened member notOthers stale
    obtain ⟨first, event, _, _, rfl⟩ := exists_split_of_mem_trace member
    have known := known_later reached noLeave first
    rw [← known.same.1, ← known.same.2] at stale
    exact happen_of_stale notOthers stale
  gone := by
    intro happened member gone
    obtain ⟨first, event, _, _, rfl⟩ := exists_split_of_mem_trace member
    have known := known_later reached noLeave first
    obtain ⟨before, isBefore⟩ := known.reached
    have leads := happen_leads (finalState happen edit first) event
    rw [isBefore] at leads
    obtain ⟨more, isAfter⟩ := leads.reached
    have drawnThen : edit.run.claimToken < (storeAfter before).issued := by
      rw [← isBefore]
      exact drawn.trans_le known.drawn
    dsimp only [entry] at gone ⊢
    rw [isAfter]
    rw [isBefore] at gone
    exact not_holds_later more drawnThen gone

theorem begun
    {earlier : List MediaOperation.Step}
    {instant : Instant}
    {seen : Surroundings}
    {id : OperationId}
    {leaseMs : ℤ}
    {inQueue : Bool}
    (begins : begin earlier instant seen id leaseMs inQueue = some edit) :
    (∃ steps, edit.store = storeAfter steps) ∧
      edit.run.claimToken < edit.store.issued ∧ ¬ edit.Granted := by
  simp only [begin] at begins
  split at begins
  case h_1 row took found =>
    obtain rfl := Option.some.inj begins
    refine ⟨⟨earlier ++ [⟨instant, seen, .beginJobQueueRun id leaseMs⟩], ?_⟩,
      Nat.lt_succ_self _, ?_⟩
    · exact (storeAfter_append_singleton _ _).symm
    · rintro (validating | ⟨waiting, member, _⟩ | deferred)
      · cases validating
      · cases member
      · exact deferred rfl
  case h_2 => cases begins

/-- A photo edit that waits in the queue with its job. -/
def queuedEdit : List MediaOperation.Step :=
  [⟨⟨0, 0⟩, ⟨[], [], []⟩, .create 7
    ⟨1, .quickEdit, .localMachine, some 3,
      ⟨some JOB_QUEUE_EXECUTOR, none, none, none, none, none⟩, none, none,
      some JOB_QUEUE_CLAIMANT, none⟩⟩]

/-- The run of its job, with a short lease. -/
def delivered : Edit :=
  (begin queuedEdit ⟨1, 1⟩ ⟨[], [], []⟩ 7 10 false).get (by decide +kernel)

/-- An edit that is rendered, checked and completed, one call after another. -/
def rendering : List Event :=
  let seen : Surroundings := ⟨[], [(3, 1)], []⟩
  [.calls (.progress 0), .serves 0 ⟨2, 2⟩ seen, .answers 0 none,
    .calls (.finish .success), .serves 0 ⟨3, 3⟩ seen, .answers 0 none,
    .serves 0 ⟨3, 3⟩ seen, .answers 0 none, .serves 0 ⟨4, 4⟩ seen,
    .answers 0 none]

/--
Events in which the lease lapses.  The heartbeat is refused and the run is
lost, then the answer to `validate` comes back and the run completes.
-/
def revival : List Event :=
  let seen : Surroundings := ⟨[], [(3, 1)], []⟩
  [.calls .validate, .beats, .serves 1 ⟨20, 20⟩ seen, .serves 0 ⟨20, 20⟩ seen,
    .answers 1 none, .answers 0 none, .calls (.complete (.asset (some 3))),
    .serves 0 ⟨21, 21⟩ seen, .answers 0 none, .serves 0 ⟨22, 22⟩ seen,
    .answers 0 none]

end Frameleaf.EditOperation
