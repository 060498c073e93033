import Frameleaf.MediaOperation.Row

namespace Frameleaf.MediaOperation

/-!
# The life of one operation

Where an operation stands is its status, its claim and what its owner asked
for.  The moves below are all that may happen to it.  They are the purpose of
the statements, without their columns: a claim goes forward, a cancel is never
undone, a pause asked for is held where nobody works, and an automatic retry is
spent once.
-/

/-- Where an operation stands. -/
structure Standing where
  status : MediaOperationStatus
  claimToken : Option Token
  cancelRequested : Bool
  pauseRequested : Bool
  autoRetries : ℕ
deriving DecidableEq, Repr

/-- Where a row stands. -/
def Row.standing (row : Row) : Standing where
  status := row.status
  claimToken := row.claimToken
  cancelRequested := row.cancelRequestedAt.isSome
  pauseRequested := row.pauseRequestedAt.isSome
  autoRetries := row.autoRetries

namespace Standing

/-- Where an operation goes when its worker lets go of it. -/
def idle (standing : Standing) : MediaOperationStatus :=
  if standing.pauseRequested then .paused else .queued

/-- A new operation waits in the queue. -/
def new : Standing where
  status := .queued
  claimToken := none
  cancelRequested := false
  pauseRequested := false
  autoRetries := 0

/-- What may happen to an operation, with the token that was drawn for a claim. -/
inductive Move (drawn : Option Token) : Standing → Standing → Prop where
  | kept (standing : Standing) : Move drawn standing standing
  | claimed (standing : Standing)
      (token : Token)
      (isDrawn : drawn = some token)
      (queued : standing.status = .queued)
      (notCancelled : standing.cancelRequested = false) :
      Move drawn standing
        { standing with status := .preparing, claimToken := some token }
  | advanced (standing : Standing)
      (stage : MediaOperationStatus)
      (forward : ∃ allowed, PROGRESS_FROM stage = some allowed ∧
        standing.status ∈ allowed) :
      Move drawn standing { standing with status := stage }
  | completed (standing : Standing)
      (validating : standing.status = .validating) :
      Move drawn standing
        { standing with
          status := .completed, claimToken := none, pauseRequested := false }
  | retried (standing : Standing)
      (working : standing.status ∈ WORKING_STATUSES)
      (notCancelled : standing.cancelRequested = false)
      (budget : standing.autoRetries < MEDIA_OPERATION_AUTO_RETRIES) :
      Move drawn standing
        { standing with
          status := standing.idle
          claimToken := none
          autoRetries := standing.autoRetries + 1 }
  | requeued (standing : Standing)
      (working : standing.status ∈ WORKING_STATUSES)
      (notCancelled : standing.cancelRequested = false) :
      Move drawn standing
        { standing with status := standing.idle, claimToken := none }
  | paused (standing : Standing)
      (working : standing.status ∈ WORKING_STATUSES)
      (notCancelled : standing.cancelRequested = false) :
      Move drawn standing
        { standing with status := .paused, claimToken := none }
  | failed (standing : Standing)
      (pauseRequested : Bool)
      (unfinished : standing.status ∉ TERMINAL_MEDIA_OPERATION_STATUSES) :
      Move drawn standing
        { standing with
          status := .failed
          claimToken := none
          pauseRequested := pauseRequested }
  | cancelledOutright (standing : Standing)
      (unclaimed : standing.status ∈ UNCLAIMED_STATUSES) :
      Move drawn standing
        { standing with
          status := .cancelled
          claimToken := none
          cancelRequested := true
          pauseRequested := false }
  | cancelling (standing : Standing)
      (held : standing.status ∈ CLAIMED_MEDIA_OPERATION_STATUSES) :
      Move drawn standing
        { standing with
          status := .cancelling
          cancelRequested := true
          pauseRequested := false }
  | stopped (standing : Standing)
      (held : standing.status ∈ CLAIMED_MEDIA_OPERATION_STATUSES) :
      Move drawn standing
        { standing with status := .cancelled, claimToken := none }
  | held (standing : Standing)
      (queued : standing.status = .queued)
      (notCancelled : standing.cancelRequested = false) :
      Move drawn standing
        { standing with status := .paused, pauseRequested := true }
  | pauseAsked (standing : Standing)
      (early : standing.status = .preparing ∨ standing.status = .rendering) :
      Move drawn standing { standing with pauseRequested := true }
  | resumed (standing : Standing)
      (waiting : standing.status = .paused)
      (notCancelled : standing.cancelRequested = false) :
      Move drawn standing
        { standing with status := .queued, pauseRequested := false }
  | pauseWithdrawn (standing : Standing)
      (working : standing.status ∈ WORKING_STATUSES) :
      Move drawn standing { standing with pauseRequested := false }

/-- What holds of every operation. -/
structure Sound (standing : Standing) : Prop where
  pauseHeld : standing.status = .queued → standing.pauseRequested = false
  cancelKept : standing.cancelRequested = true →
    standing.status ∈ [MediaOperationStatus.cancelling, .cancelled, .failed]
  cancelAsked : standing.status = .cancelling → standing.cancelRequested = true
  claimHeld : standing.claimToken.isSome = true ↔
    standing.status ∈ CLAIMED_MEDIA_OPERATION_STATUSES
  budgetKept : standing.autoRetries ≤ MEDIA_OPERATION_AUTO_RETRIES

theorem new_sound : new.Sound where
  pauseHeld _ := rfl
  cancelKept := by decide
  cancelAsked := by decide
  claimHeld := by decide
  budgetKept := by decide

variable {drawn : Option Token} {before after : Standing}

variable {status : MediaOperationStatus}

theorem mem_working_of_progressFrom
    {stage : MediaOperationStatus}
    {allowed : List MediaOperationStatus}
    (forward : PROGRESS_FROM stage = some allowed)
    (member : status ∈ allowed) :
    stage ∈ WORKING_STATUSES ∧ status ∈ WORKING_STATUSES := by
  cases stage <;> simp [PROGRESS_FROM] at forward <;> subst forward <;>
    simp [WORKING_STATUSES] at member ⊢ <;> tauto

theorem working_iff :
    status ∈ WORKING_STATUSES ↔
      status ∈ CLAIMED_MEDIA_OPERATION_STATUSES ∧ status ≠ .cancelling := by
  cases status <;> decide

theorem idle_eq_queued_iff
    {standing : Standing} :
    standing.idle = .queued ↔ standing.pauseRequested = false := by
  cases asked : standing.pauseRequested <;> simp [idle, asked]

theorem idle_not_claimed
    (standing : Standing) :
    standing.idle ∉ CLAIMED_MEDIA_OPERATION_STATUSES := by
  cases asked : standing.pauseRequested <;>
    simp [idle, asked, CLAIMED_MEDIA_OPERATION_STATUSES]

theorem idle_ne_cancelling
    (standing : Standing) :
    standing.idle ≠ .cancelling := by
  cases asked : standing.pauseRequested <;> simp [idle, asked]

theorem cancelKept_of_not
    {Status : Prop}
    (notCancelled : before.cancelRequested = false)
    (cancelled : before.cancelRequested = true) : Status := by
  rw [notCancelled] at cancelled
  cases cancelled

theorem Sound.notCancelled
    (sound : before.Sound)
    (working : before.status ∈ WORKING_STATUSES) :
    before.cancelRequested = false := by
  by_contra cancelled
  have ended := sound.cancelKept (by simpa using cancelled)
  revert working ended
  cases before.status <;> decide

/-- Every move keeps an operation sound. -/
theorem Move.sound
    (move : Move drawn before after)
    (sound : before.Sound) :
    after.Sound := by
  cases move with
  | kept =>
      exact sound
  | claimed token isDrawn queued notCancelled =>
      exact {
        pauseHeld := nofun
        cancelKept := cancelKept_of_not notCancelled
        cancelAsked := nofun
        claimHeld := iff_of_true rfl
          (by simp [CLAIMED_MEDIA_OPERATION_STATUSES])
        budgetKept := sound.budgetKept }
  | advanced stage forward =>
      obtain ⟨allowed, isFrom, member⟩ := forward
      obtain ⟨working, wasWorking⟩ := mem_working_of_progressFrom isFrom member
      have held := sound.claimHeld.mpr (working_iff.mp wasWorking).1
      exact {
        pauseHeld := fun (queued : stage = .queued) =>
          absurd (queued ▸ working) (by decide)
        cancelKept := cancelKept_of_not (sound.notCancelled wasWorking)
        cancelAsked := fun (stopping : stage = .cancelling) =>
          absurd (stopping ▸ working) (by decide)
        claimHeld := iff_of_true held (working_iff.mp working).1
        budgetKept := sound.budgetKept }
  | completed validating =>
      have notCancelled := sound.notCancelled (validating ▸ by decide)
      exact {
        pauseHeld := nofun
        cancelKept := cancelKept_of_not notCancelled
        cancelAsked := nofun
        claimHeld := iff_of_false nofun
          (by simp [CLAIMED_MEDIA_OPERATION_STATUSES])
        budgetKept := sound.budgetKept }
  | retried working notCancelled budget =>
      exact {
        pauseHeld := idle_eq_queued_iff.mp
        cancelKept := cancelKept_of_not notCancelled
        cancelAsked := fun stopping => absurd stopping before.idle_ne_cancelling
        claimHeld := iff_of_false nofun before.idle_not_claimed
        budgetKept := budget }
  | requeued working notCancelled =>
      exact {
        pauseHeld := idle_eq_queued_iff.mp
        cancelKept := cancelKept_of_not notCancelled
        cancelAsked := fun stopping => absurd stopping before.idle_ne_cancelling
        claimHeld := iff_of_false nofun before.idle_not_claimed
        budgetKept := sound.budgetKept }
  | paused working notCancelled =>
      exact {
        pauseHeld := nofun
        cancelKept := cancelKept_of_not notCancelled
        cancelAsked := nofun
        claimHeld := iff_of_false nofun
          (by simp [CLAIMED_MEDIA_OPERATION_STATUSES])
        budgetKept := sound.budgetKept }
  | failed pauseRequested unfinished =>
      exact {
        pauseHeld := nofun
        cancelKept := fun _ => by simp
        cancelAsked := nofun
        claimHeld := iff_of_false nofun
          (by simp [CLAIMED_MEDIA_OPERATION_STATUSES])
        budgetKept := sound.budgetKept }
  | cancelledOutright unclaimed =>
      exact {
        pauseHeld := nofun
        cancelKept := fun _ => by simp
        cancelAsked := nofun
        claimHeld := iff_of_false nofun
          (by simp [CLAIMED_MEDIA_OPERATION_STATUSES])
        budgetKept := sound.budgetKept }
  | cancelling held =>
      exact {
        pauseHeld := nofun
        cancelKept := fun _ => by simp
        cancelAsked := fun _ => rfl
        claimHeld := iff_of_true (sound.claimHeld.mpr held)
          (by simp [CLAIMED_MEDIA_OPERATION_STATUSES])
        budgetKept := sound.budgetKept }
  | stopped held =>
      exact {
        pauseHeld := nofun
        cancelKept := fun _ => by simp
        cancelAsked := nofun
        claimHeld := iff_of_false nofun
          (by simp [CLAIMED_MEDIA_OPERATION_STATUSES])
        budgetKept := sound.budgetKept }
  | held queued notCancelled =>
      have unclaimed : ¬ before.claimToken.isSome = true := by
        rw [sound.claimHeld, queued]
        decide
      exact {
        pauseHeld := nofun
        cancelKept := cancelKept_of_not notCancelled
        cancelAsked := nofun
        claimHeld := iff_of_false unclaimed
          (by simp [CLAIMED_MEDIA_OPERATION_STATUSES])
        budgetKept := sound.budgetKept }
  | pauseAsked early =>
      constructor
      case pauseHeld =>
        intro queued
        rcases early with preparing | rendering
        · exact absurd (preparing.symm.trans queued) (by decide)
        · exact absurd (rendering.symm.trans queued) (by decide)
      case cancelKept => exact sound.cancelKept
      case cancelAsked => exact sound.cancelAsked
      case claimHeld => exact sound.claimHeld
      case budgetKept => exact sound.budgetKept
  | resumed waiting notCancelled =>
      have unclaimed : ¬ before.claimToken.isSome = true := by
        rw [sound.claimHeld, waiting]
        decide
      exact {
        pauseHeld := fun _ => rfl
        cancelKept := cancelKept_of_not notCancelled
        cancelAsked := nofun
        claimHeld := iff_of_false unclaimed
          (by simp [CLAIMED_MEDIA_OPERATION_STATUSES])
        budgetKept := sound.budgetKept }
  | pauseWithdrawn working =>
      exact {
        pauseHeld := fun _ => rfl
        cancelKept := sound.cancelKept
        cancelAsked := sound.cancelAsked
        claimHeld := sound.claimHeld
        budgetKept := sound.budgetKept }

/-- How far a claim has come. -/
def stage : MediaOperationStatus → ℕ
  | .preparing => 1
  | .rendering => 2
  | .validating => 3
  | .cancelling => 4
  | _ => 0

theorem stage_le_of_progressFrom
    {reported : MediaOperationStatus}
    {allowed : List MediaOperationStatus}
    (forward : PROGRESS_FROM reported = some allowed)
    (member : status ∈ allowed) :
    stage status ≤ stage reported := by
  cases reported <;> simp [PROGRESS_FROM] at forward <;> subst forward <;>
    cases status <;> simp [stage] at member ⊢

theorem stage_le_cancelling
    (status : MediaOperationStatus) :
    stage status ≤ stage .cancelling := by
  cases status <;> decide

theorem Move.stage_le
    {held : Token}
    (move : Move drawn before after)
    (heldAfter : after.claimToken = some held) :
    stage before.status ≤ stage after.status := by
  cases move with
  | kept => exact le_rfl
  | claimed token isDrawn queued notCancelled =>
      rw [queued]
      exact Nat.zero_le _
  | advanced reported forward =>
      obtain ⟨allowed, isAllowed, member⟩ := forward
      exact stage_le_of_progressFrom isAllowed member
  | completed | retried | requeued | paused | failed | cancelledOutright
  | stopped => cases heldAfter
  | cancelling => exact stage_le_cancelling _
  | held queued notCancelled =>
      rw [queued]
      exact Nat.zero_le _
  | pauseAsked => exact le_rfl
  | resumed waiting notCancelled =>
      rw [waiting]
      exact Nat.zero_le _
  | pauseWithdrawn => exact le_rfl

theorem not_terminal_of_claimed
    (held : status ∈ CLAIMED_MEDIA_OPERATION_STATUSES) :
    status ∉ TERMINAL_MEDIA_OPERATION_STATUSES := by
  revert held
  cases status <;> decide

theorem not_terminal_of_unclaimed
    (unclaimed : status ∈ UNCLAIMED_STATUSES) :
    status ∉ TERMINAL_MEDIA_OPERATION_STATUSES := by
  revert unclaimed
  cases status <;> decide

theorem Move.eq_or_unfinished
    (move : Move drawn before after) :
    after = before ∨ before.status ∉ TERMINAL_MEDIA_OPERATION_STATUSES := by
  cases move with
  | kept => exact .inl rfl
  | claimed _ _ queued | held queued =>
      exact .inr (not_terminal_of_unclaimed (queued ▸ by decide))
  | advanced _ forward =>
      obtain ⟨_, isFrom, member⟩ := forward
      have working := (mem_working_of_progressFrom isFrom member).2
      exact .inr (not_terminal_of_claimed (working_iff.mp working).1)
  | completed validating =>
      exact .inr (not_terminal_of_claimed (validating ▸ by decide))
  | retried working | requeued working | paused working
  | pauseWithdrawn working =>
      exact .inr (not_terminal_of_claimed (working_iff.mp working).1)
  | failed _ unfinished => exact .inr unfinished
  | cancelledOutright unclaimed =>
      exact .inr (not_terminal_of_unclaimed unclaimed)
  | cancelling held | stopped held => exact .inr (not_terminal_of_claimed held)
  | pauseAsked early =>
      rcases early with preparing | rendering
      · exact .inr (not_terminal_of_claimed (preparing ▸ by decide))
      · exact .inr (not_terminal_of_claimed (rendering ▸ by decide))
  | resumed waiting =>
      exact .inr (not_terminal_of_unclaimed (waiting ▸ by decide))

theorem Move.eq_of_terminal
    (move : Move drawn before after)
    (finished : before.status ∈ TERMINAL_MEDIA_OPERATION_STATUSES) :
    after = before :=
  move.eq_or_unfinished.resolve_right fun unfinished => unfinished finished

theorem Move.cancelRequested
    (move : Move drawn before after)
    (asked : before.cancelRequested = true) :
    after.cancelRequested = true := by
  cases move <;> first | exact asked | rfl

theorem Move.claimToken
    {held : Token}
    (move : Move drawn before after)
    (heldAfter : after.claimToken = some held) :
    drawn = some held ∨ before.claimToken = some held := by
  cases move with
  | claimed token isDrawn => exact .inl (isDrawn.trans heldAfter)
  | completed | retried | requeued | paused | failed | cancelledOutright
  | stopped => cases heldAfter
  | kept | advanced | cancelling | held | pauseAsked | resumed
  | pauseWithdrawn => exact .inr heldAfter

theorem Move.autoRetries_le
    (move : Move drawn before after) :
    before.autoRetries ≤ after.autoRetries := by
  cases move <;> first | exact le_rfl | exact Nat.le_succ _

end Standing

end Frameleaf.MediaOperation
