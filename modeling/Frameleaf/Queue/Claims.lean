import Frameleaf.Queue.Changes

namespace Frameleaf.Queue

open Outcome Table

/-!
# What a claim does

A claim makes queued jobs active under tokens that no attempt has had before,
and records an attempt for each.  It changes no other job.
-/

variable {before middle after : Store} {now : Time} {workerId : WorkerId}

/-- The claim that a claimed row is handed out with. -/
def Job.claimed
    (id : JobId)
    (token : Token)
    (workerId : WorkerId)
    (now : Time)
    (job : Job) : QueueClaim where
  id := id
  queue := job.queue
  name := job.name
  data := job.data
  token := token
  workerId := workerId
  attempt := job.attempt + 1
  runId := job.runId
  itemKey := job.itemKey
  rootItemKey := job.rootItemKey
  deadlineMs := job.deadlineMs
  startedAt := now
  safeToRetry := job.safeToRetry

/-- A claimed row is handed out as its claim. -/
@[simp] theorem Job.toClaim_claim
    (id : JobId)
    (token : Token)
    (workerId : WorkerId)
    (now : Time)
    (job : Job) :
    (job.claim token workerId now).toClaim id =
      some (job.claimed id token workerId now) :=
  rfl

/-- One claimed job: it was queued, and its row and its claim agree. -/
structure ClaimedJob
    (before after : Store)
    (now : Time)
    (workerId : WorkerId)
    (claim : QueueClaim)
    (job : Job) : Prop where
  found : before.job claim.id = some job
  queued : job.state.isQueued = true
  row : after.job claim.id = some (job.claim claim.token workerId now)
  handedOut : claim = job.claimed claim.id claim.token workerId now

/-- Everything a claim changes. -/
structure Claims
    (before after : Store)
    (now : Time)
    (workerId : WorkerId)
    (claims : List QueueClaim) : Prop where
  claimed : ∀ claim ∈ claims, ∃ job,
    ClaimedJob before after now workerId claim job
  others : ∀ id, id ∉ claims.map QueueClaim.id →
    after.job id = before.job id
  distinct : (claims.map QueueClaim.id).Nodup
  attempts : ∀ key token,
    after.attempts.tokenOf key = some token ↔
      before.attempts.tokenOf key = some token ∨
        ∃ claim ∈ claims, key = (claim.id, claim.attempt) ∧
          token = claim.token
  fresh : ∀ claim ∈ claims, ∀ key,
    before.attempts.tokenOf key ≠ some claim.token

theorem Claims.none :
    Claims before before now workerId [] where
  claimed := by simp
  others := by simp
  distinct := List.nodup_nil
  attempts := by simp
  fresh := by simp

/-- One claim after the other claims the jobs of both. -/
theorem Claims.append
    {first second : List QueueClaim}
    (firstClaims : Claims before middle now workerId first)
    (secondClaims : Claims middle after now workerId second) :
    Claims before after now workerId (first ++ second) := by
  have apart :
      ∀ id ∈ first.map QueueClaim.id, id ∉ second.map QueueClaim.id := by
    intro id inFirst inSecond
    obtain ⟨claim, claimMember, rfl⟩ := List.mem_map.mp inFirst
    obtain ⟨later, laterMember, sameId⟩ := List.mem_map.mp inSecond
    obtain ⟨job, claimed⟩ := firstClaims.claimed claim claimMember
    obtain ⟨laterJob, laterClaimed⟩ :=
      secondClaims.claimed later laterMember
    have laterFound := laterClaimed.found
    rw [sameId, claimed.row] at laterFound
    cases laterFound
    cases laterClaimed.queued
  refine
    { claimed := fun claim member => ?_
      others := fun id notClaimed => ?_
      distinct := ?_
      attempts := fun key token => ?_
      fresh := fun claim member key => ?_ }
  · rcases List.mem_append.mp member with inFirst | inSecond
    · obtain ⟨job, claimed⟩ := firstClaims.claimed claim inFirst
      have untouched :=
        secondClaims.others claim.id
          (apart claim.id (List.mem_map_of_mem inFirst))
      exact ⟨job, claimed.found, claimed.queued,
        untouched.trans claimed.row, claimed.handedOut⟩
    · obtain ⟨job, claimed⟩ := secondClaims.claimed claim inSecond
      have untouched :=
        firstClaims.others claim.id fun inFirst =>
          apart claim.id inFirst (List.mem_map_of_mem inSecond)
      exact ⟨job, untouched.symm.trans claimed.found, claimed.queued,
        claimed.row, claimed.handedOut⟩
  · rw [List.map_append, List.mem_append, not_or] at notClaimed
    exact (secondClaims.others id notClaimed.2).trans
      (firstClaims.others id notClaimed.1)
  · rw [List.map_append]
    exact List.nodup_append'.mpr
      ⟨firstClaims.distinct, secondClaims.distinct, apart⟩
  · rw [secondClaims.attempts, firstClaims.attempts]
    simp only [List.mem_append, or_and_right, exists_or, or_assoc]
  · rcases List.mem_append.mp member with inFirst | inSecond
    · exact firstClaims.fresh claim inFirst key
    · intro used
      have usedLater :=
        (firstClaims.attempts key claim.token).mpr (Or.inl used)
      exact secondClaims.fresh claim inSecond key usedLater

theorem AttemptTable.tokenOf_insert
    {attempts inserted : AttemptTable}
    {key : JobId × ℕ}
    {attempt : Attempt}
    (accepted : attempts.insert key attempt = .ok inserted) :
    (∀ other token, inserted.tokenOf other = some token ↔
      attempts.tokenOf other = some token ∨
        other = key ∧ token = attempt.token) ∧
    ∀ other, attempts.tokenOf other ≠ some attempt.token := by
  unfold AttemptTable.insert at accepted
  split at accepted
  · rename_i fresh
    cases accepted
    have absent : attempts.rows.lookup key = none :=
      AList.lookup_eq_none.mpr fresh.1
    refine ⟨fun other token => ?_, fun other used => ?_⟩
    · simp only [AttemptTable.tokenOf]
      by_cases sameKey : other = key
      · subst sameKey
        simp [absent, eq_comm]
      · simp [AList.lookup_insert_ne sameKey, sameKey]
    · obtain ⟨row, found, sameToken⟩ := Option.map_eq_some_iff.mp used
      refine fresh.2 (List.mem_map.mpr ⟨⟨other, row⟩, ?_, sameToken⟩)
      exact AList.mem_lookup_iff.mp found
  · cases accepted

variable {claims : List QueueClaim}

theorem recordAttempts_spec
    {attempts recorded : AttemptTable}
    (accepted : recordAttempts now attempts claims = .ok recorded) :
    (∀ key token, recorded.tokenOf key = some token ↔
      attempts.tokenOf key = some token ∨
        ∃ claim ∈ claims, key = (claim.id, claim.attempt) ∧
          token = claim.token) ∧
    ∀ claim ∈ claims, ∀ key, attempts.tokenOf key ≠ some claim.token := by
  induction claims generalizing attempts with
  | nil =>
      cases accepted
      simp
  | cons claim rest inductionHypothesis =>
      obtain ⟨inserted, insertion, remaining⟩ := bind_eq_ok.mp accepted
      obtain ⟨insertedTokens, claimFresh⟩ :=
        AttemptTable.tokenOf_insert insertion
      obtain ⟨recordedTokens, restFresh⟩ := inductionHypothesis remaining
      refine ⟨fun key token => ?_, fun later member key => ?_⟩
      · rw [recordedTokens, insertedTokens]
        simp only [List.mem_cons, exists_eq_or_imp, or_assoc]
      · rcases List.mem_cons.mp member with rfl | inRest
        · exact claimFresh key
        · intro used
          exact restFresh later inRest key
            ((insertedTokens key later.token).mpr (Or.inl used))

theorem Store.nodup_chosenJobs
    (store : Store)
    (now : Time)
    (queue : QueueName)
    (byHand : Bool)
    (locked : JobId → Bool)
    (limit : ℕ) :
    (store.chosenJobs now queue byHand locked limit).Nodup := by
  unfold Store.chosenJobs
  refine List.Nodup.sublist ((List.take_sublist _ _).map Sigma.fst) ?_
  have permuted := List.perm_insertionSort
    (fun first second => claimedBefore first second = true)
    (store.jobs.rows.entries.filter fun entry =>
      store.isClaimable now queue byHand entry.2 && !locked entry.1)
  refine ((permuted.map Sigma.fst).nodup_iff).mpr ?_
  exact List.Nodup.sublist (List.filter_sublist.map Sigma.fst)
    store.jobs.rows.keys_nodup

variable {store : Store} {queue : QueueName} {byHand : Bool}
  {locked : JobId → Bool}

theorem Store.claimable_of_mem_chosenJobs
    {limit : ℕ}
    {id : JobId}
    (member : id ∈ store.chosenJobs now queue byHand locked limit) :
    ∃ job, store.job id = some job ∧
      store.isClaimable now queue byHand job = true := by
  unfold Store.chosenJobs at member
  obtain ⟨entry, inPage, rfl⟩ := List.mem_map.mp member
  have inSorted := List.mem_of_mem_take inPage
  rw [List.mem_insertionSort] at inSorted
  obtain ⟨inTable, holds⟩ := List.mem_filter.mp inSorted
  rw [Bool.and_eq_true] at holds
  exact ⟨entry.2, AList.mem_lookup_iff.mpr inTable, holds.1⟩

theorem Store.isQueued_of_isClaimable
    {job : Job}
    (claimable : store.isClaimable now queue byHand job = true) :
    job.state.isQueued = true := by
  simp only [Store.isClaimable, Bool.and_eq_true] at claimable
  exact claimable.1.1.1.2

/-- What one page of claims does. -/
theorem claims_of_claimPending
    {tokens : JobId → Token}
    {limit : ℕ}
    (pending :
      store.claimPending now queue workerId byHand locked tokens limit =
        .ok (after, claims)) :
    Claims store after now workerId claims := by
  unfold Store.claimPending at pending
  have distinct := store.nodup_chosenJobs now queue byHand locked limit
  have claimable :=
    fun id (member : id ∈ store.chosenJobs now queue byHand locked limit) =>
      Store.claimable_of_mem_chosenJobs member
  generalize store.chosenJobs now queue byHand locked limit = chosen at *
  simp only at pending
  split at pending
  · cases pending
    exact Claims.none
  · obtain ⟨_, _, rest⟩ := bind_eq_ok.mp pending
    obtain ⟨updated, update, rest⟩ := bind_eq_ok.mp rest
    obtain ⟨attempts, recorded, done⟩ := bind_eq_ok.mp rest
    have updatedRow := Store.job_of_updateJobs update
    have handedOut :
        ∀ id ∈ chosen, ∃ job, store.job id = some job ∧
          job.state.isQueued = true ∧
          updated.job id = some (job.claim (tokens id) workerId now) := by
      intro id member
      obtain ⟨job, found, isClaimable⟩ := claimable id member
      refine ⟨job, found, Store.isQueued_of_isClaimable isClaimable, ?_⟩
      rw [updatedRow, found]
      simp [member]
    have sameAttempts : updated.attempts = store.attempts := by
      rw [Store.eq_of_updateJobs update]
    have claimsEq :
        ∀ ids ⊆ chosen,
          (ids.filterMap fun id =>
            (updated.job id).bind (Job.toClaim id)).map QueueClaim.id = ids := by
      intro ids
      induction ids with
      | nil =>
          simp
      | cons id rest inductionHypothesis =>
          intro subset
          rw [List.cons_subset] at subset
          obtain ⟨job, _, _, row⟩ := handedOut id subset.1
          rw [List.filterMap_cons, row]
          simp only [Option.bind_some, Job.toClaim_claim, List.map_cons,
            inductionHypothesis subset.2]
          rfl
    have claimMember :
        ∀ claim ∈ chosen.filterMap fun id =>
            (updated.job id).bind (Job.toClaim id),
          ∃ job,
            ClaimedJob store { updated with attempts := attempts } now workerId
              claim job := by
      intro claim member
      obtain ⟨id, idMember, claimEq⟩ := List.mem_filterMap.mp member
      obtain ⟨job, found, queued, row⟩ := handedOut id idMember
      rw [row, Option.bind_some, Job.toClaim_claim] at claimEq
      cases claimEq
      exact ⟨job, found, queued, row, rfl⟩
    obtain ⟨recordedTokens, fresh⟩ := recordAttempts_spec recorded
    rw [sameAttempts] at recordedTokens fresh
    cases done
    exact
      { claimed := claimMember
        others := fun id notClaimed => by
          rw [claimsEq chosen (List.Subset.refl _)] at notClaimed
          have row := updatedRow id
          simp only [notClaimed, decide_false, Bool.false_eq_true, if_false,
            Option.map_id'] at row
          exact row
        distinct := by
          rw [claimsEq chosen (List.Subset.refl _)]
          exact distinct
        attempts := recordedTokens
        fresh := fresh }

theorem claims_of_claim
    {maxClaims : ℕ}
    {tokens : JobId → Token}
    (claimed :
      store.claim now queue workerId maxClaims locked tokens =
        .ok (after, claims)) :
    Claims store after now workerId claims := by
  unfold Store.claim at claimed
  split at claimed
  · cases claimed
    exact Claims.none
  · obtain ⟨⟨handStarted, byHand⟩, first, rest⟩ := bind_eq_ok.mp claimed
    have firstClaims := claims_of_claimPending first
    simp only at rest
    split at rest
    · cases rest
      exact firstClaims
    · obtain ⟨⟨last, inTurn⟩, second, done⟩ := bind_eq_ok.mp rest
      cases done
      exact firstClaims.append (claims_of_claimPending second)

theorem Store.perform_effect
    (store : Store)
    (step : Step) :
    Changes store (store.perform step).1 ∨
      ∃ now workerId claims,
        Claims store (store.perform step).1 now workerId claims ∧
          (store.perform step).2 = .claimed claims := by
  rcases store.perform_cases step with transacted | ⟨same, _⟩
  · cases isClaim : step.isClaim with
    | false =>
        exact Or.inl (changes_of_transact isClaim transacted)
    | true =>
        cases step with
        | claim now queue workerId maxClaims locked tokens =>
            obtain ⟨⟨after, claims⟩, claimed, done⟩ := bind_eq_ok.mp transacted
            rw [pure_eq_ok] at done
            rw [← done]
            exact Or.inr ⟨now, workerId, claims, claims_of_claim claimed, rfl⟩
        | _ =>
            cases isClaim
  · rw [same]
    exact Or.inl Relation.ReflTransGen.refl

end Frameleaf.Queue
