import Frameleaf.Queue.Claims

namespace Frameleaf.Queue

open Outcome Table Trace

/-!
# A claim token is spent at most once

Every token that a job was ever claimed under stays in the audit, and a claim
takes only tokens that are not there.  So once the job of a token is no longer
active under it, no job ever is again, and every later call that carries the
token finds nothing to change.
-/

variable {store before after : Store}

theorem AttemptTable.tokenOf_inj
    (attempts : AttemptTable)
    {first second : JobId × ℕ}
    {token : Token}
    (firstToken : attempts.tokenOf first = some token)
    (secondToken : attempts.tokenOf second = some token) :
    first = second := by
  obtain ⟨firstRow, firstFound, firstEq⟩ := Option.map_eq_some_iff.mp firstToken
  obtain ⟨secondRow, secondFound, secondEq⟩ :=
    Option.map_eq_some_iff.mp secondToken
  have sameEntry :=
    List.inj_on_of_nodup_map attempts.tokensDistinct
      (AList.mem_lookup_iff.mp firstFound)
      (AList.mem_lookup_iff.mp secondFound)
      (firstEq.trans secondEq.symm)
  exact congrArg Sigma.fst sameEntry

/-- The token of every active job is recorded as one of its attempts. -/
def TokensAudited (store : Store) : Prop :=
  ∀ id job token, store.job id = some job → job.state = .active token →
    ∃ attempt, store.attempts.tokenOf (id, attempt) = some token

/-- A token was used, and no job is active under it. -/
structure TokenSpent (store : Store) (token : Token) : Prop where
  used : ∃ key, store.attempts.tokenOf key = some token
  idle : ∀ id job, store.job id = some job → job.state ≠ .active token

theorem TokensAudited.unique
    (audited : TokensAudited store)
    {first second : JobId}
    {firstJob secondJob : Job}
    {token : Token}
    (firstFound : store.job first = some firstJob)
    (firstActive : firstJob.state = .active token)
    (secondFound : store.job second = some secondJob)
    (secondActive : secondJob.state = .active token) :
    first = second := by
  obtain ⟨_, firstToken⟩ := audited first firstJob token firstFound firstActive
  obtain ⟨_, secondToken⟩ :=
    audited second secondJob token secondFound secondActive
  exact congrArg Prod.fst
    (store.attempts.tokenOf_inj firstToken secondToken)

theorem Changes.tokenOf_eq
    (changes : Changes before after)
    (key : JobId × ℕ) :
    after.attempts.tokenOf key = before.attempts.tokenOf key := by
  induction changes with
  | refl =>
      rfl
  | tail _ statement inductionHypothesis =>
      exact (statement.tokens key).trans inductionHypothesis

theorem Changes.audited
    (changes : Changes before after)
    (audited : TokensAudited before) :
    TokensAudited after := by
  intro id job token found active
  obtain ⟨old, oldFound, oldActive⟩ := changes.active_before found active
  obtain ⟨attempt, recorded⟩ := audited id old token oldFound oldActive
  exact ⟨attempt, (changes.tokenOf_eq _).trans recorded⟩

theorem Changes.spent
    {token : Token}
    (changes : Changes before after)
    (spent : TokenSpent before token) :
    TokenSpent after token where
  used := by
    obtain ⟨key, used⟩ := spent.used
    exact ⟨key, (changes.tokenOf_eq key).trans used⟩
  idle := by
    intro id job found active
    obtain ⟨old, oldFound, oldActive⟩ := changes.active_before found active
    exact spent.idle id old oldFound oldActive

variable {now : Time} {workerId : WorkerId} {claims : List QueueClaim}
  {id : JobId} {job : Job}

theorem Claims.active_after
    {token : Token}
    (claimed : Claims before after now workerId claims)
    (found : after.job id = some job)
    (active : job.state = .active token) :
    (∃ claim ∈ claims, claim.id = id ∧ claim.token = token) ∨
      before.job id = some job := by
  by_cases isClaimed : id ∈ claims.map QueueClaim.id
  · obtain ⟨claim, member, rfl⟩ := List.mem_map.mp isClaimed
    obtain ⟨old, claimedJob⟩ := claimed.claimed claim member
    have row := claimedJob.row
    rw [found] at row
    cases row
    cases active
    exact Or.inl ⟨claim, member, rfl, rfl⟩
  · exact Or.inr ((claimed.others id isClaimed).symm.trans found)

theorem Claims.audited
    (claimed : Claims before after now workerId claims)
    (audited : TokensAudited before) :
    TokensAudited after := by
  intro id job token found active
  rcases claimed.active_after found active with
    ⟨claim, member, rfl, rfl⟩ | oldFound
  · exact ⟨claim.attempt, (claimed.attempts _ _).mpr
      (Or.inr ⟨claim, member, rfl, rfl⟩)⟩
  · obtain ⟨attempt, recorded⟩ := audited id job token oldFound active
    exact ⟨attempt, (claimed.attempts _ _).mpr (Or.inl recorded)⟩

theorem Claims.spent
    {token : Token}
    (claimed : Claims before after now workerId claims)
    (spent : TokenSpent before token) :
    TokenSpent after token where
  used := by
    obtain ⟨key, used⟩ := spent.used
    exact ⟨key, (claimed.attempts _ _).mpr (Or.inl used)⟩
  idle := by
    intro id job found active
    rcases claimed.active_after found active with
      ⟨claim, member, _, rfl⟩ | oldFound
    · obtain ⟨key, used⟩ := spent.used
      exact claimed.fresh claim member key used
    · exact spent.idle id job oldFound active

theorem tokensAudited_perform
    (store : Store)
    (step : Step)
    (audited : TokensAudited store) :
    TokensAudited (store.perform step).1 := by
  rcases store.perform_effect step with changes | ⟨_, _, _, claimed, _⟩
  · exact changes.audited audited
  · exact claimed.audited audited

theorem tokenSpent_perform
    {token : Token}
    (store : Store)
    (step : Step)
    (spent : TokenSpent store token) :
    TokenSpent (store.perform step).1 token := by
  rcases store.perform_effect step with changes | ⟨_, _, _, claimed, _⟩
  · exact changes.spent spent
  · exact claimed.spent spent

variable {steps : List Step}

theorem tokenSpent_finalState
    {token : Token}
    (spent : TokenSpent store token) :
    TokenSpent (finalState Store.perform store steps) token := by
  have kept :
      ∀ before step, TokenSpent before token →
        TokenSpent (before.perform step).1 token :=
    fun before step => tokenSpent_perform before step
  exact invariant_of_kept kept spent

theorem tokensAudited_empty : TokensAudited Store.empty := by
  intro id job token found
  cases found

/-- What a claim token stands for in a store: one attempt, recorded in the
audit, and one job at most that is active under it. -/
structure TokenHolders (store : Store) : Prop where
  oneJob : ∀ first second firstJob secondJob token,
    store.job first = some firstJob → firstJob.state = .active token →
    store.job second = some secondJob → secondJob.state = .active token →
      first = second
  oneAttempt : ∀ id job token, store.job id = some job →
    job.state = .active token →
      ∃! entry : JobId × ℕ, store.attempts.tokenOf entry = some token

/-- The token that a call presents for its claim. -/
def Step.token : Step → Option Token
  | .complete _ _ held _ _ => some held.token
  | .defer _ held _ => some held.token
  | .fail _ held _ options _ =>
      if options.queuedCancellation then none else held.token
  | .progress _ _ token _ => some token
  | .annotate _ _ token _ _ => some token
  | .joinRun _ _ token _ _ => some token
  | _ => none

/-- Whether a call with an answer ended the claim that it was about. -/
def settles : Step → Response → Bool
  | .complete .., .completed result => result.isSome
  | .defer .., .accepted result => result
  | .fail .., .failed result => result.isSome
  | _, _ => false

/-- One job of a store leaves its claim, and nothing becomes active. -/
structure LeavesClaim
    (before after : Store)
    (id : JobId)
    (token : Token) : Prop where
  claimed : ∃ job, before.job id = some job ∧ job.state = .active token
  left : ∀ other job token, after.job other = some job →
    job.state = .active token → other ≠ id ∧
      ∃ old, before.job other = some old ∧ old.state = .active token

theorem LeavesClaim.of_rewrites
    {middle : Store}
    {token : Token}
    {ended : Job}
    (rewrites : Rewrites before middle id job ended)
    (active : job.state = .active token)
    (notActive : ended.state.isActive = false)
    (changes : Changes middle after) :
    LeavesClaim before after id token where
  claimed := ⟨job, rewrites.found, active⟩
  left := by
    intro other later laterToken laterFound laterActive
    obtain ⟨row, rowFound, rowActive⟩ :=
      changes.active_before laterFound laterActive
    by_cases isId : other = id
    · subst isId
      rw [rewrites.row] at rowFound
      cases rowFound
      rw [rowActive] at notActive
      cases notActive
    · exact ⟨isId, row, (rewrites.others other isId).symm.trans rowFound,
        rowActive⟩

theorem LeavesClaim.spent
    {token : Token}
    (leaves : LeavesClaim before after id token)
    (audited : TokensAudited before)
    (changes : Changes before after) :
    TokenSpent after token := by
  obtain ⟨job, found, active⟩ := leaves.claimed
  refine { used := ?_, idle := ?_ }
  · obtain ⟨attempt, recorded⟩ := audited id job token found active
    exact ⟨_, (changes.tokenOf_eq _).trans recorded⟩
  · intro other later laterFound laterActive
    obtain ⟨notId, old, oldFound, oldActive⟩ :=
      leaves.left other later token laterFound laterActive
    exact notId (audited.unique oldFound oldActive found active)

/-- What an accepted completion found and did. -/
structure CompletedClaim
    (before after : Store)
    (clock : Clock)
    (claim : QueueClaim) : Prop where
  published : ∃ job, before.job claim.id = some job ∧
    job.mayPublish claim.token (clock.reading 0) = true ∧
      job.mayPublish claim.token (clock.reading 1) = true
  leaves : LeavesClaim before after claim.id claim.token

variable {clock : Clock}

theorem complete_accepted
    {dataDigest : Data → String}
    {claim : QueueClaim}
    {followups : List (JobId × QueueIntent)}
    {latestId : JobId}
    {acceptances : List Acceptance}
    (completed :
      store.complete dataDigest clock claim followups latestId =
        .ok (after, some acceptances)) :
    CompletedClaim store after clock claim := by
  cases completeEffect completed with
  | accepted begins publishes ends follow schedule =>
      have follows := (changes_of_settleWhere _ _).trans
        (changes_of_enqueue follow)
      obtain ⟨_, nowFound, notActive⟩ :=
        Changes.notActive_after follows ends.row rfl
      have schedules := changes_of_scheduleLatest nowFound notActive schedule
      exact
        { published := ⟨_, ends.found, begins, publishes⟩
          leaves :=
            LeavesClaim.of_rewrites ends (Job.mayPublish_iff.mp begins).1 rfl
              (follows.trans schedules) }

theorem defer_accepted
    {claim : QueueClaim}
    {reason : JobDependencyReason}
    (deferred : store.defer clock claim reason = .ok (after, true)) :
    LeavesClaim store after claim.id claim.token := by
  cases deferEffect deferred with
  | accepted mayPublish defers =>
      exact LeavesClaim.of_rewrites defers
        (Job.mayPublish_iff.mp mayPublish).1 rfl (changes_of_settleWhere _ _)

theorem fail_accepted
    {claim : FailedClaim}
    {reason : String}
    {options : FailOptions}
    {freshId : JobId}
    {state : QueueState}
    (byToken : options.queuedCancellation = false)
    (failed :
      store.fail clock claim reason options freshId = .ok (after, some state)) :
    ∃ token, claim.token = some token ∧
      LeavesClaim store after claim.id token := by
  cases failEffect failed with
  | ended found owns _ record follow =>
      obtain ⟨token, sameToken, active⟩ :=
        FailedClaim.active_of_owns byToken owns
      have recordedJob := job_of_recordFailure record claim.id
      rw [found, Option.map_some, if_pos rfl] at recordedJob
      have follows :=
        changes_of_followFailure recordedJob FailureFacts.endState_ne_active
          follow
      unfold Store.recordFailure at record
      obtain ⟨_, update, done⟩ := bind_eq_ok.mp record
      cases done
      refine ⟨token, sameToken,
        LeavesClaim.of_rewrites (Rewrites.of_update found update) active
          FailureFacts.endState_ne_active ?_⟩
      exact ((changes_of_settleWhere _ _).trans
        (changes_of_settleOperation _ _ _ _)).trans follows

variable {step : Step}

theorem leavesClaim_of_settles
    {token : Token}
    (carries : step.token = some token)
    (settled : settles step (store.perform step).2 = true) :
    ∃ id, LeavesClaim store (store.perform step).1 id token := by
  rcases store.perform_cases step with transacted | ⟨_, error, answer⟩
  · generalize store.perform step = performed at *
    obtain ⟨after, response⟩ := performed
    cases step with
    | complete dataDigest clock claim followups latestId =>
        cases carries
        obtain ⟨⟨updated, result⟩, completed, done⟩ := bind_eq_ok.mp transacted
        cases done
        obtain ⟨acceptances, rfl⟩ := Option.isSome_iff_exists.mp settled
        exact ⟨claim.id, (complete_accepted completed).leaves⟩
    | defer clock claim reason =>
        cases carries
        obtain ⟨⟨updated, result⟩, deferred, done⟩ := bind_eq_ok.mp transacted
        cases done
        obtain rfl : result = true := settled
        exact ⟨claim.id, defer_accepted deferred⟩
    | fail clock claim reason options freshId =>
        obtain ⟨⟨updated, result⟩, failed, done⟩ := bind_eq_ok.mp transacted
        cases done
        obtain ⟨state, rfl⟩ := Option.isSome_iff_exists.mp settled
        simp only [Step.token] at carries
        split at carries
        · cases carries
        rename_i byToken
        obtain ⟨held, heldToken, leaves⟩ :=
          fail_accepted (by simpa using byToken) failed
        rw [carries] at heldToken
        cases heldToken
        exact ⟨claim.id, leaves⟩
    | _ =>
        cases settled
  · rw [answer] at settled
    cases step <;> cases settled

/-! ## Calls with a spent token -/

theorem Job.mayPublish_of_ne
    {token : Token}
    (notHeld : job.state ≠ .active token)
    (time : Time) :
    job.mayPublish token time = false := by
  have holds : job.holdsToken token = false := decide_eq_false notHeld
  simp [Job.mayPublish, holds]

theorem Store.job_of_idle_updateJobs
    {condition : JobId → Job → Bool}
    {change : JobId → Job → Job}
    (update : store.updateJobs condition change = .ok after)
    (idle : ∀ id job, store.job id = some job → condition id job = false)
    (id : JobId) :
    after.job id = store.job id := by
  rw [Store.job_of_updateJobs update]
  cases found : store.job id with
  | none =>
      rfl
  | some job =>
      simp [idle id job found]

/-- A call with a spent token ends no claim and changes no job. -/
theorem perform_of_spent
    {token : Token}
    (spent : TokenSpent store token)
    (carries : step.token = some token) :
    settles step (store.perform step).2 = false ∧
      ∀ id, (store.perform step).1.job id = store.job id := by
  rcases store.perform_cases step with transacted | ⟨same, error, answer⟩
  · generalize store.perform step = performed at *
    obtain ⟨after, response⟩ := performed
    cases step with
    | complete dataDigest clock claim followups latestId =>
        cases carries
        obtain ⟨⟨updated, result⟩, completed, done⟩ := bind_eq_ok.mp transacted
        cases done
        cases completeEffect completed with
        | refused =>
            exact ⟨rfl, fun _ => rfl⟩
        | accepted begins _ ends _ _ =>
            exact absurd (Job.mayPublish_iff.mp begins).1
              (spent.idle _ _ ends.found)
    | defer clock claim reason =>
        cases carries
        obtain ⟨⟨updated, result⟩, deferred, done⟩ := bind_eq_ok.mp transacted
        cases done
        cases deferEffect deferred with
        | refused =>
            exact ⟨rfl, fun _ => rfl⟩
        | accepted mayPublish defers =>
            exact absurd (Job.mayPublish_iff.mp mayPublish).1
              (spent.idle _ _ defers.found)
    | fail clock claim reason options freshId =>
        simp only [Step.token] at carries
        split at carries
        · cases carries
        rename_i byToken
        obtain ⟨⟨updated, result⟩, failed, done⟩ := bind_eq_ok.mp transacted
        cases done
        have notOwned :
            ∀ job, store.job claim.id = some job →
              claim.owns options (clock.reading 0) job = true → False := by
          intro job found owns
          obtain ⟨held, heldToken, active⟩ :=
            FailedClaim.active_of_owns (by simpa using byToken) owns
          rw [carries] at heldToken
          cases heldToken
          exact spent.idle _ _ found active
        cases failEffect failed with
        | refused =>
            exact ⟨rfl, fun _ => rfl⟩
        | awaited _ owns awaits =>
            exact (notOwned _ awaits.found owns).elim
        | ended found owns _ _ _ =>
            exact (notOwned _ found owns).elim
    | progress clock id held units =>
        cases carries
        obtain ⟨updated, update, done⟩ := bind_eq_ok.mp transacted
        cases done
        refine ⟨rfl, Store.job_of_idle_updateJobs update
          fun other job found => ?_⟩
        have holds : job.holdsToken token = false :=
          decide_eq_false (spent.idle other job found)
        simp [holds]
    | annotate clock id held field value =>
        cases carries
        obtain ⟨updated, update, done⟩ := bind_eq_ok.mp transacted
        cases done
        refine ⟨rfl, Store.job_of_idle_updateJobs update
          fun other job found => ?_⟩
        simp [Job.mayPublish_of_ne (spent.idle other job found)]
    | joinRun clock id held runId itemKey =>
        cases carries
        obtain ⟨updated, joined, done⟩ := bind_eq_ok.mp transacted
        cases done
        obtain ⟨_, _, update⟩ := bind_eq_ok.mp joined
        refine ⟨rfl, Store.job_of_idle_updateJobs update
          fun other job found => ?_⟩
        simp [Job.mayPublish_of_ne (spent.idle other job found)]
    | _ =>
        cases carries
  · refine ⟨?_, fun id => by rw [same]⟩
    rw [answer]
    cases step <;> rfl

/-- Everything about a job but its lease. -/
def Job.withoutLease (job : Job) : Job :=
  { job with leaseExpiresAt := none }

theorem perform_heartbeat
    (clock : Clock)
    (workerId : WorkerId)
    (claims : List (JobId × Token))
    (locked : JobId → Bool)
    (id : JobId) :
    ((store.perform (.heartbeat clock workerId claims locked)).1.job id).map
        Job.withoutLease =
      (store.job id).map Job.withoutLease := by
  rcases store.perform_cases (.heartbeat clock workerId claims locked) with
    transacted | ⟨same, _⟩
  · obtain ⟨updated, update, done⟩ := bind_eq_ok.mp transacted
    rw [pure_eq_ok] at done
    rw [← done]
    unfold Store.heartbeat at update
    have row := Store.job_of_updateJobs update id
    rw [row, Option.map_map]
    refine Option.map_congr fun job _ => ?_
    simp only [Function.comp_apply]
    split <;> rfl
  · rw [same]

/-! ## The laws of tokens along runs -/

/-- A call that carries a token and ended its claim. -/
def spends
    (token : Token)
    (happened : Entry Store Step Response) : Bool :=
  decide (happened.step.token = some token) &&
    settles happened.step happened.response

theorem tokenSpent_of_spends
    {token : Token}
    (audited : TokensAudited store)
    (spent : spends token (entry Store.perform store step) = true) :
    TokenSpent (store.perform step).1 token := by
  obtain ⟨carried, settled⟩ := Bool.and_eq_true_iff.mp spent
  have carries : step.token = some token := of_decide_eq_true carried
  obtain ⟨id, leaves⟩ := leavesClaim_of_settles carries settled
  rcases store.perform_effect step with changes | ⟨_, _, _, _, answer⟩
  · exact leaves.spent audited changes
  · simp only [entry, answer] at settled
    cases step <;> cases settled

theorem filter_spends_of_spent
    {token : Token}
    (spent : TokenSpent store token) :
    (trace Store.perform store steps).filter (spends token) = [] := by
  refine List.filter_eq_nil_iff.mpr fun happened member => ?_
  obtain ⟨earlier, step, _, _, rfl⟩ := exists_split_of_mem_trace member
  have spentThen :
      TokenSpent (finalState Store.perform store earlier) token :=
    tokenSpent_finalState spent
  intro spentAgain
  obtain ⟨carried, settled⟩ := Bool.and_eq_true_iff.mp spentAgain
  have carries : step.token = some token := of_decide_eq_true carried
  have refused := (perform_of_spent spentThen carries).1
  simp only [entry, refused] at settled
  cases settled

theorem length_filter_spends
    (token : Token)
    (audited : TokensAudited store) :
    ((trace Store.perform store steps).filter (spends token)).length ≤ 1 := by
  induction steps generalizing store with
  | nil =>
      simp [trace]
  | cons step rest inductionHypothesis =>
      rw [trace]
      by_cases spent : spends token (entry Store.perform store step) = true
      · rw [List.filter_cons_of_pos spent,
          filter_spends_of_spent (tokenSpent_of_spends audited spent)]
        simp
      · rw [List.filter_cons_of_neg spent]
        exact inductionHypothesis (tokensAudited_perform store step audited)

/--
What holds of tokens in every run of the queue, for every interleaving of the
calls that carry them and all other transactions.
-/
structure TokenLaws (steps : List Step) : Prop where
  /-- One call at most ends the claim of a token. -/
  spentOnce : ∀ token, ((history steps).filter (spends token)).length ≤ 1
  /-- A completion had the claim, its lease, and no stop asked for. -/
  published :
    ∀ happened ∈ history steps,
      ∀ dataDigest clock claim followups latestId acceptances,
        happened.step =
            .complete dataDigest clock claim followups latestId →
          happened.response = .completed (some acceptances) →
            ∃ job, happened.before.job claim.id = some job ∧
              job.state = .active claim.token ∧
                job.leasedAfter (clock.reading 0) = true ∧
                  job.leasedAfter (clock.reading 1) = true ∧
                    job.cancelRequestedAt = none
  /-- After a claim has ended, calls with its token change no job at all. -/
  revoked :
    ∀ earlier ended between call later token,
      history steps = earlier ++ ended :: (between ++ call :: later) →
        spends token ended = true → call.step.token = some token →
          settles call.step call.response = false ∧
            ∀ id, call.after.job id = call.before.job id
  /-- Heartbeats, for whatever tokens, change nothing but leases. -/
  renewed :
    ∀ happened ∈ history steps, ∀ clock workerId claims locked,
      happened.step = .heartbeat clock workerId claims locked →
        ∀ id, (happened.after.job id).map Job.withoutLease =
          (happened.before.job id).map Job.withoutLease

/-- Every run of the queue keeps the laws of tokens. -/
theorem tokenLaws
    (steps : List Step) :
    TokenLaws steps where
  spentOnce := fun token => length_filter_spends token tokensAudited_empty
  published := by
    intro happened member dataDigest clock claim followups latestId
      acceptances isComplete answered
    obtain ⟨earlier, step, _, _, rfl⟩ := exists_split_of_mem_trace member
    obtain rfl : step = _ := isComplete
    rcases Store.perform_cases
        (finalState Store.perform Store.empty earlier)
        (.complete dataDigest clock claim followups latestId) with
      transacted | ⟨_, _, answer⟩
    · obtain ⟨⟨updated, result⟩, completed, done⟩ := bind_eq_ok.mp transacted
      rw [pure_eq_ok] at done
      simp only [entry, ← done, Response.completed.injEq] at answered
      subst answered
      obtain ⟨job, found, firstMay, secondMay⟩ :=
        (complete_accepted completed).published
      simp only [Job.mayPublish, Job.holdsToken, Bool.and_eq_true,
        decide_eq_true_eq, Option.isNone_iff_eq_none] at firstMay secondMay
      exact ⟨job, found, firstMay.1.1, firstMay.1.2, secondMay.1.2,
        firstMay.2⟩
    · simp only [entry, answer] at answered
      cases answered
  revoked := by
    intro earlier ended between call later token split spent carries
    obtain ⟨first, second, _, _, secondTrace⟩ := exists_split_of_trace_eq split
    obtain ⟨rest, endedEq, restTrace⟩ := entry_of_trace_eq_cons secondTrace
    have audited :
        TokensAudited (finalState Store.perform Store.empty first) :=
      invariant_of_kept tokensAudited_perform tokensAudited_empty
    have spentAfter : TokenSpent ended.after token := by
      rw [endedEq] at spent ⊢
      exact tokenSpent_of_spends audited spent
    have callMember : call ∈ trace Store.perform ended.after rest := by
      rw [← restTrace]
      exact List.mem_append_right _ List.mem_cons_self
    obtain ⟨middle, step, _, _, rfl⟩ := exists_split_of_mem_trace callMember
    have spentThen :
        TokenSpent (finalState Store.perform ended.after middle) token :=
      tokenSpent_finalState spentAfter
    exact perform_of_spent spentThen carries
  renewed := by
    intro happened member clock workerId claims locked isHeartbeat id
    obtain ⟨earlier, step, _, _, rfl⟩ := exists_split_of_mem_trace member
    obtain rfl : step = _ := isHeartbeat
    exact perform_heartbeat clock workerId claims locked id

end Frameleaf.Queue
