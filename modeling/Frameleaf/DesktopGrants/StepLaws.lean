import Frameleaf.DesktopGrants.Authority

namespace Frameleaf.DesktopGrants

open Utf8

/-!
# What a call can do

A call is refused and leaves every record, or it was let through and then all
of its guards held.  There is one case for each way in which a call can be let
through; the laws of whole runs only look at these.
-/

variable {Hash Result : Type} {ideal : Ideal Hash}

/-- The approval that a call of an administrator makes. -/
def Details.approval
    (details : Details)
    (identity : Identity)
    (randomUUID token : String)
    (now : ℕ) : Approval :=
  { details with
    pairingId := randomUUID
    managerId := identity.id
    origin := identity.origin
    secret := token
    approvedAt := now
    expiresAt := now + RECENT }

/-- An approval as it is stored. -/
def Approval.pending
    (ideal : Ideal Hash)
    (approval : Approval)
    (epoch : Hash) : Pending Hash :=
  { approval.toDetails with
    pairingId := approval.pairingId
    managerId := approval.managerId
    origin := approval.origin
    approvedAt := approval.approvedAt
    expiresAt := approval.expiresAt
    secretHash := ideal.sha256 approval.secret.toList
    epoch }

/-- The grant that a redeemed pairing turns into. -/
def Pending.grant
    (ideal : Ideal Hash)
    (pending : Pending Hash)
    (randomUUID token : String)
    (now : ℕ) : Grant Hash :=
  { pending.toDetails with
    id := randomUUID
    tokenHash := ideal.sha256 token.toList
    epoch := pending.epoch
    expiresAt := now + LIFETIME
    recentUntil := pending.approvedAt + RECENT }

/-- What a device is told about a new grant. -/
def Grant.receipt
    (grant : Grant Hash)
    (identity : Identity)
    (token : String) : Receipt :=
  { publicGrant grant with
    token
    managerId := identity.id
    origin := identity.origin }

/-- A redemption is one of a stored pairing. -/
structure RedemptionHolds
    (ideal : Ideal Hash)
    (redemption : Redemption)
    (pending : Pending Hash)
    (records : Records Hash)
    (now : ℕ) : Prop where
  /-- The pairing is stored. -/
  stored : pending ∈ records.pairings
  /-- The redemption names it. -/
  named : pending.pairingId = redemption.pairingId
  /-- It was approved under the administrator that is stored. -/
  issuedNow : pending.epoch = epoch ideal records
  /-- It has not expired. -/
  notExpired : now < pending.expiresAt
  /-- It was approved before now. -/
  notEarly : pending.approvedAt ≤ now
  /-- The redemption carries its secret. -/
  secret : pending.secretHash = ideal.sha256 redemption.secret.toList
  /-- The key of the device verifies the signature of exactly this pairing. -/
  signed : ideal.signed pending.publicKey redemption.signature
    (pairingMessage (pending.approval redemption.secret)) = true

/-- A stored grant holds at two readings of the clock. -/
structure GrantHolds
    (ideal : Ideal Hash)
    (grant : Grant Hash)
    (records : Records Hash)
    (clock : Clock) : Prop where
  stored : grant ∈ records.grants
  issuedNow : grant.epoch = epoch ideal records
  notExpired : clock.first < grant.expiresAt

/-- A proof is one for a request under a grant. -/
structure ProofProves
    (ideal : Ideal Hash)
    (proof : Proof)
    (target : Target)
    (grant : Grant Hash)
    (identity : Identity)
    (now : ℕ) : Prop where
  /-- It names this Manager. -/
  manager : proof.managerId = identity.id
  /-- It names the device of the grant. -/
  device : proof.deviceId = grant.deviceId
  /-- Its time is near. -/
  near : ((proof.timestamp : ℤ) - now).natAbs ≤ WINDOW
  /-- It carries the token of the grant. -/
  token : grant.tokenHash = ideal.sha256 proof.token.toList
  /-- The request is for the installation of the grant. -/
  installation : target.installationId = grant.installationId
  /-- The scope was granted. -/
  scope : target.scope ∈ grant.scopes
  /-- The key of the grant verifies the signature of exactly this request. -/
  signed : ideal.signed grant.publicKey proof.signature
    (requestMessage identity proof target) = true
  /-- Scopes that do not last need a recent approval. -/
  recent : target.scope.isLasting = false →
    now < grant.recentUntil ∧ grant.recentUntil - RECENT ≤ now

/-- The records when a nonce is used, after those that are past are gone. -/
def Records.useNonce
    (records : Records Hash)
    (grantId nonce : String)
    (now : ℕ) : Records Hash :=
  { records with
    nonces := (records.nonces.filter fun used => now ≤ used.expires) ++
      [⟨grantId, nonce, now + 2 * WINDOW⟩] }

/-- The records of an origin that changed. -/
def Records.rotated
    (records : Records Hash)
    (identity : Identity)
    (origin : String)
    (now : ℕ) : Records Hash :=
  { records with
    grants := []
    pairings := []
    nonces := []
    identity := some { identity with origin }
    rotation := some ⟨identity.origin, origin, now, records.grants.length⟩ }

/-- The records when a grant was confirmed again. -/
def Records.renew
    (records : Records Hash)
    (grant : Grant Hash)
    (id : String)
    (now : ℕ) : Records Hash :=
  { records with
    grants := records.grants.map fun row =>
      if row.id = id then { grant with recentUntil := now + RECENT } else row }

/-- The records without a grant and its nonces. -/
def Records.without
    (records : Records Hash)
    (id : String) : Records Hash :=
  { records with
    grants := records.grants.filter (·.id ≠ id)
    nonces := records.nonces.filter (·.grantId ≠ id) }

/-- Everything that a call can do. -/
inductive Happens
    (ideal : Ideal Hash)
    (world : World Hash)
    (clock : Clock) : Call → Answer → Records Hash → Prop where
  | refused {call : Call} {refusal : Refusal} :
      Happens ideal world clock call (.refused refusal) world.records
  | restarted {configured : Option String}
      (sameOrigin : world.identity.origin =
        configured.getD UNCONFIGURED_ORIGIN) :
      Happens ideal world clock (.restart configured)
        (.started world.identity) world.records
  | rotated {configured : Option String}
      (otherOrigin : world.identity.origin ≠
        configured.getD UNCONFIGURED_ORIGIN) :
      Happens ideal world clock (.restart configured)
        (.started { world.identity with
          origin := configured.getD UNCONFIGURED_ORIGIN })
        (world.records.rotated world.identity
          (configured.getD UNCONFIGURED_ORIGIN) clock.now)
  | approved {admin : Administrator} {details : Details} {approval : Approval}
      (sameEpoch : epoch ideal world.records = digest ideal (some admin))
      (made : approval = details.approval world.identity
        (ideal.random world.drawn) (ideal.random (world.drawn + 1))
        clock.now) :
      Happens ideal world clock (.approve (some admin) (some details))
        (.approved approval)
        { world.records with
          pairings := world.records.pairings ++
            [approval.pending ideal (epoch ideal world.records)] }
  | redeemed {redemption : Redemption} {pending : Pending Hash}
      {grant : Grant Hash}
      (holds : RedemptionHolds ideal redemption pending world.records
        clock.now)
      (made : grant = pending.grant ideal (ideal.random world.drawn)
        (ideal.random (world.drawn + 1)) clock.now) :
      Happens ideal world clock (.redeem (some redemption))
        (.redeemed (grant.receipt world.identity
          (ideal.random (world.drawn + 1))))
        { world.records with
          grants := world.records.grants ++ [grant]
          pairings := world.records.pairings.filter
            (·.pairingId ≠ redemption.pairingId) }
  | authorized {proof : Proof} {target : Target} {grant : Grant Hash}
      (holds : GrantHolds ideal grant world.records clock)
      (named : grant.id = proof.grantId)
      (proves : ProofProves ideal proof target grant world.identity clock.now)
      (unused : ∀ used ∈ world.records.nonces, clock.now ≤ used.expires →
        used.grantId = proof.grantId → used.nonce ≠ proof.nonce) :
      Happens ideal world clock (.authorize (some proof) (some target))
        (.authorized (publicGrant grant))
        (world.records.useNonce proof.grantId proof.nonce clock.now)
  | reauthenticated {admin : Administrator} {id : String} {grant : Grant Hash}
      (sameEpoch : epoch ideal world.records = digest ideal (some admin))
      (holds : GrantHolds ideal grant world.records clock)
      (named : grant.id = id) :
      Happens ideal world clock (.reauthenticate (some admin) id) .done
        (world.records.renew grant id clock.now)
  | revoked {admin : Administrator} {id : String}
      (sameEpoch : epoch ideal world.records = digest ideal (some admin)) :
      Happens ideal world clock (.revoke (some admin) id) .done
        (world.records.without id)
  | claimed {administrator : Administrator}
      (unclaimed : world.records.administrator = none) :
      Happens ideal world clock (.claim administrator) .done
        { world.records with administrator := some administrator }
  | updated {previous updated : Administrator} {name : String}
      {newPassword : Option (String × String)}
      (current : world.records.administrator = some previous) :
      Happens ideal world clock
        (.updateAdministrator (some previous) name newPassword) .done
        { world.records with administrator := some updated }
  | signed {publicKey : String} {message : Text} :
      Happens ideal world clock (.sign publicKey message) .done world.records

theorem transaction_cases
    (work : Work Hash Result)
    (records : Records Hash) :
    (∃ result changed, work records = (.ok result, changed) ∧
      transaction work records = (.ok result, changed)) ∨
    (∃ refusal, transaction work records = (.error refusal, records)) := by
  unfold transaction
  split
  · next result changed done =>
      exact .inl ⟨result, changed, done, rfl⟩
  · next refusal _ _ =>
      exact .inr ⟨refusal, rfl⟩

theorem happens_transaction
    (world : World Hash)
    (clock : Clock)
    (call : Call)
    (answer : Result → Answer)
    {work : Work Hash Result}
    (through : ∀ result changed, work world.records = (.ok result, changed) →
      Happens ideal world clock call (answer result) changed) :
    Happens ideal world clock call
      (Answer.ofResult answer (transaction work world.records).1)
      (transaction work world.records).2 := by
  rcases transaction_cases work world.records with
    ⟨result, changed, done, same⟩ | ⟨refusal, same⟩
  · rw [same]
    exact through result changed done
  · rw [same]
    exact .refused

variable [DecidableEq Hash]

theorem holds_of_current
    {records : Records Hash}
    {id : String}
    {clock : Clock}
    {grant : Grant Hash}
    (found : current ideal records id clock.first clock.second = .ok grant) :
    GrantHolds ideal grant records clock ∧ grant.id = id := by
  unfold current at found
  split at found
  · cases found
  · next row rowFound =>
      split at found
      · cases found
      · next holds =>
          obtain rfl := Except.ok.inj found
          push Not at holds
          refine ⟨⟨List.mem_of_find?_eq_some rowFound, holds.1, holds.2.1⟩, ?_⟩
          simpa using List.find?_some rowFound

theorem happens_restart
    {world : World Hash}
    (known : world.records.identity = some world.identity)
    (clock : Clock)
    (configured : Option String) :
    Happens ideal world clock (.restart configured)
      (world.answer ideal clock (.restart configured)).1
      (world.answer ideal clock (.restart configured)).2 := by
  have sameRecords : { world.records with identity := some world.identity } =
      world.records := by
    rw [← known]
  by_cases sameOrigin :
      world.identity.origin = configured.getD UNCONFIGURED_ORIGIN
  · have answered : world.answer ideal clock (.restart configured) =
        (.started world.identity, world.records) := by
      simp [World.answer, construct, known, sameOrigin, sameRecords,
        Answer.ofResult]
    rw [answered]
    exact .restarted sameOrigin
  · have answered : world.answer ideal clock (.restart configured) =
        (.started { world.identity with
            origin := configured.getD UNCONFIGURED_ORIGIN },
          world.records.rotated world.identity
            (configured.getD UNCONFIGURED_ORIGIN) clock.now) := by
      simp [World.answer, construct, known, sameOrigin, Answer.ofResult,
        rotate, transaction, Records.rotated]
    rw [answered]
    exact .rotated sameOrigin

theorem happens_approve
    (world : World Hash)
    (clock : Clock)
    (confirmed : Confirmed)
    (input : Option Details) :
    Happens ideal world clock (.approve confirmed input)
      (world.answer ideal clock (.approve confirmed input)).1
      (world.answer ideal clock (.approve confirmed input)).2 := by
  cases input with
  | none =>
      exact .refused
  | some details =>
      cases confirmed with
      | none =>
          exact .refused
      | some admin =>
          dsimp only [World.answer, approve, Prod.map, id]
          refine happens_transaction world clock _ .approved ?_
          intro approval changed done
          split at done
          · cases done
          · next sameEpoch =>
              cases done
              exact .approved (not_not.mp sameEpoch) rfl

theorem happens_redeem
    (world : World Hash)
    (clock : Clock)
    (input : Option Redemption) :
    Happens ideal world clock (.redeem input)
      (world.answer ideal clock (.redeem input)).1
      (world.answer ideal clock (.redeem input)).2 := by
  cases input with
  | none =>
      exact .refused
  | some redemption =>
      dsimp only [World.answer, redeem, Prod.map, id]
      refine happens_transaction world clock _ .redeemed ?_
      intro receipt changed done
      split at done
      · cases done
      · next pending found =>
          have named : pending.pairingId = redemption.pairingId := by
            simpa using List.find?_some found
          split at done
          · cases done
          · next available =>
              split at done
              · cases done
              · next valid =>
                  push Not at available valid
                  cases done
                  rw [named]
                  exact .redeemed
                    { stored := List.mem_of_find?_eq_some found
                      named
                      issuedNow := available.1
                      notExpired := available.2.1
                      notEarly := available.2.2
                      secret := valid.1
                      signed := by simpa using valid.2 } rfl

/-- What a request with a proof does. -/
theorem happens_authorize
    (world : World Hash)
    (clock : Clock)
    (input : Option Proof)
    (expected : Option Target) :
    Happens ideal world clock (.authorize input expected)
      (world.answer ideal clock (.authorize input expected)).1
      (world.answer ideal clock (.authorize input expected)).2 := by
  cases input with
  | none =>
      exact .refused
  | some proof =>
      cases expected with
      | none =>
          exact .refused
      | some target =>
          dsimp only [World.answer, authorize, Prod.map, id]
          refine happens_transaction world clock _ .authorized ?_
          intro shown changed done
          split at done
          · cases done
          rename_i grant found
          obtain ⟨holds, named⟩ := holds_of_current found
          split at done
          · cases done
          rename_i proofValid
          split at done
          · cases done
          rename_i sameInstallation
          split at done
          · cases done
          rename_i scopeGranted
          split at done
          · cases done
          rename_i signedBy
          split at done
          · cases done
          rename_i isRecent
          split at done
          · cases done
          rename_i noneUsed
          cases done
          push Not at proofValid isRecent
          rw [List.any_eq_true] at noneUsed
          rw [named]
          refine .authorized holds named
            { manager := proofValid.1
              device := proofValid.2.1
              near := proofValid.2.2.1
              token := proofValid.2.2.2
              installation := not_not.mp sameInstallation
              scope := not_not.mp scopeGranted
              signed := by simpa using signedBy
              recent := isRecent } ?_
          intro used member alive sameGrant sameNonce
          refine noneUsed ⟨used, ?_, ?_⟩
          · exact List.mem_filter.mpr ⟨member, by simpa using alive⟩
          · simp [sameGrant, sameNonce, named]

theorem happens_reauthenticate
    (world : World Hash)
    (clock : Clock)
    (confirmed : Confirmed)
    (id : String) :
    Happens ideal world clock (.reauthenticate confirmed id)
      (world.answer ideal clock (.reauthenticate confirmed id)).1
      (world.answer ideal clock (.reauthenticate confirmed id)).2 := by
  cases confirmed with
  | none =>
      exact .refused
  | some admin =>
      dsimp only [World.answer, reauthenticate, Prod.map]
      refine happens_transaction world clock _ (fun _ => .done) ?_
      intro result changed done
      split at done
      · cases done
      rename_i sameEpoch
      split at done
      · cases done
      rename_i grant found
      obtain ⟨holds, named⟩ := holds_of_current found
      cases done
      exact .reauthenticated (not_not.mp sameEpoch) holds named

theorem happens_revoke
    (world : World Hash)
    (clock : Clock)
    (confirmed : Confirmed)
    (id : String) :
    Happens ideal world clock (.revoke confirmed id)
      (world.answer ideal clock (.revoke confirmed id)).1
      (world.answer ideal clock (.revoke confirmed id)).2 := by
  cases confirmed with
  | none =>
      exact .refused
  | some admin =>
      dsimp only [World.answer, revoke, Prod.map]
      refine happens_transaction world clock _ (fun _ => .done) ?_
      intro result changed done
      split at done
      · cases done
      rename_i sameEpoch
      cases done
      exact .revoked (not_not.mp sameEpoch)

theorem happens_claim
    (world : World Hash)
    (clock : Clock)
    (administrator : Administrator) :
    Happens ideal world clock (.claim administrator)
      (world.answer ideal clock (.claim administrator)).1
      (world.answer ideal clock (.claim administrator)).2 := by
  dsimp only [World.answer, claim, Prod.map]
  split
  · exact .refused
  · next unclaimed =>
      exact .claimed unclaimed

theorem happens_updateAdministrator
    (world : World Hash)
    (clock : Clock)
    (confirmed : Confirmed)
    (name : String)
    (newPassword : Option (String × String)) :
    Happens ideal world clock (.updateAdministrator confirmed name newPassword)
      (world.answer ideal clock
        (.updateAdministrator confirmed name newPassword)).1
      (world.answer ideal clock
        (.updateAdministrator confirmed name newPassword)).2 := by
  cases confirmed with
  | none =>
      exact .refused
  | some previous =>
      dsimp only [World.answer, updateAdministrator, Prod.map, id]
      refine happens_transaction world clock _ (fun _ => .done) ?_
      intro result changed done
      split at done
      · cases done
      rename_i current
      cases done
      exact .updated (not_not.mp current)

theorem happens
    {world : World Hash}
    (known : world.records.identity = some world.identity)
    (clock : Clock)
    (call : Call) :
    Happens ideal world clock call (world.answer ideal clock call).1
      (world.answer ideal clock call).2 := by
  cases call with
  | restart configured =>
      exact happens_restart known clock configured
  | approve confirmed input =>
      exact happens_approve world clock confirmed input
  | redeem input =>
      exact happens_redeem world clock input
  | authorize input expected =>
      exact happens_authorize world clock input expected
  | reauthenticate confirmed id =>
      exact happens_reauthenticate world clock confirmed id
  | revoke confirmed id =>
      exact happens_revoke world clock confirmed id
  | claim administrator =>
      exact happens_claim world clock administrator
  | updateAdministrator confirmed name newPassword =>
      exact happens_updateAdministrator world clock confirmed name newPassword
  | sign publicKey message =>
      exact .signed

end Frameleaf.DesktopGrants
