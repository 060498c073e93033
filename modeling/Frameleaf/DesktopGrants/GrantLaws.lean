import Frameleaf.DesktopGrants.Messages
import Frameleaf.DesktopGrants.History

namespace Frameleaf.DesktopGrants

open Utf8 Trace

/-!
# What Manager lets devices do

The laws hold in every run without forged signatures, whatever is presented,
altered or repeated in it.  A grant is used only with a message that its device
signed for exactly the request, no proof is let through twice, and a grant does
not outlive the administrator, the origin or the revocation that ended it.
-/

variable {Hash : Type} {ideal : Ideal Hash}

/-- A receipt, an approval and who was administrator when it was made. -/
structure RedemptionLaws
    (ideal : Ideal Hash)
    (past : List (Happening Hash))
    (redeems : Happening Hash)
    (redemption : Redemption) : Prop where
  approved : ∃ approves ∈ past, ∃ approval, Approves approves approval ∧
    approval.pairingId = redemption.pairingId ∧
    approval.approvedAt = approves.after.now ∧
    approval.approvedAt ≤ redeems.after.now ∧
    redeems.after.now < approval.expiresAt ∧
    approval.expiresAt = approval.approvedAt + RECENT ∧
    redemption.secret = approval.secret ∧
    (approval.publicKey, pairingMessage approval) ∈ redeems.before.signed ∧
    approves.before.records.administrator =
      redeems.before.records.administrator

/-- When an administrator last vouched for a grant. -/
def VouchedAt
    (past : List (Happening Hash))
    (approval : Approval)
    (id : String)
    (time : ℕ) : Prop :=
  time = approval.approvedAt ∨
    ∃ again ∈ past, ∃ confirmed, Reauthenticates again confirmed id ∧
      time = again.after.now

/-- What holds of a request that is let through. -/
structure Authorized
    (past : List (Happening Hash))
    (authorizes : Happening Hash)
    (proof : Proof)
    (target : Target)
    (approves redeems : Happening Hash)
    (approval : Approval)
    (redemption : Redemption)
    (receipt : Receipt) : Prop where
  /-- The pairing was approved, then redeemed, then used. -/
  order : List.Sublist [approves, redeems] past
  approved : Approves approves approval
  redeemed : Redeems redeems redemption receipt
  pairing : redemption.pairingId = approval.pairingId
  /-- The proof names the grant that the redemption gave. -/
  grant : proof.grantId = receipt.id
  /-- The grant is stored and has not expired. -/
  live : ∃ grant ∈ authorizes.before.records.grants,
    grant.id = proof.grantId ∧
      grant.toDetails = approval.toDetails ∧
      grant.expiresAt = redeems.after.now + LIFETIME ∧
      authorizes.before.now < grant.expiresAt
  manager : proof.managerId = authorizes.before.identity.id
  device : proof.deviceId = approval.deviceId
  installation : target.installationId = approval.installationId
  token : proof.token = receipt.token
  scope : target.scope ∈ approval.scopes
  /-- The device of the grant signed exactly this request to this Manager. -/
  signed : (approval.publicKey,
    requestMessage authorizes.before.identity proof target) ∈
      authorizes.before.signed
  /-- The administrator is the one who approved. -/
  administrator : approves.before.records.administrator =
    authorizes.before.records.administrator
  /-- Most scopes need an administrator within the last five minutes. -/
  recent : target.scope ≠ .status → target.scope ≠ .start →
    ∃ time, VouchedAt past approval proof.grantId time ∧
      time ≤ authorizes.after.now ∧ authorizes.after.now < time + RECENT

/-- What Manager lets devices do in a run. -/
structure GrantLaws
    [DecidableEq Hash]
    (ideal : Ideal Hash)
    (configured : Option String)
    (now : ℕ)
    (steps : List Step) : Prop where
  /-- A call that is refused changes no record. -/
  refused : ∀ happened ∈ happenings ideal configured now steps, ∀ refusal,
    happened.response = .refused refusal →
      happened.after.records = happened.before.records
  /-- Only the administrator that is stored approves. -/
  approval : ∀ happened ∈ happenings ideal configured now steps, ∀ approval,
    Approves happened approval → ∃ admin details,
      happened.step.call = .approve (some admin) (some details) ∧
        happened.before.records.administrator = some admin ∧
        approval.toDetails = details
  /-- What is redeemed was approved and has not expired. -/
  redemption : ∀ earlier redeems later redemption receipt,
    happenings ideal configured now steps = earlier ++ redeems :: later →
      NoneForged ideal configured now steps →
      Redeems redeems redemption receipt →
        RedemptionLaws ideal earlier redeems redemption
  /-- A pairing is redeemed at most once. -/
  redeemedOnce : ∀ earlier first later second redemption again receipt other,
    happenings ideal configured now steps = earlier ++ first :: later →
      second ∈ later → Redeems first redemption receipt →
      Redeems second again other → redemption.pairingId ≠ again.pairingId
  /-- What is let through was approved, redeemed and signed for. -/
  authorized : ∀ earlier authorizes later proof target shown,
    happenings ideal configured now steps = earlier ++ authorizes :: later →
      NoneForged ideal configured now steps →
      Authorizes authorizes proof target shown →
        ∃ approves redeems approval redemption receipt,
          Authorized earlier authorizes proof target approves redeems approval
            redemption receipt
  /-- No proof is let through twice, however else it is altered. -/
  notReplayed : ∀ earlier first later second proof again target other shown
      shownAgain,
    happenings ideal configured now steps = earlier ++ first :: later →
      second ∈ later → Authorizes first proof target shown →
      Authorizes second again other shownAgain →
        ¬ (proof.grantId = again.grantId ∧ proof.nonce = again.nonce ∧
          proof.timestamp = again.timestamp)
  /-- A grant that was revoked is not used any more. -/
  revoked : ∀ earlier revokes later confirmed redeems redemption receipt
      authorizes proof target shown,
    happenings ideal configured now steps = earlier ++ revokes :: later →
      redeems ∈ earlier → Redeems redeems redemption receipt →
      Revokes revokes confirmed receipt.id → authorizes ∈ later →
      Authorizes authorizes proof target shown → proof.grantId ≠ receipt.id
  /-- Another origin ends every grant. -/
  originGrants : ∀ earlier moves later redeems redemption receipt authorizes
      proof target shown,
    happenings ideal configured now steps = earlier ++ moves :: later →
      ChangesOrigin moves → redeems ∈ earlier →
      Redeems redeems redemption receipt → authorizes ∈ later →
      Authorizes authorizes proof target shown → proof.grantId ≠ receipt.id
  /-- Another origin ends every pairing. -/
  originPairings : ∀ earlier moves later approves approval redeems redemption
      receipt,
    happenings ideal configured now steps = earlier ++ moves :: later →
      ChangesOrigin moves → approves ∈ earlier → Approves approves approval →
      redeems ∈ later → Redeems redeems redemption receipt →
        redemption.pairingId ≠ approval.pairingId

variable [DecidableEq Hash]
variable {configured : Option String} {now : ℕ} {steps : List Step}
variable {earlier later : List (Happening Hash)}
variable {happened next approves authorizes : Happening Hash}

theorem happens_of_split
    (split : happenings ideal configured now steps =
      earlier ++ happened :: later) :
    Explained ideal earlier happened.before ∧
      Happens ideal happened.before (happened.before.clock happened.step)
        happened.step.call happened.response happened.after.records ∧
      happened.after.now = (happened.before.clock happened.step).now ∧
      happened.after.identity =
        happened.response.identity happened.before.identity := by
  obtain ⟨first, rest, rfl, firstEq, happenedEq, _⟩ :=
    around_of_trace_eq split
  have explained := explained_worldAfter ideal configured now first
  rw [happenings, firstEq] at explained
  rw [happenedEq]
  exact ⟨explained, happens_entry ideal explained.known _, rfl, rfl⟩

theorem unforged_of_split
    (split : happenings ideal configured now steps =
      earlier ++ happened :: later)
    (noneForged : NoneForged ideal configured now steps) :
    Unforged ideal happened.before happened.step := by
  obtain ⟨first, rest, rfl, _, happenedEq, _⟩ := around_of_trace_eq split
  have meets := (allMeet_append.mp noneForged).2.1
  rw [happenedEq]
  exact meets

theorem happens_of_later
    (split : happenings ideal configured now steps =
      earlier ++ happened :: later)
    (member : next ∈ later) :
    Happens ideal next.before (next.before.clock next.step) next.step.call
      next.response next.after.records ∧
      next.after.now = (next.before.clock next.step).now := by
  obtain ⟨between, rest, rfl⟩ := List.append_of_mem member
  rw [show earlier ++ happened :: (between ++ next :: rest) =
    (earlier ++ happened :: between) ++ next :: rest by simp] at split
  obtain ⟨_, happens, time, _⟩ := happens_of_split split
  exact ⟨happens, time⟩

variable {redemption : Redemption} {receipt : Receipt}

theorem redemptionLaws
    (split : happenings ideal configured now steps =
      earlier ++ happened :: later)
    (noneForged : NoneForged ideal configured now steps)
    (redeems : Redeems happened redemption receipt) :
    RedemptionLaws ideal earlier happened redemption := by
  obtain ⟨explained, happens, time, _⟩ := happens_of_split split
  have unforged := unforged_of_split split noneForged
  rw [redeems.call, redeems.answer] at happens
  rw [Unforged, redeems.call] at unforged
  obtain ⟨pending, holds, _, _⟩ := happens.redemption
  obtain ⟨approves, member, approval, approved, approvedAt, expiresAt, rfl⟩ :=
    explained.pairings pending holds.stored
  have sameSecret : redemption.secret = approval.secret :=
    String.toList_inj.mp (ideal.sha256_injective holds.secret.symm)
  have samePairing :
      (approval.pending ideal (epoch ideal approves.before.records)).approval
        redemption.secret = approval := by
    rw [sameSecret]
    rfl
  refine ⟨approves, member, approval, approved, holds.named, approvedAt,
    time ▸ holds.notEarly, time ▸ holds.notExpired, expiresAt, sameSecret, ?_,
    digest_injective holds.issuedNow⟩
  have signed := unforged _ _ holds.signed
  rwa [samePairing] at signed

theorem known_spent_after
    {id : String}
    (split : happenings ideal configured now steps =
      earlier ++ happened :: later)
    (spent : Spent ideal happened.before id) :
    Known happened.after ∧ Spent ideal happened.after id := by
  obtain ⟨first, _, _, _, happenedEq, _⟩ := around_of_trace_eq split
  constructor
  · rw [happenedEq]
    exact known_perform (known_worldAfter configured now first) _
  · have later := spent.perform happened.step
    rw [happenedEq] at later ⊢
    exact later

theorem pairingGone_of_redeems
    (split : happenings ideal configured now steps =
      earlier ++ happened :: later)
    (redeems : Redeems happened redemption receipt) :
    PairingGone ideal redemption.pairingId happened.after := by
  obtain ⟨explained, happens, _, _⟩ := happens_of_split split
  rw [redeems.call, redeems.answer] at happens
  obtain ⟨pending, holds, _, left⟩ := happens.redemption
  have spent := explained.pairingIds pending holds.stored
  rw [holds.named] at spent
  obtain ⟨known, spentAfter⟩ := known_spent_after split spent
  refine ⟨known, spentAfter, ?_⟩
  intro stillStored member
  rw [left] at member
  exact of_decide_eq_true (List.mem_filter.mp member).2

theorem not_redeems_of_gone
    {id : String}
    (split : happenings ideal configured now steps =
      earlier ++ happened :: later)
    (gone : PairingGone ideal id happened.after)
    (member : next ∈ later)
    (redeems : Redeems next redemption receipt) :
    id ≠ redemption.pairingId := by
  have goneBefore := invariant_of_later PairingGone.perform split gone member
  obtain ⟨happens, _⟩ := happens_of_later split member
  rw [redeems.call, redeems.answer] at happens
  obtain ⟨pending, holds, _, _⟩ := happens.redemption
  intro same
  exact goneBefore.absent pending holds.stored (holds.named.trans same.symm)

variable {shown : PublicGrant}

/-- What is let through was approved, redeemed and signed for. -/
theorem authorized_of_authorizes
    {proof : Proof}
    {target : Target}
    (split : happenings ideal configured now steps =
      earlier ++ happened :: later)
    (noneForged : NoneForged ideal configured now steps)
    (authorizes : Authorizes happened proof target shown) :
    ∃ approves redeems approval redemption receipt,
      Authorized earlier happened proof target approves redeems approval
        redemption receipt := by
  obtain ⟨explained, happens, time, _⟩ := happens_of_split split
  have unforged := unforged_of_split split noneForged
  rw [authorizes.call, authorizes.answer] at happens
  rw [Unforged, authorizes.call] at unforged
  obtain ⟨grant, holds, named, proves, _, _⟩ := happens.authorization
  obtain ⟨approves, redeems, approval, redemption, receipt, leads⟩ :=
    explained.grants grant holds.stored
  have details := leads.details
  refine ⟨approves, redeems, approval, redemption, receipt,
    { order := leads.order
      approved := leads.approved
      redeemed := leads.redeemed
      pairing := leads.pairing
      grant := named.symm.trans leads.id.symm
      live := ⟨grant, holds.stored, named, details, leads.expiresAt, ?_⟩
      manager := proves.manager
      device := proves.device.trans (congrArg Details.deviceId details)
      installation :=
        proves.installation.trans (congrArg Details.installationId details)
      token := ?_
      scope := congrArg Details.scopes details ▸ proves.scope
      signed := congrArg Details.publicKey details ▸
        unforged _ _ proves.signed
      administrator :=
        digest_injective (leads.epoch.symm.trans holds.issuedNow)
      recent := ?_ }⟩
  · have notExpired := holds.notExpired
    simp only [World.clock] at notExpired
    omega
  · exact String.toList_inj.mp
      (ideal.sha256_injective (proves.token.symm.trans leads.token))
  · intro notStatus notStart
    have notLasting : target.scope.isLasting = false := by
      simp [Scope.isLasting, notStatus, notStart]
    obtain ⟨notPast, notEarly⟩ := proves.recent notLasting
    rw [time]
    rcases leads.recent with atFirst | ⟨again, member, confirmed, reauth, until_⟩
    · exact ⟨approval.approvedAt, .inl rfl, by omega, by omega⟩
    · rw [named] at reauth
      exact ⟨again.after.now, .inr ⟨again, member, confirmed, reauth, rfl⟩,
        by omega, by omega⟩

theorem grantGone_of_absent
    {id : String}
    (split : happenings ideal configured now steps =
      earlier ++ happened :: later)
    (spent : Spent ideal happened.before id)
    (absent : ∀ grant ∈ happened.after.records.grants, grant.id ≠ id) :
    GrantGone ideal id happened.after := by
  obtain ⟨known, spentAfter⟩ := known_spent_after split spent
  exact ⟨known, spentAfter, absent⟩

theorem not_authorizes_of_gone
    {id : String}
    {proof : Proof}
    {target : Target}
    (split : happenings ideal configured now steps =
      earlier ++ happened :: later)
    (gone : GrantGone ideal id happened.after)
    (member : next ∈ later)
    (authorizes : Authorizes next proof target shown) :
    proof.grantId ≠ id := by
  have goneBefore := invariant_of_later GrantGone.perform split gone member
  obtain ⟨happens, _⟩ := happens_of_later split member
  rw [authorizes.call, authorizes.answer] at happens
  obtain ⟨grant, holds, named, _, _⟩ := happens.authorization
  intro same
  exact goneBefore.absent grant holds.stored (named.trans same)

theorem spent_of_earlier
    {past : Happening Hash}
    {id : String}
    (split : happenings ideal configured now steps =
      earlier ++ happened :: later)
    (member : past ∈ earlier)
    (drawn : ideal.random past.before.drawn = id) :
    Spent ideal happened.before id := by
  obtain ⟨before, between, rfl⟩ := List.append_of_mem member
  rw [List.append_assoc, List.cons_append] at split
  obtain ⟨first, rest, rfl, _, pastEq, _⟩ := around_of_trace_eq split
  have spentAfter : Spent ideal past.after id := by
    have next := spent_next ideal past.before past.step
    rw [drawn] at next
    rw [pastEq] at next ⊢
    exact next
  have kept : ∀ before step, Spent ideal before id →
      Spent ideal (perform ideal before step).1 id :=
    fun _ step spent => spent.perform step
  have isLater : happened ∈ between ++ happened :: later := by simp
  exact invariant_of_later kept split spentAfter isLater

variable {redeems : Happening Hash}

theorem receipt_id
    (split : happenings ideal configured now steps =
      earlier ++ happened :: later)
    (member : redeems ∈ earlier)
    (redeemed : Redeems redeems redemption receipt) :
    ideal.random redeems.before.drawn = receipt.id := by
  obtain ⟨before, between, rfl⟩ := List.append_of_mem member
  rw [List.append_assoc, List.cons_append] at split
  obtain ⟨_, happens, _, _⟩ := happens_of_split split
  rw [redeemed.call, redeemed.answer] at happens
  obtain ⟨pending, _, rfl, _⟩ := happens.redemption
  rfl

theorem approval_pairingId
    {approval : Approval}
    (split : happenings ideal configured now steps =
      earlier ++ happened :: later)
    (member : approves ∈ earlier)
    (approved : Approves approves approval) :
    ideal.random approves.before.drawn = approval.pairingId := by
  obtain ⟨before, between, rfl⟩ := List.append_of_mem member
  rw [List.append_assoc, List.cons_append] at split
  obtain ⟨_, happens, _, _⟩ := happens_of_split split
  rw [approved] at happens
  obtain ⟨admin, details, _, _, rfl⟩ := happens.approval
  rfl

theorem originGrants
    {proof : Proof}
    {target : Target}
    (split : happenings ideal configured now steps =
      earlier ++ happened :: later)
    (moves : ChangesOrigin happened)
    (member : redeems ∈ earlier)
    (redeemed : Redeems redeems redemption receipt)
    (laterMember : authorizes ∈ later)
    (authorized : Authorizes authorizes proof target shown) :
    proof.grantId ≠ receipt.id := by
  obtain ⟨_, happens, _, identity⟩ := happens_of_split split
  have spent := spent_of_earlier split member (receipt_id split member redeemed)
  rw [ChangesOrigin, identity] at moves
  have absent : ∀ grant ∈ happened.after.records.grants,
      grant.id ≠ receipt.id := by
    rw [(happens.of_changesOrigin moves).2]
    rintro grant ⟨⟩
  exact not_authorizes_of_gone split (grantGone_of_absent split spent absent)
    laterMember authorized

theorem originPairings
    {approval : Approval}
    (split : happenings ideal configured now steps =
      earlier ++ happened :: later)
    (moves : ChangesOrigin happened)
    (member : approves ∈ earlier)
    (approved : Approves approves approval)
    (laterMember : redeems ∈ later)
    (redeemed : Redeems redeems redemption receipt) :
    redemption.pairingId ≠ approval.pairingId := by
  obtain ⟨_, happens, _, identity⟩ := happens_of_split split
  have spent :=
    spent_of_earlier split member (approval_pairingId split member approved)
  rw [ChangesOrigin, identity] at moves
  obtain ⟨known, spentAfter⟩ := known_spent_after split spent
  have gone : PairingGone ideal approval.pairingId happened.after := by
    refine ⟨known, spentAfter, ?_⟩
    rw [(happens.of_changesOrigin moves).1]
    rintro pending ⟨⟩
  exact (not_redeems_of_gone split gone laterMember redeemed).symm

theorem revoked_unused
    {confirmed : Confirmed}
    {proof : Proof}
    {target : Target}
    (split : happenings ideal configured now steps =
      earlier ++ happened :: later)
    (member : redeems ∈ earlier)
    (redeemed : Redeems redeems redemption receipt)
    (revokes : Revokes happened confirmed receipt.id)
    (laterMember : authorizes ∈ later)
    (authorized : Authorizes authorizes proof target shown) :
    proof.grantId ≠ receipt.id := by
  obtain ⟨_, happens, _, _⟩ := happens_of_split split
  rw [revokes.call, revokes.answer] at happens
  have spent := spent_of_earlier split member (receipt_id split member redeemed)
  have absent : ∀ grant ∈ happened.after.records.grants,
      grant.id ≠ receipt.id := by
    rw [happens.of_revokes]
    intro grant stored
    exact of_decide_eq_true (List.mem_filter.mp stored).2
  exact not_authorizes_of_gone split (grantGone_of_absent split spent absent)
    laterMember authorized

/-- No proof is let through twice, however else it is altered. -/
theorem not_replayed
    {proof again : Proof}
    {target other : Target}
    {shownAgain : PublicGrant}
    (split : happenings ideal configured now steps =
      earlier ++ happened :: later)
    (laterMember : next ∈ later)
    (authorizes : Authorizes happened proof target shown)
    (repeats : Authorizes next again other shownAgain) :
    ¬ (proof.grantId = again.grantId ∧ proof.nonce = again.nonce ∧
      proof.timestamp = again.timestamp) := by
  rintro ⟨sameGrant, sameNonce, sameTime⟩
  obtain ⟨explained, happens, time, _⟩ := happens_of_split split
  rw [authorizes.call, authorizes.answer] at happens
  obtain ⟨grant, holds, named, proves, _, left⟩ := happens.authorization
  have spent := explained.grantIds grant holds.stored
  rw [named] at spent
  obtain ⟨known, spentAfter⟩ := known_spent_after split spent
  have blocked : Blocked ideal
      ⟨proof.grantId, proof.nonce, happened.after.now + 2 * WINDOW⟩
      happened.after := by
    refine ⟨known, spentAfter, .inr (.inl ?_)⟩
    rw [left, time]
    exact List.mem_append_right _ (List.mem_singleton_self _)
  have blockedBefore :=
    invariant_of_later Blocked.perform split blocked laterMember
  obtain ⟨happensNext, timeNext⟩ := happens_of_later split laterMember
  rw [repeats.call, repeats.answer] at happensNext
  obtain ⟨grantNext, holdsNext, namedNext, provesNext, unused, _⟩ :=
    happensNext.authorization
  -- Both times lie within one window of the same timestamp.
  have near := proves.near
  have nearNext := provesNext.near
  rw [← sameTime] at nearNext
  have within : (next.before.clock next.step).now ≤
      happened.after.now + 2 * WINDOW := by
    rw [time]
    omega
  rcases blockedBefore.blocked with gone | recorded | past
  · exact gone.absent grantNext holdsNext.stored
      (namedNext.trans sameGrant.symm)
  · exact unused _ recorded within sameGrant sameNonce
  · have := le_clock_now next.before next.step
    dsimp only at past
    omega

/-- What Manager lets devices do. -/
theorem grantLaws
    (ideal : Ideal Hash)
    (configured : Option String)
    (now : ℕ)
    (steps : List Step) :
    GrantLaws ideal configured now steps where
  refused := by
    intro happened member refusal refused
    obtain ⟨earlier, later, split⟩ := List.append_of_mem member
    obtain ⟨_, happens, _, _⟩ := happens_of_split split
    rw [refused] at happens
    exact happens.eq_of_refused
  approval := by
    intro happened member approval approved
    obtain ⟨earlier, later, split⟩ := List.append_of_mem member
    obtain ⟨_, happens, _, _⟩ := happens_of_split split
    rw [approved] at happens
    obtain ⟨admin, details, called, sameEpoch, rfl⟩ := happens.approval
    exact ⟨admin, details, called, digest_injective sameEpoch, rfl⟩
  redemption := fun _ _ _ _ _ split noneForged redeems =>
    redemptionLaws split noneForged redeems
  redeemedOnce := fun _ _ _ _ _ _ _ _ split member redeems again =>
    not_redeems_of_gone split (pairingGone_of_redeems split redeems) member
      again
  authorized := fun _ _ _ _ _ _ split noneForged authorizes =>
    authorized_of_authorizes split noneForged authorizes
  notReplayed := fun _ _ _ _ _ _ _ _ _ _ split member authorizes repeats =>
    not_replayed split member authorizes repeats
  revoked := fun _ _ _ _ _ _ _ _ _ _ _ split member redeemed revokes
      laterMember authorized =>
    revoked_unused split member redeemed revokes laterMember authorized
  originGrants := fun _ _ _ _ _ _ _ _ _ _ split moves member redeemed
      laterMember authorized =>
    originGrants split moves member redeemed laterMember authorized
  originPairings := fun _ _ _ _ _ _ _ _ split moves member approved laterMember
      redeemed =>
    originPairings split moves member approved laterMember redeemed

/-- Signatures by their names, the keys that made them and the messages. -/
abbrev Signatures : Type := List (String × String × Text)

/-- Cryptography in which a signature is a name in a list. -/
def namedIdeal
    (signatures : Signatures) : Ideal Text where
  sha256 := id
  sha256_injective := Function.injective_id
  random := Nat.repr
  random_injective := by
    intro first second same
    exact Json.ofNat_injective (congrArg Json.Json.number same)
  signed := fun key signature message =>
    signatures.contains (signature, key, message)

/-- Every signature of a name in the list was made already. -/
def IsMade
    (signatures : Signatures)
    (world : World Text)
    (signature : String) : Prop :=
  ∀ entry ∈ signatures, entry.1 = signature → entry.2 ∈ world.signed

/-- Whether a step presents signatures that were made can be decided. -/
def presentsMade
    (signatures : Signatures)
    (world : World Text)
    (step : Step) : Prop :=
  match step.call with
  | .redeem (some redemption) =>
      IsMade signatures world redemption.signature
  | .authorize (some proof) _ =>
      IsMade signatures world proof.signature
  | _ =>
      True

instance
    (signatures : Signatures)
    (world : World Text)
    (step : Step) : Decidable (presentsMade signatures world step) := by
  unfold presentsMade IsMade
  split <;> infer_instance

theorem unforged_of_presentsMade
    {signatures : Signatures}
    {world : World Text}
    {step : Step}
    (made : presentsMade signatures world step) :
    Unforged (namedIdeal signatures) world step := by
  unfold Unforged
  unfold presentsMade at made
  split
  · next redemption called =>
      rw [called] at made
      intro key message signed
      exact made _ (List.contains_iff_mem.mp signed) rfl
  · next proof target called =>
      rw [called] at made
      intro key message signed
      exact made _ (List.contains_iff_mem.mp signed) rfl
  · trivial

theorem noneForged_of_presentsMade
    {signatures : Signatures}
    {world : World Text}
    {steps : List Step}
    (made : AllMeet (perform (namedIdeal signatures))
      (presentsMade signatures) world steps) :
    AllMeet (perform (namedIdeal signatures))
      (Unforged (namedIdeal signatures)) world steps := by
  induction steps generalizing world with
  | nil =>
      trivial
  | cons step rest inductionHypothesis =>
      exact ⟨unforged_of_presentsMade made.1, inductionHypothesis made.2⟩

namespace Revocation

/-- A device that may stop and start. -/
def device : Details :=
  ⟨"device", "installation", "key", [.start, .stop], by decide, by decide⟩

/-- The administrator. -/
def owner : Administrator := ⟨"Owner", "salt", "hash"⟩

/-- The Manager of the run. -/
def identity : Identity := ⟨"0", UNCONFIGURED_ORIGIN⟩

/-- The first approval of the run. -/
def first : Approval := device.approval identity "3" "4" 0

/-- The second approval of the run. -/
def second : Approval := device.approval identity "9" "10" 0

/-- A request under the second grant. -/
def proof
    (nonce signature : String) : Proof :=
  ⟨"0", "13", "device", "14", 0, nonce, signature⟩

/-- What the request asks for. -/
def target : Target :=
  ⟨"installation", .stop, "POST", "/manager-api/desktop/stop", "body"⟩

/-- The messages of the run that are signed. -/
def signatures : Signatures :=
  [("pair-1", "key", pairingMessage first),
    ("pair-2", "key", pairingMessage second),
    ("stop-1", "key", requestMessage identity (proof "n1" "") target),
    ("stop-2", "key", requestMessage identity (proof "n2" "") target)]

/-- Two pairings are approved and redeemed. -/
def pairingSteps : List Step :=
  [⟨.claim owner, 0, 0, 0⟩,
    ⟨.approve (some owner) (some device), 0, 0, 0⟩,
    ⟨.sign "key" (pairingMessage first), 0, 0, 0⟩,
    ⟨.redeem (some ⟨"3", "4", "pair-1"⟩), 0, 0, 0⟩,
    ⟨.approve (some owner) (some device), 0, 0, 0⟩,
    ⟨.sign "key" (pairingMessage second), 0, 0, 0⟩,
    ⟨.redeem (some ⟨"9", "10", "pair-2"⟩), 0, 0, 0⟩]

/-- The first grant is revoked and the second one used. -/
def revokingSteps : List Step :=
  [⟨.revoke (some owner) "7", 0, 0, 0⟩,
    ⟨.sign "key" (requestMessage identity (proof "n1" "") target), 0, 0, 0⟩,
    ⟨.authorize (some (proof "n1" "stop-1")) (some target), 0, 0, 0⟩]

/-- The administrator takes another name and the old one again. -/
def renamingSteps : List Step :=
  [⟨.updateAdministrator (some owner) "Other" none, 0, 0, 0⟩,
    ⟨.updateAdministrator (some ⟨"Other", "salt", "hash"⟩) "Owner" none, 0, 0,
      0⟩,
    ⟨.sign "key" (requestMessage identity (proof "n2" "") target), 0, 0, 0⟩,
    ⟨.authorize (some (proof "n2" "stop-2")) (some target), 0, 0, 0⟩]

/-- The run: pairings, a revocation, a change of the name and back. -/
def allSteps : List Step :=
  pairingSteps ++ revokingSteps ++ renamingSteps

/-- What happens in the run. -/
def run : List (Happening Text) :=
  happenings (namedIdeal signatures) none 0 allSteps

theorem lt_length_run :
    13 < run.length := by
  decide +kernel

variable {place bound : ℕ}

theorem run_split
    (inRun : place < run.length) :
    run = run.take place ++ run[place] :: run.drop (place + 1) := by
  rw [List.getElem_cons_drop, List.take_append_drop]

theorem mem_run_take
    (inRun : place < run.length)
    (below : place < bound) :
    run[place] ∈ run.take bound :=
  List.mem_take_iff_getElem.mpr ⟨place, by omega, rfl⟩

theorem mem_run_drop
    (inRun : place < run.length)
    (above : bound ≤ place) :
    run[place] ∈ run.drop bound := by
  refine List.mem_drop_iff_getElem.mpr ⟨place - bound, by omega, ?_⟩
  simp only [Nat.add_sub_cancel' above]

/-- What the device is told about its second grant. -/
def secondReceipt : Receipt :=
  ((second.pending (namedIdeal signatures) []).grant (namedIdeal signatures)
    "13" "14" 0).receipt identity "14"

/-- The second grant in the answers to its requests. -/
def secondGrant : PublicGrant := secondReceipt.toPublicGrant

theorem redeems_second
    (inRun : 6 < run.length) :
    Redeems run[6] ⟨"9", "10", "pair-2"⟩ secondReceipt :=
  ⟨by decide +kernel +revert, by decide +kernel +revert⟩

end Revocation

open Revocation in
/-- After the first grant is revoked the second one is still used, and it is
used again after the administrator took another name and the old one back. -/
theorem revocation_spares_grants :
    NoneForged (namedIdeal signatures) none 0 allSteps ∧
      (∃ earlier revokes later,
        happenings (namedIdeal signatures) none 0 allSteps =
            earlier ++ revokes :: later ∧
          Revokes revokes (some owner) "7" ∧
          (∃ redeems ∈ earlier, ∃ redemption receipt,
            Redeems redeems redemption receipt ∧ receipt.id = "13") ∧
          ∃ authorizes ∈ later, ∃ proof target shown,
            Authorizes authorizes proof target shown ∧
              proof.grantId = "13") ∧
      ∃ earlier renames later,
        happenings (namedIdeal signatures) none 0 allSteps =
            earlier ++ renames :: later ∧
          renames.before.records.administrator ≠
            renames.after.records.administrator ∧
          (∃ redeems ∈ earlier, ∃ redemption receipt,
            Redeems redeems redemption receipt ∧ receipt.id = "13") ∧
          ∃ authorizes ∈ later, ∃ proof target shown,
            Authorizes authorizes proof target shown ∧
              proof.grantId = "13" := by
  have inRun := lt_length_run
  refine ⟨noneForged_of_presentsMade (by decide +kernel),
    ⟨run.take 7, run[7], run.drop 8, run_split (by omega), ?_, ?_, ?_⟩,
    ⟨run.take 10, run[10], run.drop 11, run_split (by omega), ?_, ?_, ?_⟩⟩
  · exact ⟨by decide +kernel +revert, by decide +kernel +revert⟩
  · exact ⟨run[6], mem_run_take _ (by decide), _, _,
      redeems_second (by omega), by decide +kernel⟩
  · exact ⟨run[9], mem_run_drop _ (by decide), proof "n1" "stop-1", target,
      secondGrant, ⟨by decide +kernel +revert, by decide +kernel +revert⟩, rfl⟩
  · decide +kernel +revert
  · exact ⟨run[6], mem_run_take _ (by decide), _, _,
      redeems_second (by omega), by decide +kernel⟩
  · exact ⟨run[13], mem_run_drop _ (by decide), proof "n2" "stop-2", target,
      secondGrant, ⟨by decide +kernel +revert, by decide +kernel +revert⟩, rfl⟩

end Frameleaf.DesktopGrants
