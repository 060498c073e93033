import Frameleaf.Lib.JsonRoundTrip
import Frameleaf.Lib.Trace

namespace Frameleaf.DesktopGrants

open Json Utf8

/-!
# The authority of desktop devices

An administrator approves a pairing, the device redeems it for a grant, and
each later request carries a proof that the device signed.  The records are the
rows of Manager's database; every call changes them in one transaction.  What
the schemas of the source refuse is an input that is not there.
-/

/-- What a device can be allowed to ask for. -/
inductive Scope where
  | status
  | start
  | stop
  | restart
  | backup
  | update
  | restore
  | moveLibrary
  deriving DecidableEq

/-- A scope as it is written. -/
def Scope.name : Scope → String
  | .status => "status"
  | .start => "start"
  | .stop => "stop"
  | .restart => "restart"
  | .backup => "backup"
  | .update => "update"
  | .restore => "restore"
  | .moveLibrary => "move-library"

/-- A device and what it may ask for. -/
structure Details where
  deviceId : String
  installationId : String
  publicKey : String
  scopes : List Scope
  nonempty : scopes ≠ []
  nodup : scopes.Nodup
  deriving DecidableEq

/-- The origin of a Manager that none was configured for. -/
def UNCONFIGURED_ORIGIN : String := "https://localhost:9443"

/-- Which Manager this is and where it is reached. -/
structure Identity where
  id : String
  origin : String
  deriving DecidableEq

/-- A pairing as the administrator hands it to the device. -/
structure Approval extends Details where
  pairingId : String
  managerId : String
  origin : String
  secret : String
  approvedAt : ℕ
  expiresAt : ℕ
  deriving DecidableEq

/-- A pairing as it is stored: its secret only as a hash. -/
structure Pending (Hash : Type) extends Details where
  pairingId : String
  managerId : String
  origin : String
  approvedAt : ℕ
  expiresAt : ℕ
  secretHash : Hash
  epoch : Hash
  deriving DecidableEq

/-- A grant as it is stored: its token only as a hash. -/
structure Grant (Hash : Type) extends Details where
  id : String
  tokenHash : Hash
  epoch : Hash
  expiresAt : ℕ
  recentUntil : ℕ
  deriving DecidableEq

/-- A nonce that was used with a grant and how long that is remembered. -/
structure Nonce where
  grantId : String
  nonce : String
  expires : ℕ
  deriving DecidableEq

/-- The administrator as stored. -/
structure Administrator where
  name : String
  salt : String
  hash : String
  deriving DecidableEq

/-- The last change of the origin. -/
structure Rotation where
  fromOrigin : String
  toOrigin : String
  rotatedAt : ℕ
  revokedGrants : ℕ
  deriving DecidableEq

/-- What the device sends to redeem a pairing. -/
structure Redemption where
  pairingId : String
  secret : String
  signature : String
  deriving DecidableEq

/-- What the device sends with a request. -/
structure Proof where
  managerId : String
  grantId : String
  deviceId : String
  token : String
  timestamp : ℕ
  nonce : String
  signature : String
  deriving DecidableEq

/-- The request that a proof is for. -/
structure Target where
  installationId : String
  scope : Scope
  method : String
  path : String
  bodySha256 : String
  deriving DecidableEq

/-- Why a call was refused. -/
structure Refusal where
  code : String
  status : ℕ
  deriving DecidableEq

/-- How far the clock of a device may be off. -/
def WINDOW : ℕ := 60000

/-- How long an approval counts as recent. -/
def RECENT : ℕ := 300000

/-- How long a grant lives. -/
def LIFETIME : ℕ := 30 * 86400000

/-- The rows of the database that grants depend on. -/
structure Records (Hash : Type) where
  identity : Option Identity
  rotation : Option Rotation
  administrator : Option Administrator
  pairings : List (Pending Hash)
  grants : List (Grant Hash)
  nonces : List Nonce
  deriving DecidableEq

/-- Ideal cryptography: a hash that tells texts apart, random values that never
repeat, and a way to verify signatures. -/
structure Ideal (Hash : Type) where
  /-- The hash of a text. -/
  sha256 : Text → Hash
  /-- Different texts have different hashes. -/
  sha256_injective : Function.Injective sha256
  /-- The random value of each draw. -/
  random : ℕ → String
  /-- Different draws give different values. -/
  random_injective : Function.Injective random
  /-- Whether a signature with a key is one of a message. -/
  signed : (key signature : String) → Text → Bool

variable {Hash : Type} [DecidableEq Hash] (ideal : Ideal Hash)

/-- The text that a device signs to redeem a pairing. -/
def pairingMessage
    (approval : Approval) : Text :=
  stringify (.array
    [.string "frameleaf-manager/pair/v1",
      .string approval.managerId,
      .string approval.origin,
      .string approval.pairingId,
      .string approval.deviceId,
      .string approval.installationId,
      .string approval.publicKey,
      .array (approval.scopes.map fun scope => .string scope.name),
      .string approval.secret,
      ofNat approval.approvedAt,
      ofNat approval.expiresAt])

/-- The text that a device signs for a request. -/
def requestMessage
    (identity : Identity)
    (proof : Proof)
    (target : Target) : Text :=
  stringify (.array
    [.string "frameleaf-manager/request/v1",
      .string identity.id,
      .string identity.origin,
      .string proof.grantId,
      .string proof.deviceId,
      .string target.installationId,
      .string target.scope.name,
      .string target.method,
      .string target.path,
      .string target.bodySha256,
      ofNat proof.timestamp,
      .string proof.nonce,
      .string proof.token])

/-- The administrator's setting as a value. -/
def administratorJson : Option Administrator → Json
  | none =>
      .null
  | some administrator =>
      .object
        [("name", .string administrator.name),
          ("salt", .string administrator.salt),
          ("hash", .string administrator.hash)]

/-- The digest of the administrator's setting. -/
def digest
    (administrator : Option Administrator) : Hash :=
  ideal.sha256 (stringify (administratorJson administrator))

/-- What is said about a grant outside Manager. -/
structure PublicGrant where
  id : String
  deviceId : String
  installationId : String
  scopes : List Scope
  expiresAt : ℕ
  recentUntil : ℕ
  deriving DecidableEq

/-- A grant without what only Manager may know. -/
def publicGrant
    (grant : Grant Hash) : PublicGrant where
  id := grant.id
  deviceId := grant.deviceId
  installationId := grant.installationId
  scopes := grant.scopes
  expiresAt := grant.expiresAt
  recentUntil := grant.recentUntil

/-- What a device is told when it redeemed a pairing. -/
structure Receipt extends PublicGrant where
  token : String
  managerId : String
  origin : String
  deriving DecidableEq

/-- Work on the records: an answer or a refusal, and the records it leaves. -/
abbrev Work (Hash Result : Type) : Type :=
  Records Hash → Except Refusal Result × Records Hash

/-- Work that leaves nothing behind when it is refused. -/
def transaction
    {Result : Type}
    (work : Work Hash Result) : Work Hash Result := fun records =>
  match work records with
  | (.ok result, changed) =>
      (.ok result, changed)
  | (.error refusal, _) =>
      (.error refusal, records)

/-- The epoch that grants are issued in. -/
def epoch
    (records : Records Hash) : Hash :=
  digest ideal records.administrator

/-- The origin changes: everything that was issued is revoked. -/
def rotate
    (identity : Identity)
    (origin : String)
    (now : ℕ) : Work Hash Unit :=
  transaction fun records =>
    (.ok (),
      { records with
        grants := []
        pairings := []
        nonces := []
        identity := some { identity with origin }
        rotation := some ⟨identity.origin, origin, now,
          records.grants.length⟩ })

/-- Manager starts with the records that there are. -/
def construct
    (randomUUID : String)
    (configured : Option String)
    (now : ℕ) : Work Hash Identity := fun records =>
  let origin := configured.getD UNCONFIGURED_ORIGIN
  let stored := records.identity.getD ⟨randomUUID, origin⟩
  let records := { records with identity := some stored }
  let records :=
    if stored.origin ≠ origin then (rotate stored origin now records).2
    else records
  match records.identity with
  | none =>
      (.error ⟨"desktop_manager_identity_changed", 409⟩, records)
  | some parsed =>
      if parsed.origin ≠ origin then
        (.error ⟨"desktop_manager_identity_changed", 409⟩, records)
      else
        (.ok parsed, records)

/-- What an administrator's password was checked against, if it was right. -/
abbrev Confirmed : Type := Option Administrator

/-- The refusal of a wrong password. -/
def invalidCredentials : Refusal := ⟨"invalid_credentials", 401⟩

/-- An administrator approves a pairing. -/
def approve
    (identity : Identity)
    (confirmed : Confirmed)
    (input : Option Details)
    (randomUUID token : String)
    (now : ℕ) : Work Hash Approval := fun records =>
  match input, confirmed with
  | none, _ =>
      (.error ⟨"desktop_pairing_invalid", 400⟩, records)
  | some _, none =>
      (.error invalidCredentials, records)
  | some details, some admin =>
      transaction (fun records =>
        if epoch ideal records ≠ digest ideal (some admin) then
          (.error invalidCredentials, records)
        else
          let approval : Approval :=
            { details with
              pairingId := randomUUID
              managerId := identity.id
              origin := identity.origin
              secret := token
              approvedAt := now
              expiresAt := now + RECENT }
          let pending : Pending Hash :=
            { details with
              pairingId := approval.pairingId
              managerId := approval.managerId
              origin := approval.origin
              approvedAt := approval.approvedAt
              expiresAt := approval.expiresAt
              secretHash := ideal.sha256 approval.secret.toList
              epoch := epoch ideal records }
          (.ok approval,
            { records with pairings := records.pairings ++ [pending] }))
        records

/-- The pairing that a stored one and the secret of its device make up. -/
def Pending.approval
    (pending : Pending Hash)
    (secret : String) : Approval :=
  { pending.toDetails with
    pairingId := pending.pairingId
    managerId := pending.managerId
    origin := pending.origin
    secret
    approvedAt := pending.approvedAt
    expiresAt := pending.expiresAt }

/-- A device redeems a pairing for a grant. -/
def redeem
    (identity : Identity)
    (input : Option Redemption)
    (token randomUUID : String)
    (now : ℕ) : Work Hash Receipt := fun records =>
  match input with
  | none =>
      (.error ⟨"desktop_pairing_invalid", 401⟩, records)
  | some redemption =>
      transaction (fun records =>
        match records.pairings.find? (·.pairingId = redemption.pairingId) with
        | none =>
            (.error ⟨"desktop_pairing_unavailable", 401⟩, records)
        | some pending =>
            if pending.epoch ≠ epoch ideal records ∨
                pending.expiresAt ≤ now ∨
                now < pending.approvedAt then
              (.error ⟨"desktop_pairing_unavailable", 401⟩, records)
            else if pending.secretHash ≠
                  ideal.sha256 redemption.secret.toList ∨
                ideal.signed pending.publicKey redemption.signature
                  (pairingMessage (pending.approval redemption.secret)) =
                    false then
              (.error ⟨"desktop_pairing_invalid", 401⟩, records)
            else
              let grant : Grant Hash :=
                { pending.toDetails with
                  id := randomUUID
                  tokenHash := ideal.sha256 token.toList
                  epoch := pending.epoch
                  expiresAt := now + LIFETIME
                  recentUntil := pending.approvedAt + RECENT }
              (.ok
                { publicGrant grant with
                  token
                  managerId := identity.id
                  origin := identity.origin },
                { records with
                  grants := records.grants ++ [grant]
                  pairings := records.pairings.filter
                    (·.pairingId ≠ pending.pairingId) }))
        records

/-- The refusal of a grant that does not hold. -/
def grantInvalid : Refusal := ⟨"desktop_grant_invalid", 401⟩

/-- The grant of an id, when it holds now.  The clock is read twice. -/
def current
    (records : Records Hash)
    (id : String)
    (first second : ℕ) : Except Refusal (Grant Hash) :=
  match records.grants.find? (·.id = id) with
  | none =>
      .error grantInvalid
  | some grant =>
      if grant.epoch ≠ epoch ideal records ∨
          grant.expiresAt ≤ first ∨
          second < grant.expiresAt - LIFETIME then
        .error grantInvalid
      else
        .ok grant

/-- The readings of the clock within one call. -/
structure Clock where
  first : ℕ
  second : ℕ
  now : ℕ
  deriving DecidableEq

/-- Whether a scope may be used long after the last approval. -/
def Scope.isLasting
    (scope : Scope) : Bool :=
  [Scope.status, Scope.start].contains scope

/-- A request with its proof is let through or refused. -/
def authorize
    (identity : Identity)
    (input : Option Proof)
    (expected : Option Target)
    (clock : Clock) : Work Hash PublicGrant := fun records =>
  match input, expected with
  | some proof, some target =>
      transaction (fun records =>
        match current ideal records proof.grantId clock.first clock.second with
        | .error refusal =>
            (.error refusal, records)
        | .ok grant =>
            let now := clock.now
            if proof.managerId ≠ identity.id ∨
                proof.deviceId ≠ grant.deviceId ∨
                WINDOW < ((proof.timestamp : ℤ) - now).natAbs ∨
                grant.tokenHash ≠ ideal.sha256 proof.token.toList then
              (.error grantInvalid, records)
            else if target.installationId ≠ grant.installationId then
              (.error ⟨"desktop_grant_installation_changed", 403⟩, records)
            else if target.scope ∉ grant.scopes then
              (.error ⟨"desktop_grant_scope_denied", 403⟩, records)
            else if ideal.signed grant.publicKey proof.signature
                (requestMessage identity proof target) = false then
              (.error grantInvalid, records)
            else if target.scope.isLasting = false ∧
                (grant.recentUntil ≤ now ∨
                  now < grant.recentUntil - RECENT) then
              (.error ⟨"desktop_recent_auth_required", 401⟩, records)
            else
              -- Nonces that are past are cleaned up in the same call.
              let kept := records.nonces.filter fun used => now ≤ used.expires
              if kept.any fun used =>
                  used.grantId = grant.id && used.nonce = proof.nonce then
                (.error ⟨"desktop_request_replayed", 409⟩,
                  { records with nonces := kept })
              else
                (.ok (publicGrant grant),
                  { records with
                    nonces := kept ++
                      [⟨grant.id, proof.nonce, now + 2 * WINDOW⟩] }))
        records
  | _, _ =>
      (.error grantInvalid, records)

/-- An administrator confirms a grant again. -/
def reauthenticate
    (confirmed : Confirmed)
    (id : String)
    (clock : Clock) : Work Hash Unit := fun records =>
  match confirmed with
  | none =>
      (.error invalidCredentials, records)
  | some admin =>
      transaction (fun records =>
        if epoch ideal records ≠ digest ideal (some admin) then
          (.error invalidCredentials, records)
        else
          match current ideal records id clock.first clock.second with
          | .error refusal =>
              (.error refusal, records)
          | .ok grant =>
              let renewed :=
                { grant with recentUntil := clock.now + RECENT }
              (.ok (),
                { records with
                  grants := records.grants.map fun row =>
                    if row.id = id then renewed else row }))
        records

/-- An administrator revokes a grant. -/
def revoke
    (confirmed : Confirmed)
    (id : String) : Work Hash Unit := fun records =>
  match confirmed with
  | none =>
      (.error invalidCredentials, records)
  | some admin =>
      transaction (fun records =>
        if epoch ideal records ≠ digest ideal (some admin) then
          (.error invalidCredentials, records)
        else
          (.ok (),
            { records with
              grants := records.grants.filter (·.id ≠ id)
              nonces := records.nonces.filter (·.grantId ≠ id) }))
        records

/-- Manager is claimed by its first administrator. -/
def claim
    (administrator : Administrator) : Work Hash Unit := fun records =>
  match records.administrator with
  | some _ =>
      (.error ⟨"already_claimed", 409⟩, records)
  | none =>
      (.ok (), { records with administrator := some administrator })

/-- An administrator changes the name, and perhaps the password, which then
has a salt and a hash of its own. -/
def updateAdministrator
    (confirmed : Confirmed)
    (name : String)
    (newPassword : Option (String × String)) : Work Hash Unit := fun records =>
  match confirmed with
  | none =>
      (.error invalidCredentials, records)
  | some previous =>
      let salt := (newPassword.map Prod.fst).getD previous.salt
      let hash := (newPassword.map Prod.snd).getD previous.hash
      transaction (fun records =>
        if records.administrator ≠ some previous then
          (.error invalidCredentials, records)
        else
          (.ok (),
            { records with administrator := some ⟨name, salt, hash⟩ }))
        records

open Utf8

/-!
## Manager, its administrators and the devices

Anybody may call Manager with anything, in any order, and Manager may start
again with the same or another origin.  The clock is read up to three times in
one call and never runs backwards.  What devices signed is remembered: it is
all that ideal signatures can be signatures of.
-/

variable {Hash : Type} [DecidableEq Hash] (ideal : Ideal Hash)

/-- Manager's records, what it runs with, and what happened around it. -/
structure World (Hash : Type) where
  records : Records Hash
  /-- The identity that the running Manager read when it started. -/
  identity : Identity
  now : ℕ
  /-- How many random values were drawn. -/
  drawn : ℕ
  /-- The messages that were signed, each with the key that signed it. -/
  signed : List (String × Text)
  deriving DecidableEq

/-- One call, or a device that signs a message. -/
inductive Call where
  | restart (configured : Option String)
  | approve (confirmed : Confirmed) (input : Option Details)
  | redeem (input : Option Redemption)
  | authorize (input : Option Proof) (expected : Option Target)
  | reauthenticate (confirmed : Confirmed) (id : String)
  | revoke (confirmed : Confirmed) (id : String)
  | claim (administrator : Administrator)
  | updateAdministrator (confirmed : Confirmed) (name : String)
      (newPassword : Option (String × String))
  | sign (publicKey : String) (message : Text)
  deriving DecidableEq

/-- A call and the time that passes before each reading of the clock. -/
structure Step where
  call : Call
  beforeFirst : ℕ
  beforeSecond : ℕ
  beforeNow : ℕ
  deriving DecidableEq

/-- What a call answers. -/
inductive Answer where
  | refused (refusal : Refusal)
  | started (identity : Identity)
  | approved (approval : Approval)
  | redeemed (receipt : Receipt)
  | authorized (grant : PublicGrant)
  | done
  deriving DecidableEq

/-- The readings of the clock in a step. -/
def World.clock
    (world : World Hash)
    (step : Step) : Clock where
  first := world.now + step.beforeFirst
  second := world.now + step.beforeFirst + step.beforeSecond
  now := world.now + step.beforeFirst + step.beforeSecond + step.beforeNow

/-- The answer that a result of some work gives. -/
def Answer.ofResult
    {Result : Type}
    (answer : Result → Answer) : Except Refusal Result → Answer
  | .ok result =>
      answer result
  | .error refusal =>
      .refused refusal

/-- The identity that Manager runs with after an answer. -/
def Answer.identity
    (running : Identity) : Answer → Identity
  | .started identity =>
      identity
  | _ =>
      running

/-- The answer to a call and the records that it leaves. -/
def World.answer
    (world : World Hash)
    (clock : Clock)
    (call : Call) : Answer × Records Hash :=
  let randomUUID := ideal.random world.drawn
  let token := ideal.random (world.drawn + 1)
  match call with
  | .restart configured =>
      (construct randomUUID configured clock.now world.records).map
        (Answer.ofResult .started) id
  | .approve confirmed input =>
      (approve ideal world.identity confirmed input randomUUID token clock.now
        world.records).map (Answer.ofResult .approved) id
  | .redeem input =>
      (redeem ideal world.identity input token randomUUID clock.now
        world.records).map (Answer.ofResult .redeemed) id
  | .authorize input expected =>
      (authorize ideal world.identity input expected clock
        world.records).map (Answer.ofResult .authorized) id
  | .reauthenticate confirmed id =>
      (reauthenticate ideal confirmed id clock world.records).map
        (Answer.ofResult fun _ => .done) fun records => records
  | .revoke confirmed id =>
      (revoke ideal confirmed id world.records).map
        (Answer.ofResult fun _ => .done) fun records => records
  | .claim administrator =>
      (claim administrator world.records).map
        (Answer.ofResult fun _ => .done) id
  | .updateAdministrator confirmed name newPassword =>
      (updateAdministrator confirmed name newPassword world.records).map
        (Answer.ofResult fun _ => .done) id
  | .sign _ _ =>
      (.done, world.records)

/-- The messages that are signed after a call. -/
def Call.signedAfter
    (signed : List (String × Text)) : Call → List (String × Text)
  | .sign publicKey message =>
      signed ++ [(publicKey, message)]
  | _ =>
      signed

/-- One step of the world. -/
def perform
    (world : World Hash)
    (step : Step) : World Hash × Answer :=
  let clock := world.clock step
  let result := world.answer ideal clock step.call
  ({ records := result.2
     identity := result.1.identity world.identity
     now := clock.now
     drawn := world.drawn + 2
     signed := step.call.signedAfter world.signed },
    result.1)

/-- The records of a new database. -/
def Records.empty : Records Hash where
  identity := none
  rotation := none
  administrator := none
  pairings := []
  grants := []
  nonces := []

/-- The identity of a Manager that starts for the first time. -/
def firstIdentity
    (configured : Option String) : Identity :=
  ⟨ideal.random 0, configured.getD UNCONFIGURED_ORIGIN⟩

/-- Manager has started for the first time. -/
def start
    (configured : Option String)
    (now : ℕ) : World Hash where
  records := (construct (ideal.random 0) configured now Records.empty).2
  identity := firstIdentity ideal configured
  now := now
  drawn := 1
  signed := []

/-- A signature that a call presents is one of signed messages only. -/
def Unforged
    (world : World Hash)
    (step : Step) : Prop :=
  match step.call with
  | .redeem (some redemption) =>
      ∀ key message,
        ideal.signed key redemption.signature message = true →
          (key, message) ∈ world.signed
  | .authorize (some proof) _ =>
      ∀ key message,
        ideal.signed key proof.signature message = true →
          (key, message) ∈ world.signed
  | _ =>
      True

/-- What happens in a run, in order. -/
abbrev happenings
    (configured : Option String)
    (now : ℕ)
    (steps : List Step) :
    List (Trace.Entry (World Hash) Step Answer) :=
  Trace.trace (perform ideal) (start ideal configured now) steps

/-- The world after a run. -/
abbrev worldAfter
    (configured : Option String)
    (now : ℕ)
    (steps : List Step) : World Hash :=
  Trace.finalState (perform ideal) (start ideal configured now) steps

/-- No signature was forged in a run. -/
abbrev NoneForged
    (configured : Option String)
    (now : ℕ)
    (steps : List Step) : Prop :=
  Trace.AllMeet (perform ideal) (Unforged ideal) (start ideal configured now)
    steps

end Frameleaf.DesktopGrants
