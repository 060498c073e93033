import Frameleaf.DesktopGrants.Authority

namespace Frameleaf.DesktopGrants

open Utf8 Json

/-!
# What the signed texts say

A text that a device signed stands for one pairing or for one request under one
grant, and the digest of the administrator for one record.
-/

theorem Scope.name_injective :
    Function.Injective Scope.name := by
  intro first second same
  cases first <;> cases second <;> first | rfl | exact absurd same (by decide)

theorem Details.ext_of_names
    {first second : Details}
    (deviceId : first.deviceId = second.deviceId)
    (installationId : first.installationId = second.installationId)
    (publicKey : first.publicKey = second.publicKey)
    (scopes : first.scopes.map Scope.name = second.scopes.map Scope.name) :
    first = second := by
  have sameScopes : first.scopes = second.scopes :=
    List.map_injective_iff.mpr Scope.name_injective scopes
  cases first
  cases second
  simp only [Details.mk.injEq]
  exact ⟨deviceId, installationId, publicKey, sameScopes⟩

theorem writable_scopes
    (scopes : List Scope) :
    isWritableItems (scopes.map fun scope => Json.string scope.name) = true := by
  have written := isWritableItems_map_string (scopes.map Scope.name)
  rwa [List.map_map] at written

/-- A pairing message says exactly which pairing it is for. -/
theorem pairingMessage_injective :
    Function.Injective pairingMessage := by
  intro first second same
  have sameItems := stringify_injOn
    (by simp [Json.isWritable, isWritableItems, isWritable_ofNat,
      writable_scopes])
    (by simp [Json.isWritable, isWritableItems, isWritable_ofNat,
      writable_scopes])
    same
  simp only [Json.array.injEq, List.cons.injEq, Json.string.injEq, true_and,
    and_true] at sameItems
  obtain ⟨managerId, origin, pairingId, deviceId, installationId, publicKey,
    scopes, secret, approvedAt, expiresAt⟩ := sameItems
  have names : first.scopes.map Scope.name = second.scopes.map Scope.name := by
    refine List.map_injective_iff.mpr (fun _ _ => Json.string.inj) ?_
    rw [List.map_map, List.map_map]
    exact scopes
  have details := Details.ext_of_names deviceId installationId publicKey names
  cases first
  cases second
  simp only [Approval.mk.injEq]
  exact ⟨details, pairingId, managerId, origin, secret,
    ofNat_injective approvedAt, ofNat_injective expiresAt⟩

/-- What a request message says. -/
structure SaysSame
    (identity other : Identity)
    (proof otherProof : Proof)
    (target otherTarget : Target) : Prop where
  identity : identity = other
  grantId : proof.grantId = otherProof.grantId
  deviceId : proof.deviceId = otherProof.deviceId
  timestamp : proof.timestamp = otherProof.timestamp
  nonce : proof.nonce = otherProof.nonce
  token : proof.token = otherProof.token
  target : target = otherTarget

/-- A request message says exactly what it is for. -/
theorem requestMessage_injective
    {identity other : Identity}
    {proof otherProof : Proof}
    {target otherTarget : Target}
    (same : requestMessage identity proof target =
      requestMessage other otherProof otherTarget) :
    SaysSame identity other proof otherProof target otherTarget := by
  have sameItems := stringify_injOn
    (by simp [Json.isWritable, isWritableItems, isWritable_ofNat])
    (by simp [Json.isWritable, isWritableItems, isWritable_ofNat])
    same
  simp only [Json.array.injEq, List.cons.injEq, Json.string.injEq, true_and,
    and_true] at sameItems
  obtain ⟨id, origin, grantId, deviceId, installationId, scope, method, path,
    bodySha256, timestamp, nonce, token⟩ := sameItems
  have sameScope := Scope.name_injective scope
  cases identity
  cases other
  cases target
  cases otherTarget
  simp only at id origin installationId sameScope method path bodySha256
  subst id origin installationId sameScope method path bodySha256
  exact ⟨rfl, grantId, deviceId, ofNat_injective timestamp, nonce, token, rfl⟩

/-- A signed text says what it is for and nothing else. -/
structure MessageLaws : Prop where
  pairings : Function.Injective pairingMessage
  requests : ∀ identity other proof otherProof target otherTarget,
    requestMessage identity proof target =
      requestMessage other otherProof otherTarget →
        SaysSame identity other proof otherProof target otherTarget
  apart : ∀ approval identity proof target,
    pairingMessage approval ≠ requestMessage identity proof target

/-- No signature is good for another pairing, for another request, or for the
other of the two. -/
theorem messageLaws : MessageLaws where
  pairings := pairingMessage_injective
  requests _ _ _ _ _ _ := requestMessage_injective
  apart approval identity proof target same := by
    have sameItems := stringify_injOn (by
        simp [Json.isWritable, isWritableItems, isWritable_ofNat,
          writable_scopes])
      (by simp [Json.isWritable, isWritableItems, isWritable_ofNat]) same
    simp at sameItems

variable {Hash : Type} {ideal : Ideal Hash}

theorem digest_injective :
    Function.Injective (digest ideal) := by
  intro first second same
  have written : ∀ administrator,
      (administratorJson administrator).isWritable = true := by
    intro administrator
    cases administrator with
    | none =>
        rfl
    | some administrator =>
        simp [administratorJson, Json.isWritable, isWritableFields]
  have sameJson := stringify_injOn (written first) (written second)
    (ideal.sha256_injective same)
  cases first with
  | none =>
      cases second with
      | none =>
          rfl
      | some administrator =>
          cases sameJson
  | some administrator =>
      cases second with
      | none =>
          cases sameJson
      | some other =>
          cases administrator
          cases other
          simpa [administratorJson] using sameJson

end Frameleaf.DesktopGrants
