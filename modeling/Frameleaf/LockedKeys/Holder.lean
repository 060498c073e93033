import Frameleaf.Lib.InsertionMap
import Frameleaf.Lib.Trace
import Mathlib.Data.Finset.Basic

namespace Frameleaf.LockedKeys

open InsertionMaps

/-!
# The unwrapped private keys of a process

A key is held in the buffer that it was loaded in, which is overwritten when the
key goes.  Keys go when they are dropped, replaced or expired; a pinned person
keeps theirs.  Grants say who else may read with a key.
-/

/-- Bytes of a buffer. -/
abbrev Bytes := List UInt8

/-- What the process uses of a cryptographic library. -/
structure Crypto where
  /-- A digest. -/
  sha256 : Bytes → Bytes
  /-- The public key of a private one. -/
  derivePublicKey : Bytes → Bytes

/-- The length of a key's identifier. -/
def KEY_ID_LENGTH : ℕ :=
  8

/-- The identifier of a public key. -/
def Crypto.keyId
    (crypto : Crypto)
    (publicKey : Bytes) : Except String Bytes :=
  if publicKey.length = 32 then
    .ok ((crypto.sha256 publicKey).take KEY_ID_LENGTH)
  else
    .error "X25519 public key must be 32 raw bytes"

/-- When a key expires, as it is given. -/
inductive Expiry where
  | never
  | invalid
  | at (time : ℤ)
  deriving DecidableEq

/-- The time that a key expires at, if any. -/
def Expiry.time : Expiry → Option ℤ
  | .never =>
      none
  | .invalid =>
      none
  | .at time =>
      some time

variable {User Buffer : Type} [DecidableEq User] [DecidableEq Buffer]

/-- A key that is held. -/
structure Entry (User Buffer : Type) where
  userId : User
  keyId : Bytes
  publicKey : Bytes
  privateKey : Buffer
  expiresAt : Option ℤ
  grants : Finset User

/-- The keys of a process, and what is in the buffers that it was given. -/
structure LockedKeyHolder (User Buffer : Type) where
  keys : InsertionMap User (Entry User Buffer)
  pinned : Finset User
  timer : Bool
  memory : Buffer → Bytes

/-- A holder without keys. -/
def LockedKeyHolder.empty : LockedKeyHolder User Buffer where
  keys := .empty
  pinned := ∅
  timer := false
  memory _ := []

/-- Memory with one buffer overwritten. -/
def filledWithZeros
    (memory : Buffer → Bytes)
    (buffer : Buffer) : Buffer → Bytes :=
  Function.update memory buffer
    (List.replicate (memory buffer).length 0)

/-- Why a key is not loaded, or its identifier. -/
def checkLoad
    (crypto : Crypto)
    (publicKey privateKey : Bytes)
    (expiresAt : Expiry)
    (now : ℤ) : Except String Bytes := do
  if privateKey.length ≠ 32 then
    throw "A Locked private key is 32 bytes"
  if expiresAt = .invalid then
    throw "Invalid Locked key expiry"
  if ∃ time ∈ expiresAt.time, time ≤ now then
    throw "This Locked key has already expired"
  let keyId ← crypto.keyId publicKey
  if crypto.derivePublicKey privateKey ≠ publicKey then
    throw "The Locked private key does not match its public key"
  return keyId

/-- What is asked of a holder. -/
inductive Request (User Buffer : Type) where
  | load (userId : User) (publicKey : Bytes) (privateKey : Buffer)
      (contents : Bytes) (expiresAt : Expiry) (now : ℤ)
  | drop (userId : User)
  | pin (userId : User) (pinned : Bool)
  | grant (viewerId ownerId : User)
  | setGrants (ownerId : User) (viewerIds : List User)
  | sweepExpired (now : ℤ)
  | clear

namespace LockedKeyHolder

/-- Forget a key, and overwrite its buffer. -/
def remove
    (holder : LockedKeyHolder User Buffer)
    (userId : User) : LockedKeyHolder User Buffer :=
  match holder.keys.get userId with
  | some entry =>
      let keys := holder.keys.delete userId
      { keys := keys
        pinned := holder.pinned
        timer := holder.timer && !keys.entries.isEmpty
        memory := filledWithZeros holder.memory entry.privateKey }
  | none =>
      holder

/-- Hold a key whose checks have passed. -/
def put
    (holder : LockedKeyHolder User Buffer)
    (userId : User)
    (keyId publicKey : Bytes)
    (privateKey : Buffer)
    (expiresAt : Option ℤ) : LockedKeyHolder User Buffer :=
  let previous := holder.keys.get userId
  let memory :=
    match previous with
    | some entry =>
        if entry.privateKey ≠ privateKey then
          filledWithZeros holder.memory entry.privateKey
        else
          holder.memory
    | none =>
        holder.memory
  let grants :=
    match previous with
    | some entry =>
        if entry.keyId = keyId then entry.grants else ∅
    | none =>
        ∅
  { holder with
    keys := holder.keys.set userId
      { userId := userId
        keyId := keyId
        publicKey := publicKey
        privateKey := privateKey
        expiresAt := expiresAt
        grants := grants }
    timer := true
    memory := memory }

/-- Change the grants of a key, if there is one. -/
def changeGrants
    (holder : LockedKeyHolder User Buffer)
    (ownerId : User)
    (change : Finset User → Finset User) : LockedKeyHolder User Buffer :=
  match holder.keys.get ownerId with
  | some entry =>
      { holder with
        keys := holder.keys.set ownerId
          { entry with grants := change entry.grants } }
  | none =>
      holder

/-- Whether an entry expired and nothing keeps it. -/
def isSwept
    (holder : LockedKeyHolder User Buffer)
    (now : ℤ)
    (entry : User × Entry User Buffer) : Bool :=
  decide (∃ time ∈ entry.2.expiresAt, time ≤ now) &&
    decide (entry.1 ∉ holder.pinned)

/-- The people whose keys are swept. -/
def swept
    (holder : LockedKeyHolder User Buffer)
    (now : ℤ) : List User :=
  (holder.keys.entries.filter (holder.isSwept now)).map Prod.fst

/-- Whether a viewer may read an owner's files. -/
def canRead
    (holder : LockedKeyHolder User Buffer)
    (viewerId ownerId : User) : Bool :=
  match holder.keys.get ownerId with
  | some entry =>
      viewerId = ownerId || viewerId ∈ entry.grants
  | none =>
      false

/-- Do what is asked, and answer who was swept. -/
def perform
    (crypto : Crypto)
    (holder : LockedKeyHolder User Buffer) :
    Request User Buffer → LockedKeyHolder User Buffer × Except String (List User)
  | .load userId publicKey privateKey contents expiresAt now =>
      let given :=
        { holder with
          memory := Function.update holder.memory privateKey contents }
      match checkLoad crypto publicKey contents expiresAt now with
      | .ok keyId =>
          (given.put userId keyId publicKey privateKey expiresAt.time, .ok [])
      | .error message =>
          (given, .error message)
  | .drop userId =>
      (if userId ∈ holder.pinned then holder else holder.remove userId, .ok [])
  | .pin userId pinned =>
      ({ holder with
        pinned :=
          if pinned then insert userId holder.pinned
          else holder.pinned.erase userId }, .ok [])
  | .grant viewerId ownerId =>
      (holder.changeGrants ownerId (insert viewerId), .ok [])
  | .setGrants ownerId viewerIds =>
      (holder.changeGrants ownerId fun _ => viewerIds.toFinset, .ok [])
  | .sweepExpired now =>
      ((holder.swept now).foldl remove holder, .ok (holder.swept now))
  | .clear =>
      ((holder.keys.entries.map Prod.fst).foldl remove
        { holder with pinned := ∅ }, .ok [])

end LockedKeyHolder

open InsertionMaps

/-!
## Keys that are removed

A key that is gone leaves zeros in its buffer, and nothing else changes.
-/

variable {User Buffer : Type} [DecidableEq User] [DecidableEq Buffer]

/-- Bytes that were overwritten. -/
def IsZero (bytes : Bytes) : Prop :=
  ∀ byte ∈ bytes, byte = 0

theorem isZero_filledWithZeros
    (memory : Buffer → Bytes)
    (buffer : Buffer) :
    IsZero (filledWithZeros memory buffer buffer) := by
  intro byte member
  rw [filledWithZeros, Function.update_self] at member
  exact (List.mem_replicate.mp member).2

theorem filledWithZeros_of_ne
    {memory : Buffer → Bytes}
    {buffer other : Buffer}
    (differs : other ≠ buffer) :
    filledWithZeros memory buffer other = memory other :=
  Function.update_of_ne differs _ _

theorem IsZero.filledWithZeros
    {memory : Buffer → Bytes}
    {other : Buffer}
    (isZero : IsZero (memory other))
    (buffer : Buffer) :
    IsZero (filledWithZeros memory buffer other) := by
  by_cases same : other = buffer
  · rw [same]
    exact isZero_filledWithZeros memory buffer
  · rw [filledWithZeros_of_ne same]
    exact isZero

/-- What a holder becomes when it holds no new key. -/
structure Shrinks (before after : LockedKeyHolder User Buffer) : Prop where
  there : ∀ user entry, after.keys.get user = some entry →
    ∃ old, before.keys.get user = some old ∧
      entry.privateKey = old.privateKey ∧ entry.expiresAt = old.expiresAt
  zeros : ∀ buffer, IsZero (before.memory buffer) →
    IsZero (after.memory buffer)
  gone : ∀ user entry, before.keys.get user = some entry →
    after.keys.get user = none → IsZero (after.memory entry.privateKey)

omit [DecidableEq Buffer] in
theorem Shrinks.refl
    (holder : LockedKeyHolder User Buffer) :
    Shrinks holder holder where
  there _ entry isThere := ⟨entry, isThere, rfl, rfl⟩
  zeros _ isZero := isZero
  gone _ _ isThere isGone := nomatch isThere.symm.trans isGone

omit [DecidableEq Buffer] in
theorem Shrinks.trans
    {first second third : LockedKeyHolder User Buffer}
    (one : Shrinks first second)
    (two : Shrinks second third) :
    Shrinks first third where
  there user entry isThere := by
    obtain ⟨middle, isMiddle, sameKey, sameTime⟩ := two.there user entry isThere
    obtain ⟨old, isOld, oldKey, oldTime⟩ := one.there user middle isMiddle
    exact ⟨old, isOld, sameKey.trans oldKey, sameTime.trans oldTime⟩
  zeros buffer isZero := two.zeros buffer (one.zeros buffer isZero)
  gone user entry isThere isGone := by
    cases isMiddle : second.keys.get user with
    | none =>
        exact two.zeros _ (one.gone user entry isThere isMiddle)
    | some middle =>
        obtain ⟨old, isOld, sameKey, -⟩ := one.there user middle isMiddle
        obtain rfl := Option.some.inj (isThere.symm.trans isOld)
        rw [← sameKey]
        exact two.gone user middle isMiddle isGone

namespace LockedKeyHolder

variable (holder : LockedKeyHolder User Buffer)

theorem get_remove
    (removed user : User) :
    (holder.remove removed).keys.get user =
      if user = removed then none else holder.keys.get user := by
  unfold remove
  split
  · exact InsertionMap.get_delete _ _ _
  · rename_i isNone
    split
    · rename_i same
      rw [same, isNone]
    · rfl

theorem pinned_remove
    (removed : User) :
    (holder.remove removed).pinned = holder.pinned := by
  unfold remove
  split <;> rfl

theorem memory_remove
    {removed : User}
    {buffer : Buffer}
    (other : ∀ entry, holder.keys.get removed = some entry →
      entry.privateKey ≠ buffer) :
    (holder.remove removed).memory buffer = holder.memory buffer := by
  unfold remove
  split
  · rename_i entry isEntry
    exact filledWithZeros_of_ne (other entry isEntry).symm
  · rfl

theorem shrinks_remove
    (removed : User) :
    Shrinks holder (holder.remove removed) where
  there user entry isThere := by
    rw [get_remove] at isThere
    split at isThere
    · exact nomatch isThere
    · exact ⟨entry, isThere, rfl, rfl⟩
  zeros buffer isZero := by
    unfold remove
    split
    · exact isZero.filledWithZeros _
    · exact isZero
  gone user entry isThere isGone := by
    rw [get_remove] at isGone
    split at isGone
    · rename_i same
      subst same
      unfold remove
      rw [isThere]
      exact isZero_filledWithZeros _ _
    · exact nomatch isThere.symm.trans isGone

theorem get_foldl_remove
    (users : List User)
    (user : User) :
    (users.foldl remove holder).keys.get user =
      if user ∈ users then none else holder.keys.get user := by
  induction users generalizing holder with
  | nil =>
      rfl
  | cons first rest inductionHypothesis =>
      rw [List.foldl_cons, inductionHypothesis, get_remove]
      by_cases inRest : user ∈ rest
      · rw [if_pos inRest, if_pos (List.mem_cons_of_mem _ inRest)]
      · rw [if_neg inRest]
        by_cases same : user = first
        · rw [if_pos same, if_pos (List.mem_cons.mpr (Or.inl same))]
        · rw [if_neg same, if_neg]
          intro member
          exact (List.mem_cons.mp member).elim same inRest

theorem pinned_foldl_remove
    (users : List User) :
    (users.foldl remove holder).pinned = holder.pinned := by
  induction users generalizing holder with
  | nil =>
      rfl
  | cons first rest inductionHypothesis =>
      rw [List.foldl_cons, inductionHypothesis, pinned_remove]

theorem shrinks_foldl_remove
    (users : List User) :
    Shrinks holder (users.foldl remove holder) := by
  induction users generalizing holder with
  | nil =>
      exact Shrinks.refl holder
  | cons first rest inductionHypothesis =>
      exact (holder.shrinks_remove first).trans (inductionHypothesis _)

theorem memory_foldl_remove
    {users : List User}
    {buffer : Buffer}
    (other : ∀ user ∈ users, ∀ entry, holder.keys.get user = some entry →
      entry.privateKey ≠ buffer) :
    (users.foldl remove holder).memory buffer = holder.memory buffer := by
  induction users generalizing holder with
  | nil =>
      rfl
  | cons first rest inductionHypothesis =>
      rw [List.foldl_cons, inductionHypothesis,
        holder.memory_remove (other first List.mem_cons_self)]
      intro user member entry isEntry
      rw [get_remove] at isEntry
      split at isEntry
      · exact nomatch isEntry
      · exact other user (List.mem_cons_of_mem _ member) entry isEntry

omit [DecidableEq Buffer] in
theorem get_changeGrants
    (ownerId user : User)
    (change : Finset User → Finset User) :
    (holder.changeGrants ownerId change).keys.get user =
      if user = ownerId then
        (holder.keys.get user).map fun entry =>
          { entry with grants := change entry.grants }
      else
        holder.keys.get user := by
  unfold changeGrants
  split
  · rename_i entry isEntry
    dsimp only
    rw [InsertionMap.get_set]
    split
    · rename_i same
      rw [same, isEntry]
      rfl
    · rfl
  · rename_i isNone
    split
    · rename_i same
      rw [same, isNone]
      rfl
    · rfl

omit [DecidableEq Buffer] in
theorem pinned_changeGrants
    (ownerId : User)
    (change : Finset User → Finset User) :
    (holder.changeGrants ownerId change).pinned = holder.pinned := by
  unfold changeGrants
  split <;> rfl

omit [DecidableEq Buffer] in
theorem memory_changeGrants
    (ownerId : User)
    (change : Finset User → Finset User) :
    (holder.changeGrants ownerId change).memory = holder.memory := by
  unfold changeGrants
  split <;> rfl

theorem shrinks_changeGrants
    (ownerId : User)
    (change : Finset User → Finset User) :
    Shrinks holder (holder.changeGrants ownerId change) where
  there user entry isThere := by
    rw [get_changeGrants] at isThere
    split at isThere
    · obtain ⟨old, isOld, rfl⟩ := Option.map_eq_some_iff.mp isThere
      exact ⟨old, isOld, rfl, rfl⟩
    · exact ⟨entry, isThere, rfl, rfl⟩
  zeros buffer isZero := by
    rw [memory_changeGrants]
    exact isZero
  gone user entry isThere isGone := by
    rw [get_changeGrants, isThere] at isGone
    split at isGone <;> exact nomatch isGone

end LockedKeyHolder

end Frameleaf.LockedKeys
