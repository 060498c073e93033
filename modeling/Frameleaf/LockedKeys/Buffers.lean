import Frameleaf.LockedKeys.Holder

namespace Frameleaf.LockedKeys

open InsertionMaps Trace LockedKeyHolder

/-!
# Buffers that were taken

In a run whose keys come in buffers of their own, each buffer is that of a
person's key or holds zeros.
-/

variable {User Buffer : Type} [DecidableEq User] [DecidableEq Buffer]

/-- The buffer that a request hands over, if any. -/
def Request.buffer : Request User Buffer → Option Buffer
  | .load _ _ privateKey _ _ _ =>
      some privateKey
  | _ =>
      none

/-- The person and the buffer of a key that is loaded, if any. -/
def Request.taken
    (crypto : Crypto) : Request User Buffer → Option (User × Buffer)
  | .load userId publicKey privateKey contents expiresAt now =>
      match checkLoad crypto publicKey contents expiresAt now with
      | .ok _ =>
          some (userId, privateKey)
      | .error _ =>
          none
  | _ =>
      none

/-- Requests of which each loads a key in a buffer of its own. -/
structure Run (User Buffer : Type) where
  requests : List (Request User Buffer)
  own : (requests.filterMap Request.buffer).Nodup

/-- The holder after requests. -/
def holderAfter
    (crypto : Crypto)
    (requests : List (Request User Buffer)) : LockedKeyHolder User Buffer :=
  finalState (perform crypto) .empty requests

variable (crypto : Crypto)

theorem holderAfter_append_singleton
    (requests : List (Request User Buffer))
    (request : Request User Buffer) :
    holderAfter crypto (requests ++ [request]) =
      (perform crypto (holderAfter crypto requests) request).1 := by
  rw [holderAfter, finalState_append]
  rfl

omit [DecidableEq Buffer] in
theorem Shrinks.of_eq
    {before after : LockedKeyHolder User Buffer}
    (sameKeys : after.keys = before.keys)
    (sameMemory : after.memory = before.memory) :
    Shrinks before after := by
  obtain ⟨keys, pinned, timer, memory⟩ := after
  obtain rfl := sameKeys
  obtain rfl := sameMemory
  exact ⟨fun user entry isThere => ⟨entry, isThere, rfl, rfl⟩,
    fun buffer isZero => isZero,
    fun user entry isThere isGone => nomatch isThere.symm.trans isGone⟩

theorem shrinks_perform
    (holder : LockedKeyHolder User Buffer)
    {request : Request User Buffer}
    (noBuffer : request.buffer = none) :
    Shrinks holder (perform crypto holder request).1 := by
  cases request with
  | load userId publicKey privateKey contents expiresAt now =>
      exact nomatch noBuffer
  | drop userId =>
      rw [perform]
      dsimp only
      split
      · exact Shrinks.refl holder
      · exact holder.shrinks_remove userId
  | pin userId pinned =>
      exact Shrinks.of_eq rfl rfl
  | grant viewerId ownerId =>
      exact holder.shrinks_changeGrants ownerId _
  | setGrants ownerId viewerIds =>
      exact holder.shrinks_changeGrants ownerId fun _ => viewerIds.toFinset
  | sweepExpired now =>
      exact holder.shrinks_foldl_remove _
  | clear =>
      have unpinned : Shrinks holder { holder with pinned := ∅ } :=
        Shrinks.of_eq rfl rfl
      exact unpinned.trans (shrinks_foldl_remove _ _)

/-- Every key is one that was taken, and every buffer that was taken is that of
the person's key or holds zeros. -/
structure Sound
    (requests : List (Request User Buffer))
    (holder : LockedKeyHolder User Buffer) : Prop where
  taken : ∀ user entry, holder.keys.get user = some entry →
    (user, entry.privateKey) ∈ requests.filterMap (Request.taken crypto)
  zeros : ∀ user buffer,
    (user, buffer) ∈ requests.filterMap (Request.taken crypto) →
      (∃ entry, holder.keys.get user = some entry ∧
        entry.privateKey = buffer) ∨ IsZero (holder.memory buffer)

variable {crypto}

omit [DecidableEq Buffer] in
theorem Sound.shrinks
    {requests : List (Request User Buffer)}
    {before after : LockedKeyHolder User Buffer}
    (sound : Sound crypto requests before)
    (shrinks : Shrinks before after) :
    Sound crypto requests after where
  taken user entry isThere := by
    obtain ⟨old, isOld, sameKey, -⟩ := shrinks.there user entry isThere
    rw [sameKey]
    exact sound.taken user old isOld
  zeros user buffer isTaken := by
    rcases sound.zeros user buffer isTaken with ⟨old, isOld, isBuffer⟩ | isZero
    · cases isThere : after.keys.get user with
      | none =>
          rw [← isBuffer]
          exact Or.inr (shrinks.gone user old isOld isThere)
      | some entry =>
          obtain ⟨same, isSame, sameKey, -⟩ := shrinks.there user entry isThere
          obtain rfl := Option.some.inj (isOld.symm.trans isSame)
          exact Or.inl ⟨entry, rfl, sameKey.trans isBuffer⟩
    · exact Or.inr (shrinks.zeros buffer isZero)

theorem get_put_eq
    (holder : LockedKeyHolder User Buffer)
    (userId user : User)
    (keyId publicKey : Bytes)
    (privateKey : Buffer)
    (expiresAt : Option ℤ) :
    (holder.put userId keyId publicKey privateKey expiresAt).keys.get user =
      if user = userId then
        some
          { userId := userId
            keyId := keyId
            publicKey := publicKey
            privateKey := privateKey
            expiresAt := expiresAt
            grants :=
              match holder.keys.get userId with
              | some entry =>
                  if entry.keyId = keyId then entry.grants else ∅
              | none =>
                  ∅ }
      else
        holder.keys.get user :=
  InsertionMap.get_set _ _ _ _

theorem get_put
    (holder : LockedKeyHolder User Buffer)
    (userId user : User)
    (keyId publicKey : Bytes)
    (privateKey : Buffer)
    (expiresAt : Option ℤ) :
    ((holder.put userId keyId publicKey privateKey expiresAt).keys.get user).map
        Entry.privateKey =
      if user = userId then some privateKey
      else (holder.keys.get user).map Entry.privateKey := by
  rw [get_put_eq]
  split <;> rfl

theorem isZero_put
    {holder : LockedKeyHolder User Buffer}
    {userId : User}
    {privateKey buffer : Buffer}
    (isZero : (∃ entry, holder.keys.get userId = some entry ∧
      entry.privateKey = buffer ∧ buffer ≠ privateKey) ∨
        IsZero (holder.memory buffer))
    (keyId publicKey : Bytes)
    (expiresAt : Option ℤ) :
    IsZero ((holder.put userId keyId publicKey privateKey expiresAt).memory
      buffer) := by
  unfold put
  dsimp only
  rcases isZero with ⟨entry, isEntry, rfl, differs⟩ | isZero
  · rw [isEntry]
    dsimp only
    rw [if_pos differs]
    exact isZero_filledWithZeros _ _
  · cases holder.keys.get userId with
    | none =>
        exact isZero
    | some entry =>
        dsimp only
        split
        · exact isZero.filledWithZeros _
        · exact isZero

omit [DecidableEq User] [DecidableEq Buffer] in
theorem mem_buffers_of_taken
    {requests : List (Request User Buffer)}
    {user : User}
    {buffer : Buffer}
    (isTaken : (user, buffer) ∈ requests.filterMap (Request.taken crypto)) :
    buffer ∈ requests.filterMap Request.buffer := by
  obtain ⟨request, member, isRequest⟩ := List.mem_filterMap.mp isTaken
  refine List.mem_filterMap.mpr ⟨request, member, ?_⟩
  cases request with
  | load userId publicKey privateKey contents expiresAt now =>
      rw [Request.taken] at isRequest
      split at isRequest
      · exact congrArg (some ∘ Prod.snd) (Option.some.inj isRequest)
      · exact nomatch isRequest
  | drop userId | pin userId pinned | grant viewerId ownerId
  | setGrants ownerId viewerIds | sweepExpired now | clear =>
      exact nomatch isRequest

/-- Buffers are sound after a key was loaded in a new one. -/
theorem Sound.load
    {requests : List (Request User Buffer)}
    {holder : LockedKeyHolder User Buffer}
    (sound : Sound crypto requests holder)
    {privateKey : Buffer}
    (isNew : privateKey ∉ requests.filterMap Request.buffer)
    (userId : User)
    (publicKey contents : Bytes)
    (expiresAt : Expiry)
    (now : ℤ) :
    Sound crypto
      (requests ++ [.load userId publicKey privateKey contents expiresAt now])
      (perform crypto holder
        (.load userId publicKey privateKey contents expiresAt now)).1 := by
  have differs : ∀ user buffer,
      (user, buffer) ∈ requests.filterMap (Request.taken crypto) →
        buffer ≠ privateKey := by
    rintro user buffer isTaken rfl
    exact isNew (mem_buffers_of_taken isTaken)
  have given : Sound crypto requests
      { holder with
        memory := Function.update holder.memory privateKey contents } := by
    refine ⟨sound.taken, fun user buffer isTaken => ?_⟩
    refine (sound.zeros user buffer isTaken).imp_right fun isZero => ?_
    dsimp only
    rw [Function.update_of_ne (differs user buffer isTaken)]
    exact isZero
  rw [perform]
  cases isChecked : checkLoad crypto publicKey contents expiresAt now with
  | error message =>
      have noneTaken : List.filterMap (Request.taken crypto)
          [Request.load userId publicKey privateKey contents expiresAt now] =
            [] := by
        rw [List.filterMap_cons, Request.taken, isChecked]
        rfl
      dsimp only
      constructor
      · rw [List.filterMap_append, noneTaken, List.append_nil]
        exact given.taken
      · rw [List.filterMap_append, noneTaken, List.append_nil]
        exact given.zeros
  | ok keyId =>
      have oneTaken : List.filterMap (Request.taken crypto)
          [Request.load userId publicKey privateKey contents expiresAt now] =
            [(userId, privateKey)] := by
        rw [List.filterMap_cons, Request.taken, isChecked]
        rfl
      dsimp only
      constructor
      · intro user entry isThere
        rw [List.filterMap_append, oneTaken]
        have key := get_put { holder with
          memory := Function.update holder.memory privateKey contents }
            userId user keyId publicKey privateKey expiresAt.time
        rw [isThere] at key
        split at key
        · rename_i same
          rw [same, Option.some.inj key]
          exact List.mem_append_right _ List.mem_cons_self
        · obtain ⟨old, isOld, sameKey⟩ := Option.map_eq_some_iff.mp key.symm
          rw [← sameKey]
          exact List.mem_append_left _ (given.taken user old isOld)
      · intro user buffer isTaken
        rw [List.filterMap_append, oneTaken] at isTaken
        have key := get_put { holder with
          memory := Function.update holder.memory privateKey contents }
            userId user keyId publicKey privateKey expiresAt.time
        rcases List.mem_append.mp isTaken with isOld | isLoaded
        · by_cases same : user = userId
          · subst same
            refine Or.inr (isZero_put ?_ keyId publicKey expiresAt.time)
            refine (given.zeros user buffer isOld).imp_left ?_
            rintro ⟨old, isEntry, isBuffer⟩
            exact ⟨old, isEntry, isBuffer, differs user buffer isOld⟩
          · rw [if_neg same] at key
            rcases given.zeros user buffer isOld with
              ⟨old, isEntry, isBuffer⟩ | isZero
            · rw [isEntry] at key
              obtain ⟨entry, isThere, sameKey⟩ := Option.map_eq_some_iff.mp key
              exact Or.inl ⟨entry, isThere, sameKey.trans isBuffer⟩
            · exact Or.inr (isZero_put (Or.inr isZero) keyId publicKey
                expiresAt.time)
        · obtain ⟨rfl, rfl⟩ := Prod.mk.inj (List.mem_singleton.mp isLoaded)
          rw [if_pos rfl] at key
          obtain ⟨entry, isThere, isBuffer⟩ := Option.map_eq_some_iff.mp key
          exact Or.inl ⟨entry, isThere, isBuffer⟩

theorem sound_holderAfter
    {requests : List (Request User Buffer)}
    (own : (requests.filterMap Request.buffer).Nodup) :
    Sound crypto requests (holderAfter crypto requests) := by
  induction requests using List.reverseRecOn with
  | nil =>
      exact ⟨fun user entry isThere => (nomatch isThere),
        fun user buffer isTaken => (nomatch isTaken)⟩
  | append_singleton requests request inductionHypothesis =>
      rw [List.filterMap_append] at own
      have sound := inductionHypothesis (List.Nodup.of_append_left own)
      rw [holderAfter_append_singleton]
      cases isBuffer : request.buffer with
      | none =>
          have noneTaken : request.taken crypto = none := by
            cases request with
            | load userId publicKey privateKey contents expiresAt now =>
                exact nomatch isBuffer
            | drop userId | pin userId pinned | grant viewerId ownerId
            | setGrants ownerId viewerIds | sweepExpired now | clear =>
                rfl
          have sameTaken : (requests ++ [request]).filterMap
              (Request.taken crypto) =
                requests.filterMap (Request.taken crypto) := by
            rw [List.filterMap_append, List.filterMap_cons, noneTaken]
            exact List.append_nil _
          have kept := sound.shrinks (shrinks_perform crypto _ isBuffer)
          constructor
          · rw [sameTaken]
            exact kept.taken
          · rw [sameTaken]
            exact kept.zeros
      | some buffer =>
          cases request with
          | load userId publicKey privateKey contents expiresAt now =>
              refine sound.load (fun isOld => ?_) userId publicKey contents
                expiresAt now
              exact (List.nodup_append'.mp own).2.2 isOld List.mem_cons_self
          | drop userId | pin userId pinned | grant viewerId ownerId
          | setGrants ownerId viewerIds | sweepExpired now | clear =>
              exact nomatch isBuffer

end Frameleaf.LockedKeys
