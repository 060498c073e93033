import Frameleaf.LockedKeys.Buffers

namespace Frameleaf.LockedKeys

open InsertionMaps Trace LockedKeyHolder

/-!
# What becomes of a key

A buffer that was taken is overwritten once its key is gone, a pinned person
keeps their key, and grants end with the key.  A drop while a key is pinned is
ignored: it does not count after the pin ends.
-/

variable {User Buffer : Type} [DecidableEq User] [DecidableEq Buffer]
variable (crypto : Crypto)

/-- A request grants a viewer the key of an owner. -/
def Grants
    (viewer owner : User) : Request User Buffer → Prop
  | .grant viewerId ownerId =>
      viewerId = viewer ∧ ownerId = owner
  | .setGrants ownerId viewerIds =>
      ownerId = owner ∧ viewer ∈ viewerIds
  | _ =>
      False

/-- A request loads a key of an owner that is not held yet, or grants it to
others than a viewer. -/
def EndsGrant
    (holder : LockedKeyHolder User Buffer)
    (viewer owner : User) : Request User Buffer → Prop
  | .load userId publicKey _ contents expiresAt now =>
      userId = owner ∧ ∃ keyId,
        checkLoad crypto publicKey contents expiresAt now = .ok keyId ∧
          ∀ entry, holder.keys.get owner = some entry → entry.keyId ≠ keyId
  | .setGrants ownerId viewerIds =>
      ownerId = owner ∧ viewer ∉ viewerIds
  | _ =>
      False

/-- A viewer was granted a key that was held, and nothing ended that since. -/
def GrantedSince
    (requests : List (Request User Buffer))
    (viewer owner : User) : Prop :=
  ∃ before request after, requests = before ++ request :: after ∧
    Grants viewer owner request ∧
    (∃ entry, (holderAfter crypto before).keys.get owner = some entry) ∧
    ∀ first later last, after = first ++ later :: last →
      ¬EndsGrant crypto (holderAfter crypto (before ++ request :: first)) viewer
        owner later

variable {crypto}

variable {requests : List (Request User Buffer)} {viewer owner user : User}
  {request : Request User Buffer}

theorem GrantedSince.append_singleton
    (granted : GrantedSince crypto requests viewer owner)
    (goesOn : ¬EndsGrant crypto (holderAfter crypto requests) viewer owner
      request) :
    GrantedSince crypto (requests ++ [request]) viewer owner := by
  obtain ⟨before, grant, after, rfl, isGrant, isHeld, noEnd⟩ := granted
  refine ⟨before, grant, after ++ [request], by simp, isGrant, isHeld, ?_⟩
  intro first later last split
  rcases List.eq_nil_or_concat last with rfl | ⟨earlier, final, rfl⟩
  · obtain ⟨rfl, isLast⟩ := List.append_inj' split rfl
    obtain rfl := (List.cons.inj isLast).1
    exact goesOn
  · rw [List.concat_eq_append, ← List.cons_append, ← List.append_assoc] at split
    exact noEnd first later earlier (List.append_inj' split rfl).1

theorem grantedSince_of_grants
    (isGrant : Grants viewer owner request)
    {entry : Entry User Buffer}
    (isHeld : (holderAfter crypto requests).keys.get owner = some entry) :
    GrantedSince crypto (requests ++ [request]) viewer owner := by
  refine ⟨requests, request, [], rfl, isGrant, ⟨entry, isHeld⟩, ?_⟩
  intro first later last split
  exact absurd split.symm (by simp)

variable {holder : LockedKeyHolder User Buffer}

/-- A viewer who is granted a key after a request was granted it by that
request, or before, and then the request did not end it. -/
theorem grants_perform
    {entry : Entry User Buffer}
    (isThere : (perform crypto holder request).1.keys.get owner = some entry)
    (isGranted : viewer ∈ entry.grants) :
    ∃ old, holder.keys.get owner = some old ∧
      (Grants viewer owner request ∨ (viewer ∈ old.grants ∧
        ¬EndsGrant crypto holder viewer owner request)) := by
  cases request with
  | load userId publicKey privateKey contents expiresAt now =>
      rw [perform] at isThere
      cases isChecked : checkLoad crypto publicKey contents expiresAt now with
      | error message =>
          rw [isChecked] at isThere
          refine ⟨entry, isThere, Or.inr ⟨isGranted, ?_⟩⟩
          rintro ⟨-, keyId, isOk, -⟩
          cases isChecked.symm.trans isOk
      | ok keyId =>
          rw [isChecked] at isThere
          dsimp only at isThere
          rw [get_put_eq] at isThere
          split at isThere
          · rename_i same
            obtain rfl := Option.some.inj isThere
            dsimp only at isGranted
            split at isGranted
            · rename_i old isOld
              split at isGranted
              · rename_i sameKey
                refine ⟨old, same ▸ isOld, Or.inr ⟨isGranted, ?_⟩⟩
                rintro ⟨-, otherId, isOk, isFresh⟩
                refine isFresh old (same ▸ isOld) ?_
                exact sameKey.trans (Except.ok.inj (isChecked.symm.trans isOk))
              · exact absurd isGranted (Finset.notMem_empty viewer)
            · exact absurd isGranted (Finset.notMem_empty viewer)
          · rename_i differs
            refine ⟨entry, isThere, Or.inr ⟨isGranted, ?_⟩⟩
            rintro ⟨same, -⟩
            exact differs same.symm
  | grant viewerId ownerId =>
      rw [perform] at isThere
      dsimp only at isThere
      rw [get_changeGrants] at isThere
      split at isThere
      · rename_i same
        obtain ⟨old, isOld, rfl⟩ := Option.map_eq_some_iff.mp isThere
        refine ⟨old, isOld, ?_⟩
        rcases Finset.mem_insert.mp isGranted with isViewer | wasGranted
        · exact Or.inl ⟨isViewer.symm, same.symm⟩
        · exact Or.inr ⟨wasGranted, id⟩
      · exact ⟨entry, isThere, Or.inr ⟨isGranted, id⟩⟩
  | setGrants ownerId viewerIds =>
      rw [perform] at isThere
      dsimp only at isThere
      rw [get_changeGrants] at isThere
      split at isThere
      · rename_i same
        obtain ⟨old, isOld, rfl⟩ := Option.map_eq_some_iff.mp isThere
        exact ⟨old, isOld, Or.inl ⟨same.symm, List.mem_toFinset.mp isGranted⟩⟩
      · rename_i differs
        refine ⟨entry, isThere, Or.inr ⟨isGranted, ?_⟩⟩
        rintro ⟨same, -⟩
        exact differs same.symm
  | drop userId =>
      rw [perform] at isThere
      dsimp only at isThere
      split at isThere
      · exact ⟨entry, isThere, Or.inr ⟨isGranted, id⟩⟩
      · rw [get_remove] at isThere
        split at isThere
        · cases isThere
        · exact ⟨entry, isThere, Or.inr ⟨isGranted, id⟩⟩
  | pin userId pinned =>
      exact ⟨entry, isThere, Or.inr ⟨isGranted, id⟩⟩
  | sweepExpired now =>
      rw [perform] at isThere
      dsimp only at isThere
      rw [get_foldl_remove] at isThere
      split at isThere
      · cases isThere
      · exact ⟨entry, isThere, Or.inr ⟨isGranted, id⟩⟩
  | clear =>
      rw [perform] at isThere
      dsimp only at isThere
      rw [get_foldl_remove] at isThere
      split at isThere
      · cases isThere
      · exact ⟨entry, isThere, Or.inr ⟨isGranted, id⟩⟩

theorem grantedSince_of_mem_grants
    {entry : Entry User Buffer}
    (isThere : (holderAfter crypto requests).keys.get owner = some entry)
    (isGranted : viewer ∈ entry.grants) :
    GrantedSince crypto requests viewer owner := by
  induction requests using List.reverseRecOn generalizing entry with
  | nil =>
      exact nomatch isThere
  | append_singleton requests request inductionHypothesis =>
      rw [holderAfter_append_singleton] at isThere
      obtain ⟨old, isOld, isGrant | ⟨wasGranted, goesOn⟩⟩ :=
        grants_perform isThere isGranted
      · exact grantedSince_of_grants isGrant isOld
      · exact (inductionHypothesis isOld wasGranted).append_singleton goesOn

omit [DecidableEq User] [DecidableEq Buffer] in
theorem owner_of_taken
    (own : (requests.filterMap Request.buffer).Nodup)
    {first second : User}
    {buffer : Buffer}
    (isFirst : (first, buffer) ∈ requests.filterMap (Request.taken crypto))
    (isSecond : (second, buffer) ∈ requests.filterMap (Request.taken crypto)) :
    first = second := by
  induction requests with
  | nil =>
      exact nomatch isFirst
  | cons request rest inductionHypothesis =>
      cases isTaken : request.taken crypto with
      | none =>
          rw [List.filterMap_cons, isTaken] at isFirst isSecond
          refine inductionHypothesis ?_ isFirst isSecond
          exact own.sublist ((List.sublist_cons_self request rest).filterMap _)
      | some pair =>
          rw [List.filterMap_cons, isTaken] at isFirst isSecond
          have isBuffer : request.buffer = some pair.2 := by
            have member : (pair.1, pair.2) ∈
                [request].filterMap (Request.taken crypto) := by
              simp [isTaken]
            simpa using mem_buffers_of_taken member
          rw [List.filterMap_cons, isBuffer] at own
          obtain ⟨isNew, restOwn⟩ := List.nodup_cons.mp own
          rcases List.mem_cons.mp isFirst with rfl | firstInRest
          · rcases List.mem_cons.mp isSecond with same | secondInRest
            · exact (congrArg Prod.fst same).symm
            · exact absurd (mem_buffers_of_taken secondInRest) isNew
          · rcases List.mem_cons.mp isSecond with rfl | secondInRest
            · exact absurd (mem_buffers_of_taken firstInRest) isNew
            · exact inductionHypothesis restOwn firstInRest secondInRest

/-- A request that is a drop or a sweep. -/
def Request.removes : Request User Buffer → Prop
  | .drop _ =>
      True
  | .sweepExpired _ =>
      True
  | _ =>
      False

omit [DecidableEq Buffer] in
variable {now time : ℤ}

theorem not_pinned_of_mem_swept
    (isSwept : user ∈ holder.swept now) :
    user ∉ holder.pinned := by
  obtain ⟨entry, member, rfl⟩ := List.mem_map.mp isSwept
  have swept := (List.mem_filter.mp member).2
  rw [LockedKeyHolder.isSwept, Bool.and_eq_true] at swept
  exact of_decide_eq_true swept.2

/-- A pinned person's key survives a drop and a sweep. -/
theorem survives
    (own : (requests.filterMap Request.buffer).Nodup)
    (isPinned : user ∈ (holderAfter crypto requests).pinned)
    (removes : request.removes) :
    (perform crypto (holderAfter crypto requests) request).1.keys.get user =
        (holderAfter crypto requests).keys.get user ∧
      ∀ entry, (holderAfter crypto requests).keys.get user = some entry →
        (perform crypto (holderAfter crypto requests) request).1.memory
            entry.privateKey =
          (holderAfter crypto requests).memory entry.privateKey := by
  have sound : Sound crypto requests (holderAfter crypto requests) :=
    sound_holderAfter own
  have apart : ∀ other ≠ user, ∀ entry held,
      (holderAfter crypto requests).keys.get user = some entry →
        (holderAfter crypto requests).keys.get other = some held →
          held.privateKey ≠ entry.privateKey := by
    intro other differs entry held isEntry isHeld same
    have otherTaken := sound.taken other held isHeld
    rw [same] at otherTaken
    exact differs (owner_of_taken own otherTaken
      (sound.taken user entry isEntry))
  cases request with
  | load userId publicKey privateKey contents expiresAt now =>
      exact removes.elim
  | pin userId pinned | grant viewerId ownerId | setGrants ownerId viewerIds
  | clear =>
      exact removes.elim
  | drop userId =>
      rw [perform]
      dsimp only
      split
      · exact ⟨rfl, fun _ _ => rfl⟩
      · rename_i notPinned
        have differs : user ≠ userId := by
          rintro rfl
          exact notPinned isPinned
        rw [get_remove, if_neg differs]
        refine ⟨rfl, fun entry isEntry => memory_remove _ fun held isHeld => ?_⟩
        exact apart userId differs.symm entry held isEntry isHeld
  | sweepExpired now =>
      rw [perform]
      dsimp only
      have notSwept : user ∉ (holderAfter crypto requests).swept now :=
        fun isSwept => not_pinned_of_mem_swept isSwept isPinned
      rw [get_foldl_remove, if_neg notSwept]
      refine ⟨rfl, fun entry isEntry => memory_foldl_remove _ ?_⟩
      intro other isSwept held isHeld
      refine apart other ?_ entry held isEntry isHeld
      rintro rfl
      exact notSwept isSwept

/-- A request that loads a person's key or pins it. -/
def Request.Revives
    (user : User) : Request User Buffer → Prop
  | .load userId _ _ _ _ _ =>
      userId = user
  | .pin userId pinned =>
      userId = user ∧ pinned = true
  | _ =>
      False

theorem not_pinned_perform
    (notPinned : user ∉ holder.pinned)
    (noRevival : ¬request.Revives user) :
    user ∉ (perform crypto holder request).1.pinned := by
  cases request with
  | load userId publicKey privateKey contents expiresAt now =>
      rw [perform]
      cases checkLoad crypto publicKey contents expiresAt now <;>
        exact notPinned
  | pin userId pinned =>
      rw [perform]
      dsimp only
      split
      · rename_i pins
        intro isPinned
        rcases Finset.mem_insert.mp isPinned with same | wasPinned
        · exact noRevival ⟨same.symm, pins⟩
        · exact notPinned wasPinned
      · exact fun isPinned => notPinned (Finset.mem_of_mem_erase isPinned)
  | drop userId =>
      rw [perform]
      dsimp only
      split
      · exact notPinned
      · rw [pinned_remove]
        exact notPinned
  | grant viewerId ownerId | setGrants ownerId viewerIds =>
      rw [perform]
      dsimp only
      rw [pinned_changeGrants]
      exact notPinned
  | sweepExpired now =>
      rw [perform]
      dsimp only
      rw [pinned_foldl_remove]
      exact notPinned
  | clear =>
      rw [perform]
      dsimp only
      rw [pinned_foldl_remove]
      exact Finset.notMem_empty user

/-- A person who is not pinned has no key, or one that expires then. -/
def Expires
    (user : User)
    (time : ℤ)
    (holder : LockedKeyHolder User Buffer) : Prop :=
  user ∉ holder.pinned ∧ ∀ entry, holder.keys.get user = some entry →
    entry.expiresAt = some time

theorem expires_perform
    (expires : Expires user time holder)
    (noRevival : ¬request.Revives user) :
    Expires user time (perform crypto holder request).1 := by
  refine ⟨not_pinned_perform expires.1 noRevival, ?_⟩
  intro entry isEntry
  cases isBuffer : request.buffer with
  | none =>
      obtain ⟨old, isOld, -, sameTime⟩ :=
        (shrinks_perform crypto holder isBuffer).there user entry isEntry
      exact sameTime.trans (expires.2 old isOld)
  | some buffer =>
      cases request with
      | load userId publicKey privateKey contents expiresAt now =>
          have differs : user ≠ userId := fun same => noRevival same.symm
          rw [perform] at isEntry
          cases isChecked : checkLoad crypto publicKey contents expiresAt now with
          | error message =>
              rw [isChecked] at isEntry
              exact expires.2 entry isEntry
          | ok keyId =>
              rw [isChecked] at isEntry
              dsimp only at isEntry
              rw [get_put_eq, if_neg differs] at isEntry
              exact expires.2 entry isEntry
      | drop userId | pin userId pinned | grant viewerId ownerId
      | setGrants ownerId viewerIds | sweepExpired now | clear =>
          cases isBuffer

theorem get_sweep_of_expires
    (expires : Expires user time holder)
    (isPast : time ≤ now) :
    (perform crypto holder (.sweepExpired now)).1.keys.get user = none := by
  rw [perform]
  dsimp only
  rw [get_foldl_remove]
  split
  · rfl
  · rename_i notSwept
    cases isThere : holder.keys.get user with
    | none =>
        rfl
    | some entry =>
        refine absurd ?_ notSwept
        have member : (user, entry) ∈ holder.keys.entries :=
          InsertionMap.mem_entries_of_get isThere
        refine List.mem_map.mpr ⟨(user, entry), List.mem_filter.mpr ⟨member, ?_⟩,
          rfl⟩
        rw [isSwept, Bool.and_eq_true, decide_eq_true_iff, decide_eq_true_iff]
        exact ⟨⟨time, expires.2 entry isThere, isPast⟩, expires.1⟩

/-- Requests among which a pin ends before a sweep. -/
def unpinnedThenSwept
    (before : List (Request User Buffer))
    (user : User)
    (later : List (Request User Buffer))
    (now : ℤ) : List (Request User Buffer) :=
  before ++ .pin user false :: (later ++ [.sweepExpired now])

theorem get_unpinnedThenSwept
    {before later : List (Request User Buffer)}
    (noRevival : ∀ request ∈ later, ¬request.Revives user)
    {entry : Entry User Buffer}
    (isHeld : (holderAfter crypto before).keys.get user = some entry)
    (expires : entry.expiresAt = some time)
    (isPast : time ≤ now) :
    (holderAfter crypto (unpinnedThenSwept before user later now)).keys.get
      user = none := by
  have unpinned : Expires user time
      (perform crypto (holderAfter crypto before) (.pin user false)).1 := by
    refine ⟨Finset.notMem_erase user _, fun held isEntry => ?_⟩
    rw [← Option.some.inj (isHeld.symm.trans isEntry)]
    exact expires
  have allMeet : AllMeet (perform crypto)
      (fun _ request => ¬request.Revives user)
      (perform crypto (holderAfter crypto before) (.pin user false)).1
      later := by
    refine allMeet_of_trace fun happened member => ?_
    obtain ⟨earlier, step, rest, rfl, rfl⟩ := exists_split_of_mem_trace member
    exact noRevival step (by simp)
  have expiring : Expires user time (finalState (perform crypto)
      (perform crypto (holderAfter crypto before) (.pin user false)).1 later) :=
    invariant_finalState
      (fun holder request expiring goesOn => expires_perform expiring goesOn)
      unpinned allMeet
  have isAfter : holderAfter crypto (unpinnedThenSwept before user later now) =
      (perform crypto (finalState (perform crypto)
        (perform crypto (holderAfter crypto before) (.pin user false)).1
          later) (.sweepExpired now)).1 := by
    rw [holderAfter, unpinnedThenSwept, finalState_append, finalState,
      finalState_append]
    rfl
  rw [isAfter]
  exact get_sweep_of_expires expiring isPast

omit [DecidableEq Buffer] in
theorem canRead_of_get_eq_none
    (isGone : holder.keys.get user = none)
    (viewer : User) :
    holder.canRead viewer user = false := by
  rw [canRead, isGone]

omit [DecidableEq Buffer] in
/-- What a holder promises for a run. -/
structure HolderLaws
    (crypto : Crypto)
    (run : Run User Buffer) : Prop where
  /-- A buffer that was taken is that of the person's key or holds zeros. -/
  zeroed : ∀ user buffer,
    (user, buffer) ∈ run.requests.filterMap (Request.taken crypto) →
      (∃ entry, (holderAfter crypto run.requests).keys.get user = some entry ∧
        entry.privateKey = buffer) ∨
          IsZero ((holderAfter crypto run.requests).memory buffer)
  /-- A pinned person's key and its bytes survive a drop and a sweep. -/
  survives : ∀ user ∈ (holderAfter crypto run.requests).pinned,
    ∀ request : Request User Buffer, request.removes →
      (perform crypto (holderAfter crypto run.requests) request).1.keys.get
          user = (holderAfter crypto run.requests).keys.get user ∧
        ∀ entry,
          (holderAfter crypto run.requests).keys.get user = some entry →
            (perform crypto (holderAfter crypto run.requests) request).1.memory
                entry.privateKey =
              (holderAfter crypto run.requests).memory entry.privateKey
  /-- A key that had expired when its pin ended is not readable after the next
  sweep. -/
  expired : ∀ before user later now,
    run.requests = unpinnedThenSwept before user later now →
      (∀ request ∈ later, ¬request.Revives user) →
        ∀ entry, (holderAfter crypto before).keys.get user = some entry →
          ∀ time, entry.expiresAt = some time → time ≤ now →
            ∀ viewer,
              (holderAfter crypto run.requests).canRead viewer user = false
  /-- A drop is ignored while a person is pinned, and otherwise ends the
  reading. -/
  dropped : ∀ user,
    (user ∈ (holderAfter crypto run.requests).pinned →
      (perform crypto (holderAfter crypto run.requests) (.drop user)).1 =
        holderAfter crypto run.requests) ∧
    (user ∉ (holderAfter crypto run.requests).pinned →
      ∀ viewer, (perform crypto (holderAfter crypto run.requests)
        (.drop user)).1.canRead viewer user = false)
  /-- Others read only with a key that they were granted since it was loaded,
  and that was not granted to others only. -/
  granted : ∀ viewer owner,
    (holderAfter crypto run.requests).canRead viewer owner = true →
      viewer = owner ∨ GrantedSince crypto run.requests viewer owner

/-- Every holder keeps its promise. -/
theorem holderLaws
    (crypto : Crypto)
    (run : Run User Buffer) :
    HolderLaws crypto run where
  zeroed := (sound_holderAfter run.own).zeros
  survives _ isPinned _ removes := survives run.own isPinned removes
  expired before user later now isRun noRevival entry isHeld time expires isPast
    viewer := by
    refine canRead_of_get_eq_none ?_ viewer
    rw [isRun]
    exact get_unpinnedThenSwept noRevival isHeld expires isPast
  dropped user := by
    rw [perform]
    refine ⟨fun isPinned => if_pos isPinned, fun notPinned viewer => ?_⟩
    dsimp only
    rw [if_neg notPinned]
    refine canRead_of_get_eq_none ?_ viewer
    rw [get_remove, if_pos rfl]
  granted viewer owner reads := by
    rw [canRead] at reads
    split at reads
    · rename_i entry isHeld
      rw [Bool.or_eq_true, decide_eq_true_iff, decide_eq_true_iff] at reads
      exact reads.imp_right (grantedSince_of_mem_grants isHeld)
    · cases reads

/-- A key that was dropped while it was pinned is not readable after the pin
ended and a sweep. -/
def ForgetsDropped (crypto : Crypto) : Prop :=
  ∀ (run : Run ℕ ℕ) before user between later now,
    run.requests =
      unpinnedThenSwept (before ++ .drop user :: between) user later now →
    user ∈ (holderAfter crypto before).pinned →
    (∀ request ∈ between ++ later, ¬request.Revives user) →
      ∀ viewer, (holderAfter crypto run.requests).canRead viewer user = false

/-- The bytes of a private key. -/
def nine : Bytes :=
  9 :: List.replicate 31 0

/-- The public key of nine. -/
def publicKeyOfNine : Bytes :=
  [66, 44, 142, 122, 98, 39, 215, 188, 161, 53, 11, 62, 43, 183, 39, 159, 120,
    151, 184, 123, 182, 133, 75, 120, 60, 96, 232, 3, 17, 174, 48, 121]

/-- A library for one key pair. -/
def cryptoOfNine : Crypto where
  sha256 _ :=
    [16, 142, 159, 129, 250, 121, 151, 165, 160, 181, 8, 129, 38, 138, 138, 254,
      248, 242, 33, 164, 217, 251, 208, 7, 27, 213, 81, 18, 201, 32, 199, 1]
  derivePublicKey _ := publicKeyOfNine

/-- A key that is loaded and pinned, dropped, unpinned and swept. -/
def droppedWhilePinned : Run ℕ ℕ where
  requests :=
    [.load 0 publicKeyOfNine 0 nine .never 0, .pin 0 true, .drop 0,
      .pin 0 false, .sweepExpired 60000]
  own := List.nodup_singleton 0

/-- A key that was dropped while it was pinned stays readable. -/
theorem dropped_key_stays :
    ¬ForgetsDropped cryptoOfNine := by
  intro forgets
  have unreadable := forgets droppedWhilePinned
    [.load 0 publicKeyOfNine 0 nine .never 0, .pin 0 true] 0 [] [] 60000 rfl
    (by decide +kernel) (fun request isRequest => nomatch isRequest) 0
  exact absurd unreadable (by decide +kernel)

end Frameleaf.LockedKeys
