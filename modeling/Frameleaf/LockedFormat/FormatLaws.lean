import Frameleaf.Lib.JsonRoundTrip
import Frameleaf.LockedFormat.Format

namespace Frameleaf.LockedFormat

open ByteBuffer Outcome Windows

/-!
# Locked files are read as they were written

The header of a file is read as what was written before its segments, and each
recipient finds the key of the file.  What the segments open to decides what a
reader is handed, whatever range was asked for.
-/

section Sealing

variable {crypto : Crypto} {sealed : Seal}
variable {key nonce aad bytes plaintext : Bytes}

theorem length_sealBytes :
    (sealBytes crypto sealed).length = sealed.plaintext.length + TAG := by
  rw [sealBytes, List.length_append, crypto.length_ciphertext,
    crypto.length_tag]
  rfl

/-- What opens is what was sealed. -/
theorem unsealBytes_eq_some :
    unsealBytes crypto key nonce bytes aad = some plaintext ↔
      crypto.wasSealed ⟨key, nonce, plaintext, aad⟩ ∧
        sealBytes crypto ⟨key, nonce, plaintext, aad⟩ = bytes := by
  have length_sealed :=
    @length_sealBytes crypto ⟨key, nonce, plaintext, aad⟩
  rw [unsealBytes]
  split
  · rename_i short
    constructor
    · nofun
    · rintro ⟨_, rfl⟩
      omega
  · rename_i long
    rw [crypto.decrypts]
    refine and_congr_right fun _ => ⟨fun isEncrypted => ?_, ?_⟩
    · rw [sealBytes, isEncrypted]
      exact List.take_append_drop _ _
    · rintro rfl
      rw [length_sealed, Nat.add_sub_cancel, sealBytes,
        List.take_left' (crypto.length_ciphertext _),
        List.drop_left' (crypto.length_ciphertext _)]

/-- What was sealed opens. -/
theorem unsealBytes_sealBytes
    (wasSealed : crypto.wasSealed sealed) :
    unsealBytes crypto sealed.key sealed.nonce (sealBytes crypto sealed)
        sealed.aad = some sealed.plaintext :=
  unsealBytes_eq_some.mpr ⟨wasSealed, rfl⟩

end Sealing
/-! ## The content -/

section Segments

variable {openSegment : ℕ → Result Bytes} {plaintext : Bytes}
variable {start stop left index plaintextLength : ℕ}

theorem segmentCount_pos :
    0 < segmentCount plaintextLength :=
  Nat.lt_of_lt_of_le Nat.zero_lt_one (le_max_left _ _)

theorem le_segmentCount_mul :
    plaintextLength ≤ segmentCount plaintextLength * SEGMENT_SIZE := by
  rw [segmentCount, SEGMENT_SIZE]
  omega

theorem pred_segmentCount_mul_le :
    (segmentCount plaintextLength - 1) * SEGMENT_SIZE ≤ plaintextLength := by
  rw [segmentCount, SEGMENT_SIZE]
  omega

/-- A part of a segment is a part of the content. -/
theorem subarray_plainSegment
    {first behind : ℕ}
    (within : behind ≤ segmentPlainLength plaintext.length index) :
    subarray (plainSegment plaintext index) first behind =
      window plaintext (index * SEGMENT_SIZE + first) (behind - first) :=
  take_drop_window within

/-- A segment that opens adds its part to what is handed out. -/
theorem segmentsFrom_succ
    {plain : Bytes}
    {chunks : List Bytes}
    (opened : openSegment index = .ok plain)
    (rest : segmentsFrom openSegment start stop left (index + 1) =
      (chunks, none)) :
    ∃ handed,
      segmentsFrom openSegment start stop (left + 1) index = (handed, none) ∧
        handed.flatten = subarray plain (start - index * SEGMENT_SIZE)
          (if left = 0 then stop - index * SEGMENT_SIZE else plain.length) ++
            chunks.flatten := by
  rw [segmentsFrom, opened, rest]
  dsimp only
  generalize (if left = 0 then stop - index * SEGMENT_SIZE else plain.length) =
    behind
  split
  · exact ⟨_, rfl, List.flatten_cons⟩
  · rename_i nothing
    refine ⟨chunks, rfl, ?_⟩
    rw [subarray, List.drop_of_length_le ((List.length_take_le _ _).trans
      (Nat.le_of_not_lt nothing))]
    rfl

/-- Segments that open to the content are handed out as the content, from a
place in the first of them to a place in the last of them. -/
theorem segmentsFrom_eq
    (opens : ∀ place, index ≤ place → place < index + (left + 1) →
      openSegment place = .ok (plainSegment plaintext place))
    (startsIn : start < (index + 1) * SEGMENT_SIZE)
    (within : stop ≤ plaintext.length)
    (reaches : (index + left) * SEGMENT_SIZE ≤ stop)
    (endsIn : stop ≤ (index + left + 1) * SEGMENT_SIZE) :
    ∃ chunks,
      segmentsFrom openSegment start stop (left + 1) index = (chunks, none) ∧
        chunks.flatten = window plaintext
          (index * SEGMENT_SIZE + (start - index * SEGMENT_SIZE))
          (stop - index * SEGMENT_SIZE - (start - index * SEGMENT_SIZE)) := by
  induction left generalizing index start with
  | zero =>
      obtain ⟨chunks, handed, content⟩ :=
        @segmentsFrom_succ _ start stop 0 index _ _ (opens index le_rfl
          (by omega)) rfl
      refine ⟨chunks, handed, content.trans ?_⟩
      rw [if_pos rfl, List.flatten_nil, List.append_nil, subarray_plainSegment]
      rw [segmentPlainLength]
      rw [Nat.add_zero, Nat.succ_mul] at endsIn
      omega
  | succ left inductionHypothesis =>
      have nextReaches : (index + 1 + left) * SEGMENT_SIZE ≤ stop := by
        rwa [Nat.add_right_comm, Nat.add_assoc]
      have isFull : (index + 1) * SEGMENT_SIZE ≤ stop :=
        (Nat.mul_le_mul_right _ (Nat.le_add_right _ _)).trans nextReaches
      have nothingSkipped : start - (index + 1) * SEGMENT_SIZE = 0 :=
        Nat.sub_eq_zero_of_le startsIn.le
      obtain ⟨rest, handedRest, restContent⟩ := @inductionHypothesis start
        (index + 1) (fun place behind before => opens place (by omega)
          (by omega)) (startsIn.trans_le (Nat.mul_le_mul_right _ (by omega)))
        nextReaches (by rwa [Nat.add_right_comm index 1 left])
      obtain ⟨chunks, handed, content⟩ :=
        segmentsFrom_succ (opens index le_rfl (by omega)) handedRest
      refine ⟨chunks, handed, content.trans ?_⟩
      rw [Nat.succ_mul] at startsIn isFull restContent nothingSkipped
      have isWhole : SEGMENT_SIZE ≤ plaintext.length - index * SEGMENT_SIZE := by
        omega
      have plainLength : segmentPlainLength plaintext.length index =
          SEGMENT_SIZE :=
        Nat.min_eq_left isWhole
      have length_eq : (plainSegment plaintext index).length =
          SEGMENT_SIZE := by
        rw [plainSegment, plainLength, length_window]
        exact Nat.min_eq_left isWhole
      rw [if_neg (Nat.succ_ne_zero left), restContent, nothingSkipped,
        subarray_plainSegment (length_eq.trans plainLength.symm).le, length_eq,
        Nat.add_zero, Nat.sub_zero]
      have joined := @window_append_window _ plaintext
        (index * SEGMENT_SIZE + (start - index * SEGMENT_SIZE))
        (SEGMENT_SIZE - (start - index * SEGMENT_SIZE))
        (stop - (index * SEGMENT_SIZE + SEGMENT_SIZE))
      have meets : index * SEGMENT_SIZE + (start - index * SEGMENT_SIZE) +
          (SEGMENT_SIZE - (start - index * SEGMENT_SIZE)) =
            index * SEGMENT_SIZE + SEGMENT_SIZE := by omega
      have lengths : SEGMENT_SIZE - (start - index * SEGMENT_SIZE) +
          (stop - (index * SEGMENT_SIZE + SEGMENT_SIZE)) =
            stop - index * SEGMENT_SIZE - (start - index * SEGMENT_SIZE) := by
        omega
      rw [meets, lengths] at joined
      exact joined

/-- Between two places of the content lies what is handed out for them. -/
theorem stream_eq
    {start last : ℤ}
    (opens : ∀ place, place < segmentCount plaintext.length →
      openSegment place = .ok (plainSegment plaintext place))
    (ordered : start ≤ max 0 last)
    (isLast : -1 ≤ last)
    (within : last < plaintext.length) :
    ∃ chunks,
      segmentsFrom openSegment start.toNat (last + 1).toNat
          (last.toNat / SEGMENT_SIZE + 1 - start.toNat / SEGMENT_SIZE)
          (start.toNat / SEGMENT_SIZE) = (chunks, none) ∧
        chunks.flatten = window plaintext start.toNat
          ((last + 1).toNat - start.toNat) := by
  have segmentsOrdered := Nat.div_le_div_right
    (c := SEGMENT_SIZE) (show start.toNat ≤ last.toNat by omega)
  have lastIn : last.toNat / SEGMENT_SIZE <
      segmentCount plaintext.length := by
    rw [segmentCount, SEGMENT_SIZE]
    omega
  have firstPart := Nat.div_add_mod' start.toNat SEGMENT_SIZE
  have lastPart := Nat.div_add_mod' last.toNat SEGMENT_SIZE
  have firstMod := Nat.mod_lt start.toNat (show 0 < SEGMENT_SIZE by decide)
  have lastMod := Nat.mod_lt last.toNat (show 0 < SEGMENT_SIZE by decide)
  have isLastSegment : start.toNat / SEGMENT_SIZE +
      (last.toNat / SEGMENT_SIZE - start.toNat / SEGMENT_SIZE) =
        last.toNat / SEGMENT_SIZE := by omega
  obtain ⟨chunks, handed, content⟩ := @segmentsFrom_eq openSegment plaintext
    start.toNat (last + 1).toNat
    (last.toNat / SEGMENT_SIZE - start.toNat / SEGMENT_SIZE)
    (start.toNat / SEGMENT_SIZE)
    (fun place _ before => opens place (by omega))
    (by rw [Nat.succ_mul]; omega) (by omega)
    (by rw [isLastSegment]; omega)
    (by rw [isLastSegment, Nat.succ_mul]; omega)
  have counted : last.toNat / SEGMENT_SIZE + 1 - start.toNat / SEGMENT_SIZE =
      last.toNat / SEGMENT_SIZE - start.toNat / SEGMENT_SIZE + 1 := by omega
  have inFirst : start.toNat / SEGMENT_SIZE * SEGMENT_SIZE +
      (start.toNat - start.toNat / SEGMENT_SIZE * SEGMENT_SIZE) =
        start.toNat := by omega
  rw [Nat.sub_sub, inFirst] at content
  exact ⟨chunks, counted ▸ handed, content⟩

end Segments

/-- What a reader asks for. -/
def requested (plaintext : Bytes) : Option (ℤ × ℤ) → Bytes
  | none =>
      plaintext
  | some (start, last) =>
      subarray plaintext start.toNat (last + 1).toNat

/-- The content has what a reader asks for. -/
def InRange (plaintextLength : ℕ) (range : Option (ℤ × ℤ)) : Prop :=
  ∀ start last, range = some (start, last) →
    0 ≤ start ∧ start ≤ last ∧ last < plaintextLength

section Reading

variable {crypto : Crypto} {file privateKey fileKey plaintext : Bytes}
variable {header : ParsedHeader} {info : Json.Json}
variable {range : Option (ℤ × ℤ)}

/-- What a segment opens to was sealed as it, and is as long as the header
tells. -/
theorem openSegment_eq_ok
    {segmentKey plain : Bytes}
    {index : ℕ} :
    openSegment crypto file header segmentKey index = .ok plain ↔
      plain.length = segmentPlainLength header.plaintextLength index ∧
        crypto.wasSealed ⟨segmentKey, segmentNonce index, plain,
          segmentAad index
            (index = segmentCount header.plaintextLength - 1)⟩ ∧
        sealBytes crypto ⟨segmentKey, segmentNonce index, plain,
          segmentAad index
            (index = segmentCount header.plaintextLength - 1)⟩ =
          window file (header.headerLength + index * SEALED_SEGMENT)
            (segmentPlainLength header.plaintextLength index + TAG) := by
  rw [openSegment]
  split
  · rename_i short
    constructor
    · nofun
    · rintro ⟨isLong, _, isSealed⟩
      rw [← isSealed, length_sealBytes, isLong] at short
      exact absurd rfl short
  · rename_i whole
    rw [not_not] at whole
    split
    · rename_i refused
      constructor
      · nofun
      · rintro ⟨_, isSealed⟩
        rw [unsealBytes_eq_some.mpr isSealed] at refused
        nomatch refused
    · rename_i opened unsealed
      obtain ⟨wasSealed, isSealed⟩ := unsealBytes_eq_some.mp unsealed
      constructor
      · rintro ⟨⟩
        have length_eq := congrArg List.length isSealed
        rw [length_sealBytes, whole] at length_eq
        exact ⟨Nat.add_right_cancel length_eq, wasSealed, isSealed⟩
      · rintro ⟨_, isOther⟩
        rw [unsealBytes_eq_some.mpr isOther] at unsealed
        exact congrArg Except.ok (Option.some.inj unsealed).symm

/-- A file whose key is found and whose information opens is opened. -/
theorem openDecrypt_opened
    (parsed : parseHeader file = .ok header)
    (unwrapped : unwrapFileKey crypto header privateKey = .ok fileKey)
    (informed : openInfo crypto header fileKey = .ok info)
    (inRange : InRange header.plaintextLength range) :
    openDecrypt crypto file privateKey range =
      .ok ⟨segments crypto file header fileKey ((range.map Prod.fst).getD 0)
        ((range.map Prod.snd).getD (header.plaintextLength - 1)),
        header.plaintextLength, info⟩ := by
  rw [openDecrypt, parsed, ok_bind, unwrapped]
  dsimp only
  rw [ok_bind, informed]
  refine if_neg ?_
  rintro ⟨isSome, outside⟩
  obtain ⟨⟨start, last⟩, rfl⟩ := Option.isSome_iff_exists.mp isSome
  obtain ⟨fromStart, ordered, within⟩ := inRange start last rfl
  simp only [Option.map_some, Option.getD_some] at outside
  omega

/-- A file whose segments open to a content is read as that content. -/
theorem openDecrypt_eq
    (parsed : parseHeader file = .ok header)
    (unwrapped : unwrapFileKey crypto header privateKey = .ok fileKey)
    (informed : openInfo crypto header fileKey = .ok info)
    (isLong : assertFileLength file header = .ok ())
    (told : header.plaintextLength = plaintext.length)
    (opens : ∀ place, place < segmentCount plaintext.length →
      openSegment crypto file header
        (crypto.hkdf fileKey header.saltPrefix "segment") place =
          .ok (plainSegment plaintext place))
    (inRange : InRange plaintext.length range) :
    ∃ chunks,
      openDecrypt crypto file privateKey range =
          .ok ⟨(chunks, none), plaintext.length, info⟩ ∧
        chunks.flatten = requested plaintext range := by
  rw [openDecrypt_opened parsed unwrapped informed (told ▸ inRange), segments,
    isLong, told]
  dsimp only
  cases range with
  | none =>
      obtain ⟨chunks, handed, content⟩ := @stream_eq _ plaintext 0
        (plaintext.length - 1) opens (by omega) (by omega) (by omega)
      refine ⟨chunks, ?_, content.trans ?_⟩
      · exact congrArg (fun stream => Except.ok (Opened.mk stream _ _)) handed
      · rw [Int.sub_add_cancel]
        exact window_all
  | some bounds =>
      obtain ⟨start, last⟩ := bounds
      obtain ⟨fromStart, ordered, within⟩ := inRange start last rfl
      obtain ⟨chunks, handed, content⟩ := @stream_eq _ plaintext start
        last opens (by omega) (by omega) within
      refine ⟨chunks, ?_, content.trans ?_⟩
      · exact congrArg (fun stream => Except.ok (Opened.mk stream _ _)) handed
      · rw [requested, subarray, window, List.drop_take]

end Reading

/-! ## What is written -/

section Writing

variable {crypto : Crypto} {request : Request} {privateKey fileKey : Bytes}
variable {publicKey saltPrefix : Bytes} {recipients : List Bytes}
variable {draws : ℕ → Bytes} {entries : List ParsedRecipient}
variable {index : ℕ}

/-- A key agrees with a key that is drawn for it. -/
def Agrees (crypto : Crypto) (publicKey drawn : Bytes) : Prop :=
  publicKey.length = 32 ∧
    (crypto.diffieHellman drawn publicKey).all (· = 0) = false

/-- The first recipient whose identifier is the one of a key is that key. -/
def IsFirst
    (crypto : Crypto)
    (recipients : List Bytes)
    (publicKey : Bytes) : Prop :=
  recipients.find? (fun other =>
    (crypto.sha256 other).take KEY_ID_LENGTH =
      (crypto.sha256 publicKey).take KEY_ID_LENGTH) = some publicKey

theorem wrapFor_eq_ok
    {drawn : Bytes}
    {entry : ParsedRecipient} :
    wrapFor crypto saltPrefix fileKey publicKey drawn = .ok entry ↔
      Agrees crypto publicKey drawn ∧
        entry = entryFor crypto saltPrefix fileKey publicKey drawn := by
  rw [wrapFor, bind_eq_ok, keyId, sharedSecret, Agrees]
  by_cases isKey : publicKey.length = 32
  · simp only [isKey, ne_eq, not_true_eq_false, if_false]
    cases (crypto.diffieHellman drawn publicKey).all (· = 0) with
    | true =>
        simp
    | false =>
        simp [eq_comm, entryFor]
  · simp [isKey]

/-- The entries that are written are those of the recipients, in order. -/
theorem buildRecipients_eq_ok :
    buildRecipients crypto saltPrefix fileKey recipients draws = .ok entries ↔
      (0 < recipients.length ∧ recipients.length ≤ 255) ∧
        (∀ entry ∈ recipients.zipIdx,
          Agrees crypto entry.1 (draws entry.2)) ∧
        entries = recipients.zipIdx.map fun entry =>
          entryFor crypto saltPrefix fileKey entry.1 (draws entry.2) := by
  rw [buildRecipients]
  split
  · rename_i refused
    constructor
    · nofun
    · rintro ⟨⟨some, few⟩, _⟩
      omega
  · rename_i accepted
    have counted : 0 < recipients.length ∧ recipients.length ≤ 255 := by omega
    rw [mapM_eq_ok fun entry result => wrapFor_eq_ok]
    exact (and_iff_right counted).symm

/-- The entry that is found for a key is the one written for it. -/
theorem find_entry
    (isFirst : IsFirst crypto recipients publicKey) :
    ∃ index, (publicKey, index) ∈ recipients.zipIdx ∧
      (recipients.zipIdx.map fun entry =>
        entryFor crypto saltPrefix fileKey entry.1 (draws entry.2)).find?
          (fun entry => entry.keyId =
            (crypto.sha256 publicKey).take KEY_ID_LENGTH) =
        some (entryFor crypto saltPrefix fileKey publicKey (draws index)) := by
  rw [IsFirst, ← List.zipIdx_map_fst 0 recipients, List.find?_map,
    Option.map_eq_some_iff] at isFirst
  obtain ⟨⟨_, index⟩, found, rfl⟩ := isFirst
  refine ⟨index, List.mem_of_find?_eq_some found, ?_⟩
  rw [List.find?_map, Option.map_eq_some_iff]
  exact ⟨_, found, rfl⟩

/-- A key that is the first with its identifier finds the key of the file. -/
theorem unwrapFileKey_entries
    {header : ParsedHeader}
    (isKey : privateKey.length = 32)
    (isFirst : IsFirst crypto recipients (crypto.publicKey privateKey))
    (agree : ∀ entry ∈ recipients.zipIdx, Agrees crypto entry.1 (draws entry.2))
    (isSalt : header.saltPrefix = saltPrefix)
    (areEntries : header.recipients = recipients.zipIdx.map fun entry =>
      entryFor crypto saltPrefix fileKey entry.1 (draws entry.2))
    (wereSealed : ∀ entry ∈ recipients.zipIdx, crypto.wasSealed
      (wrapSeal crypto saltPrefix fileKey entry.1 (draws entry.2))) :
    unwrapFileKey crypto header privateKey = .ok fileKey := by
  obtain ⟨index, isEntry, found⟩ :=
    @find_entry crypto fileKey _ saltPrefix recipients draws isFirst
  have secret : sharedSecret crypto privateKey
      (crypto.publicKey (draws index)) = .ok (crypto.diffieHellman
        (draws index) (crypto.publicKey privateKey)) := by
    rw [sharedSecret, if_neg (not_not.mpr (crypto.length_publicKey _)),
      crypto.agrees, (agree _ isEntry).2]
    rfl
  have opened := unsealBytes_sealBytes (wereSealed _ isEntry)
  rw [unwrapFileKey, publicKeyFromPrivate, if_neg (not_not.mpr isKey), ok_bind,
    keyId, if_neg (not_not.mpr (crypto.length_publicKey _)), ok_bind,
    areEntries, found]
  dsimp only [entryFor]
  rw [secret, isSalt]
  dsimp only [wrapSeal] at opened ⊢
  rw [opened]

/-- A key whose identifier is the one of no recipient is refused. -/
theorem unwrapFileKey_stranger
    {header : ParsedHeader}
    (isKey : privateKey.length = 32)
    (isStranger : ∀ entry ∈ header.recipients, entry.keyId ≠
      (crypto.sha256 (crypto.publicKey privateKey)).take KEY_ID_LENGTH) :
    unwrapFileKey crypto header privateKey = .error
      (.wrongSecret "This key is not a recipient of the locked file") := by
  have missing : header.recipients.find? (fun entry => entry.keyId =
      (crypto.sha256 (crypto.publicKey privateKey)).take KEY_ID_LENGTH) =
        none := by
    rw [List.find?_eq_none]
    exact fun entry isEntry =>
      decide_eq_true_iff.not.mpr (isStranger entry isEntry)
  rw [unwrapFileKey, publicKeyFromPrivate, if_neg (not_not.mpr isKey), ok_bind,
    keyId, if_neg (not_not.mpr (crypto.length_publicKey _)), ok_bind, missing]


end Writing

section Files

variable {crypto : Crypto} {request : Request} {index : ℕ}
variable {privateKey : Bytes}

/-- The entries of a file. -/
def Request.entries (request : Request) (crypto : Crypto) :
    List ParsedRecipient :=
  request.recipients.zipIdx.map fun entry =>
    entryFor crypto request.saltPrefix request.fileKey.bytes entry.1
      (request.draws entry.2)

/-- What stands before the segments of a file. -/
def Request.headerBytes (request : Request) (crypto : Crypto) : Bytes :=
  request.saltPrefix ++ listBytes (request.entries crypto) ++
    infoRecord (request.infoCiphertext crypto)

/-- The header of a file. -/
def Request.header (request : Request) (crypto : Crypto) : ParsedHeader where
  plaintextLength := request.plaintext.length
  headerLength := (request.headerBytes crypto).length
  saltPrefix := request.saltPrefix
  recipients := request.entries crypto
  infoRecord := infoRecord (request.infoCiphertext crypto)
  infoCiphertext := request.infoCiphertext crypto

/-- What a file can be encrypted for. -/
structure Request.Accepted (request : Request) (crypto : Crypto) : Prop where
  counted : 0 < request.recipients.length ∧ request.recipients.length ≤ 255
  agree : ∀ entry ∈ request.recipients.zipIdx,
    Agrees crypto entry.1 (request.draws entry.2)
  infoFits : (request.infoCiphertext crypto).length ≤ MAX_INFO_LENGTH

/-- What is accepted is encrypted, and nothing else is. -/
theorem encryptFile_eq_ok
    {file : Bytes} :
    encryptFile crypto request = .ok file ↔
      request.Accepted crypto ∧ file = request.headerBytes crypto ++
        (request.sealedSegments crypto).flatten := by
  rw [encryptFile, bind_eq_ok]
  simp only [buildRecipients_eq_ok]
  constructor
  · rintro ⟨_, ⟨counted, agree, rfl⟩, encrypted⟩
    split at encrypted
    · nomatch encrypted
    · rename_i fits
      cases encrypted
      exact ⟨⟨counted, agree, Nat.le_of_not_lt fits⟩, rfl⟩
  · rintro ⟨accepted, rfl⟩
    exact ⟨_, ⟨accepted.counted, accepted.agree, rfl⟩,
      if_neg accepted.infoFits.not_gt⟩

theorem length_plainSegment
    {plaintext : Bytes} :
    (plainSegment plaintext index).length =
      segmentPlainLength plaintext.length index := by
  rw [plainSegment, length_window, segmentPlainLength]
  omega

theorem length_sealedSegment :
    (sealBytes crypto (request.segmentSeal crypto index)).length =
      segmentPlainLength request.plaintext.length index + TAG :=
  length_sealBytes.trans (congrArg (· + TAG) length_plainSegment)

/-- The sealed segments are as long as the content with a tag for each. -/
theorem length_sealedSegments :
    (request.sealedSegments crypto).flatten.length =
      request.plaintext.length +
        segmentCount request.plaintext.length * TAG := by
  have upTo (count : ℕ) : ((List.range count).map fun index =>
      sealBytes crypto (request.segmentSeal crypto index)).flatten.length =
        min (count * SEGMENT_SIZE) request.plaintext.length +
          count * TAG := by
    induction count with
    | zero =>
        simp
    | succ count inductionHypothesis =>
        rw [List.range_succ, List.map_append, List.flatten_append,
          List.length_append, inductionHypothesis, List.map_singleton,
          List.flatten_singleton, length_sealedSegment, segmentPlainLength,
          Nat.succ_mul, Nat.succ_mul]
        omega
  rw [Request.sealedSegments, upTo, Nat.min_eq_right le_segmentCount_mul]

/-- The window of a segment holds it as it was sealed. -/
theorem window_sealedSegments
    (inFile : index < segmentCount request.plaintext.length) :
    window (request.sealedSegments crypto).flatten (index * SEALED_SEGMENT)
        (segmentPlainLength request.plaintext.length index + TAG) =
      sealBytes crypto (request.segmentSeal crypto index) := by
  have inBlocks : index < (request.sealedSegments crypto).length := by
    rwa [Request.sealedSegments, List.length_map, List.length_range]
  have block : (request.sealedSegments crypto)[index] =
      sealBytes crypto (request.segmentSeal crypto index) := by
    simp only [Request.sealedSegments, List.getElem_map, List.getElem_range]
  have sized : ∀ sealed ∈ (request.sealedSegments crypto).take index,
      sealed.length = SEALED_SEGMENT := by
    rw [Request.sealedSegments, ← List.map_take, List.forall_mem_map,
      List.take_range]
    intro place isBefore
    rw [List.mem_range, Nat.lt_min] at isBefore
    have full : (place + 1) * SEGMENT_SIZE ≤ request.plaintext.length :=
      (Nat.mul_le_mul_right _ (by omega)).trans pred_segmentCount_mul_le
    rw [length_sealedSegment, segmentPlainLength, SEALED_SEGMENT]
    rw [Nat.succ_mul] at full
    omega
  have isWindow := window_flatten inBlocks sized
  rwa [block, length_sealedSegment] at isWindow

/-- The prefix of a file tells how long its content is. -/
theorem parsePrefix_saltPrefix
    (count : UInt8) :
    parsePrefix (request.saltPrefix ++ [count]) =
      .ok request.plaintext.length := by
  have isSafe : request.plaintext.length ≤ MAX_SAFE_INTEGER :=
    request.source.isSafe
  rw [Request.saltPrefix]
  generalize request.plaintext.length = plaintextLength at *
  let start := MAGIC ++ [VERSION, 0] ++ writeUIntBE 8 plaintextLength
  have startLength : start.length = 14 := by
    simp only [start, List.length_append, length_writeUIntBE]
    rfl
  have told : window (buildPrefix plaintextLength ++ [count]) 6 8 =
      writeUIntBE 8 plaintextLength := by
    have isWindow := @window_append_left _ start
      (writeUIntBE 4 SEGMENT_SIZE ++ [count]) 6 8 startLength.ge
    rw [← List.append_assoc] at isWindow
    exact isWindow.trans <| List.take_of_length_le
      (length_writeUIntBE 8 plaintextLength).le
  have size : window (buildPrefix plaintextLength ++ [count]) 14 4 =
      writeUIntBE 4 SEGMENT_SIZE := by
    have isWindow := @window_append_right _ start
      (writeUIntBE 4 SEGMENT_SIZE ++ [count]) 14 4 0 startLength
    rw [← List.append_assoc] at isWindow
    exact isWindow
  have isLong : (buildPrefix plaintextLength ++ [count]).length =
      PREFIX_LENGTH + 1 := by
    simp only [buildPrefix, List.length_append, length_writeUIntBE]
    rfl
  rw [parsePrefix, told, size, isLong,
    bigEndian_writeUIntBE (isSafe.trans_lt (by decide)),
    bigEndian_writeUIntBE (by decide), if_neg (by
      rw [not_or]
      exact ⟨lt_irrefl _, not_not.mpr rfl⟩)]
  exact (if_neg (not_not.mpr rfl)).trans <|
    (if_neg (not_not.mpr rfl)).trans <|
    (if_neg isSafe.not_gt).trans (if_neg (not_not.mpr rfl))

theorem length_saltPrefix :
    request.saltPrefix.length = PREFIX_LENGTH := by
  simp only [Request.saltPrefix, buildPrefix, List.length_append,
    length_writeUIntBE]
  rfl

/-- The entries of a file have one length, and are read as they were. -/
theorem parseRecipient_entry
    {entry : ParsedRecipient}
    (isEntry : entry ∈ request.entries crypto) :
    entry.bytes.length = RECIPIENT_LENGTH ∧
      parseRecipient entry.bytes = entry := by
  obtain ⟨recipient, _, rfl⟩ := List.mem_map.mp isEntry
  generalize request.draws recipient.2 = drawn
  have idLength : ((crypto.sha256 recipient.1).take KEY_ID_LENGTH).length =
      8 := by
    rw [List.length_take, crypto.length_sha256]
    rfl
  have keyLength := crypto.length_publicKey drawn
  have bothLength : ((crypto.sha256 recipient.1).take KEY_ID_LENGTH ++
      crypto.publicKey drawn).length = 40 := by
    rw [List.length_append, idLength, keyLength]
  constructor
  · rw [ParsedRecipient.bytes, entryFor, List.length_append, bothLength,
      length_sealBytes]
    exact congrArg (fun length => 40 + (length + TAG)) request.fileKey.isKey
  · rw [ParsedRecipient.bytes, parseRecipient, entryFor,
      ParsedRecipient.mk.injEq]
    refine ⟨?_, ?_, List.drop_left' bothLength⟩
    · rw [List.append_assoc, List.take_left' idLength]
    · rw [List.append_assoc, List.drop_left' idLength,
        List.take_left' keyLength]

/-- The list of a file is read entry by entry. -/
theorem parse_entries
    (back : Bytes) :
    ((List.range request.recipients.length).map fun index => parseRecipient
        (window ((request.entries crypto).flatMap ParsedRecipient.bytes ++ back)
          (index * RECIPIENT_LENGTH) RECIPIENT_LENGTH)) =
      request.entries crypto := by
  have windows := @windows_flatten _ back RECIPIENT_LENGTH
    ((request.entries crypto).map ParsedRecipient.bytes) (by
      rw [List.forall_mem_map]
      exact fun entry isEntry => (parseRecipient_entry isEntry).1)
  have parsed := congrArg (List.map parseRecipient) windows
  rw [List.map_map, List.map_map, List.length_map, Request.entries,
    List.length_map, List.length_zipIdx] at parsed
  refine parsed.trans (Eq.trans (List.map_congr_left ?_) (List.map_id _))
  exact fun entry isEntry => (parseRecipient_entry isEntry).2

theorem length_entries :
    ((request.entries crypto).flatMap ParsedRecipient.bytes).length =
      request.recipients.length * RECIPIENT_LENGTH := by
  rw [List.length_flatMap, List.map_congr_left fun entry isEntry =>
    (parseRecipient_entry isEntry).1, List.map_const', List.sum_replicate_nat,
    Request.entries, List.length_map, List.length_zipIdx]

/-- A file is read with the header that it was written with. -/
theorem parseHeader_file
    (accepted : request.Accepted crypto)
    (body : Bytes) :
    parseHeader (request.headerBytes crypto ++ body) =
      .ok (request.header crypto) := by
  let count := UInt8.ofNat request.recipients.length
  let list := (request.entries crypto).flatMap ParsedRecipient.bytes
  let cipher := request.infoCiphertext crypto
  let told := writeUIntBE 4 cipher.length
  have isEntries : (request.entries crypto).length =
      request.recipients.length := by
    rw [Request.entries, List.length_map, List.length_zipIdx]
  have counted : count.toNat = request.recipients.length := by
    rw [UInt8.toNat_ofNat']
    exact Nat.mod_eq_of_lt (Nat.lt_succ_of_le accepted.counted.2)
  have fixedLength : (request.saltPrefix ++ [count]).length = 19 := by
    rw [List.length_append, length_saltPrefix]
    rfl
  have restLength : (list ++ told).length = list.length + 4 := by
    rw [List.length_append, length_writeUIntBE]
  have fileEq : request.headerBytes crypto ++ body =
      (request.saltPrefix ++ [count]) ++
        ((list ++ told) ++ (cipher ++ body)) := by
    simp only [Request.headerBytes, listBytes, infoRecord, isEntries,
      List.append_assoc, List.cons_append, List.nil_append, count, list, told,
      cipher]
  have fixed : window (request.headerBytes crypto ++ body) 0
      (PREFIX_LENGTH + 1) = request.saltPrefix ++ [count] := by
    rw [fileEq]
    exact List.take_left' fixedLength
  have rest : window (request.headerBytes crypto ++ body) (PREFIX_LENGTH + 1)
      (list.length + 4) = list ++ told := by
    rw [fileEq]
    exact window_append_append fixedLength restLength
  have info : window (request.headerBytes crypto ++ body)
      (PREFIX_LENGTH + 1 + list.length + 4) cipher.length = cipher := by
    rw [fileEq, ← List.append_assoc]
    refine window_append_append ?_ rfl
    rw [List.length_append, fixedLength, restLength]
    rfl
  have toldAt : bigEndian (window (list ++ told) list.length 4) =
      cipher.length := by
    rw [window, List.drop_left,
      List.take_of_length_le (length_writeUIntBE _ _).le]
    exact bigEndian_writeUIntBE (accepted.infoFits.trans_lt (by decide))
  have countAt : (request.saltPrefix ++ [count]).getD PREFIX_LENGTH 0 =
      count := by
    rw [List.getD_eq_getElem?_getD, List.getElem?_append_right
      length_saltPrefix.le, length_saltPrefix]
    rfl
  have infoTag : ¬ (cipher.length < TAG ∨ MAX_INFO_LENGTH < cipher.length) := by
    rw [not_or]
    exact ⟨(length_sealBytes.ge.trans' (Nat.le_add_left _ _)).not_gt,
      accepted.infoFits.not_gt⟩
  have headerLength : (request.headerBytes crypto).length =
      PREFIX_LENGTH + 1 + list.length + 4 + cipher.length := by
    simp only [Request.headerBytes, List.length_append, length_saltPrefix,
      listBytes, List.length_cons, infoRecord, length_writeUIntBE, list, cipher]
    omega
  rw [parseHeader, fixed, parsePrefix_saltPrefix, ok_bind]
  dsimp only
  rw [countAt, counted,
    if_neg (Nat.pos_iff_ne_zero.mp accepted.counted.1), ← length_entries, rest,
    if_neg restLength.ge.not_gt, toldAt, if_neg infoTag, info,
    if_neg (lt_irrefl _), List.take_left' length_saltPrefix, length_entries,
    parse_entries, ← length_entries, List.drop_left, ← headerLength]
  rfl

/-- A segment of a file opens to what was sealed as it. -/
theorem openSegment_file
    (inFile : index < segmentCount request.plaintext.length)
    (wasSealed : crypto.wasSealed (request.segmentSeal crypto index)) :
    openSegment crypto
        (request.headerBytes crypto ++ (request.sealedSegments crypto).flatten)
        (request.header crypto)
        (crypto.hkdf request.fileKey.bytes request.saltPrefix "segment")
        index = .ok (plainSegment request.plaintext index) :=
  openSegment_eq_ok.mpr ⟨length_plainSegment, wasSealed,
    ((window_append_right rfl).trans (window_sealedSegments inFile)).symm⟩

/-- The information of a file reads as it was written. -/
theorem openInfo_file
    (wasSealed : crypto.wasSealed (request.infoSeal crypto)) :
    openInfo crypto (request.header crypto) request.fileKey.bytes =
      .ok request.info.json := by
  have opened := unsealBytes_sealBytes wasSealed
  have isWritable : request.info.json.isWritable = true := rfl
  rw [openInfo]
  dsimp only [Request.header, Request.infoCiphertext, Request.infoSeal]
    at opened ⊢
  rw [opened, Option.bind_some, LockedFileInfo.bytes, Utf8.decode_encode,
    Json.parse_stringify isWritable]

theorem assertFileLength_file :
    assertFileLength
        (request.headerBytes crypto ++ (request.sealedSegments crypto).flatten)
        (request.header crypto) = .ok () := by
  refine if_neg (not_not.mpr ?_)
  rw [List.length_append, length_sealedSegments, ← Nat.add_assoc]
  rfl

/-- What was sealed for a file decrypts, and a key is that of the first of its
recipients with the identifier of the key. -/
structure Request.Opens
    (request : Request)
    (crypto : Crypto)
    (privateKey : Bytes) : Prop where
  wereSealed : ∀ sealed, request.Seals crypto sealed → crypto.wasSealed sealed
  isKey : privateKey.length = 32
  isFirst : IsFirst crypto request.recipients (crypto.publicKey privateKey)

/-- No recipient of a file has the identifier of a key. -/
structure Request.IsStranger
    (request : Request)
    (crypto : Crypto)
    (privateKey : Bytes) : Prop where
  isKey : privateKey.length = 32
  differs : ∀ recipient ∈ request.recipients,
    (crypto.sha256 recipient).take KEY_ID_LENGTH ≠
      (crypto.sha256 (crypto.publicKey privateKey)).take KEY_ID_LENGTH

/-- What files are encrypted for, and what every recipient reads. -/
structure RoundTripLaws (crypto : Crypto) (request : Request) : Prop where
  encrypts : (∃ file, encryptFile crypto request = .ok file) ↔
    request.Accepted crypto
  reads : ∀ file privateKey range, encryptFile crypto request = .ok file →
    request.Opens crypto privateKey → InRange request.plaintext.length range →
      ∃ chunks,
        openDecrypt crypto file privateKey range =
          .ok ⟨(chunks, none), request.plaintext.length, request.info.json⟩ ∧
        chunks.flatten = requested request.plaintext range
  refuses : ∀ file privateKey, encryptFile crypto request = .ok file →
    request.IsStranger crypto privateKey →
      openDecrypt crypto file privateKey none = .error
        (.wrongSecret "This key is not a recipient of the locked file")

theorem Request.Opens.unwraps
    (opens : request.Opens crypto privateKey)
    (accepted : request.Accepted crypto) :
    unwrapFileKey crypto (request.header crypto) privateKey =
      .ok request.fileKey.bytes :=
  unwrapFileKey_entries opens.isKey opens.isFirst accepted.agree rfl rfl
    fun _ isEntry => opens.wereSealed _ (.wrap isEntry)

/-- A recipient that is the first with its identifier reads the content. -/
theorem Request.Opens.reads
    {file : Bytes}
    {range : Option (ℤ × ℤ)}
    (opens : request.Opens crypto privateKey)
    (encrypted : encryptFile crypto request = .ok file)
    (inRange : InRange request.plaintext.length range) :
    ∃ chunks,
      openDecrypt crypto file privateKey range =
          .ok ⟨(chunks, none), request.plaintext.length, request.info.json⟩ ∧
        chunks.flatten = requested request.plaintext range := by
  obtain ⟨accepted, rfl⟩ := encryptFile_eq_ok.mp encrypted
  exact openDecrypt_eq (parseHeader_file accepted _) (opens.unwraps accepted)
    (openInfo_file (opens.wereSealed _ .info)) assertFileLength_file rfl
    (fun place inFile => openSegment_file inFile
      (opens.wereSealed _ (.segment inFile))) inRange

/-- A stranger is told that it is one. -/
theorem Request.IsStranger.refused
    {file : Bytes}
    (isStranger : request.IsStranger crypto privateKey)
    (encrypted : encryptFile crypto request = .ok file) :
    openDecrypt crypto file privateKey none = .error
      (.wrongSecret "This key is not a recipient of the locked file") := by
  obtain ⟨accepted, rfl⟩ := encryptFile_eq_ok.mp encrypted
  have refused := @unwrapFileKey_stranger crypto privateKey
    (request.header crypto) isStranger.isKey (by
      rw [Request.header, Request.entries, List.forall_mem_map]
      exact fun entry isEntry =>
        isStranger.differs _ (List.fst_mem_of_mem_zipIdx isEntry))
  rw [openDecrypt, parseHeader_file accepted, ok_bind, refused]
  exact if_neg fun isRange => nomatch isRange.1

/-- Cryptography that keeps its promises, and hides nothing. -/
def plainCrypto : Crypto where
  encrypt sealed := (sealed.plaintext, List.replicate 16 0)
  decrypt _ _ _ ciphertext tag :=
    if tag = List.replicate 16 0 then some ciphertext else none
  hkdf key _ _ := key
  publicKey _ := List.replicate 32 9
  diffieHellman _ _ := [1]
  sha256 _ := List.replicate 32 0
  wasSealed _ := True
  decrypts key nonce plaintext aad ciphertext tag := by
    simp [eq_comm, and_comm]
  length_ciphertext _ := rfl
  length_tag _ := rfl
  agrees _ _ := rfl
  length_publicKey _ := rfl
  length_sha256 _ := rfl

/-- An empty file for one recipient. -/
def emptyFile : Request where
  source := ⟨[], Nat.zero_le _⟩
  recipients := [List.replicate 32 9]
  info := ⟨"", "original", "", ""⟩
  fileKey := ⟨List.replicate 32 7, rfl⟩
  draws _ := List.replicate 32 5

/-- The same file, for other recipients. -/
def Request.forRecipients
    (request : Request)
    (recipients : List Bytes)
    (draws : ℕ → Bytes) : Request :=
  { request with recipients, draws }

/-- Copying what follows a header copies all of it. -/
theorem copiedSegments_eq
    {file : Bytes}
    {header : ParsedHeader}
    (isLong : file.length = expectedFileLength header) :
    (copiedSegments file header).flatten = file.drop header.headerLength := by
  have body : (file.drop header.headerLength).length =
      expectedFileLength header - header.headerLength := by
    rw [List.length_drop, isLong]
  have windows : copiedSegments file header =
      (List.range ((expectedFileLength header - header.headerLength +
        COPY_CHUNK - 1) / COPY_CHUNK)).map fun chunk =>
          window (file.drop header.headerLength) (chunk * COPY_CHUNK)
            COPY_CHUNK := by
    refine List.map_congr_left fun chunk _ => ?_
    rw [window, window, List.drop_drop, ← body, ← List.length_drop,
      List.drop_drop, ← List.take_eq_take_min]
  rw [windows, flatten_windows]
  refine List.take_of_length_le (body.trans_le ?_)
  rw [COPY_CHUNK, SEALED_SEGMENT, SEGMENT_SIZE, TAG]
  omega

/-- A file that is rewrapped is the one that would have been encrypted for the
other recipients. -/
theorem rewrapFile_eq
    {file : Bytes}
    {recipients : List Bytes}
    {draws : ℕ → Bytes}
    (encrypted : encryptFile crypto request = .ok file)
    (opens : request.Opens crypto privateKey) :
    rewrapFile crypto file privateKey recipients draws =
      encryptFile crypto (request.forRecipients recipients draws) := by
  obtain ⟨accepted, rfl⟩ := encryptFile_eq_ok.mp encrypted
  have isLong := not_not.mp fun isOther => nomatch
    (if_pos isOther).symm.trans (@assertFileLength_file crypto request)
  have copied := @copiedSegments_eq (request.headerBytes crypto ++
    (request.sealedSegments crypto).flatten) (request.header crypto) isLong
  rw [rewrapFile, parseHeader_file accepted, ok_bind, assertFileLength_file,
    ok_bind, opens.unwraps accepted, ok_bind,
    openInfo_file (opens.wereSealed _ .info), ok_bind, copied]
  refine Eq.trans (congrArg _ (funext fun entries => ?_)) rfl
  exact congrArg Except.ok (congrArg (_ ++ ·) List.drop_left) |>.trans
    (if_neg accepted.infoFits.not_gt).symm

/-- Files that are made of an encrypted file by rewrapping, each by a key that
opens the one before it. -/
inductive Rewrapped
    (crypto : Crypto)
    (request : Request) : Request → Bytes → Prop where
  | encrypted
      {file : Bytes}
      (written : encryptFile crypto request = .ok file) :
      Rewrapped crypto request request file
  | rewrapped
      {current : Request}
      {before after privateKey : Bytes}
      {recipients : List Bytes}
      {draws : ℕ → Bytes}
      (earlier : Rewrapped crypto request current before)
      (opens : current.Opens crypto privateKey)
      (done : rewrapFile crypto before privateKey recipients draws =
        .ok after) :
      Rewrapped crypto request (current.forRecipients recipients draws) after

/-- A file that is rewrapped any number of times is the one that would have
been encrypted for the last recipients. -/
theorem Rewrapped.encrypts
    {current : Request}
    {file : Bytes}
    (rewrapped : Rewrapped crypto request current file) :
    encryptFile crypto current = .ok file ∧
      ∃ recipients draws,
        current = request.forRecipients recipients draws := by
  induction rewrapped with
  | encrypted written =>
      exact ⟨written, _, _, rfl⟩
  | rewrapped earlier opens done inductionHypothesis =>
      obtain ⟨written, _, _, rfl⟩ := inductionHypothesis
      rw [rewrapFile_eq written opens] at done
      exact ⟨done, _, _, rfl⟩

/-- What rewrapping leaves as it was, however often it is done. -/
structure RewrapLaws (crypto : Crypto) (request : Request) : Prop where
  sameContent : ∀ current file, Rewrapped crypto request current file →
    parseHeader file = .ok (current.header crypto) ∧
      (current.header crypto).infoRecord =
        (request.header crypto).infoRecord ∧
      file.drop (current.header crypto).headerLength =
        (request.sealedSegments crypto).flatten
  reads : ∀ current file privateKey range,
    Rewrapped crypto request current file →
    current.Opens crypto privateKey → InRange request.plaintext.length range →
      ∃ chunks,
        openDecrypt crypto file privateKey range =
          .ok ⟨(chunks, none), request.plaintext.length, request.info.json⟩ ∧
        chunks.flatten = requested request.plaintext range
  refuses : ∀ current file privateKey,
    Rewrapped crypto request current file →
    current.IsStranger crypto privateKey →
      openDecrypt crypto file privateKey none = .error
        (.wrongSecret "This key is not a recipient of the locked file")

end Files

end Frameleaf.LockedFormat
