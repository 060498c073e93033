import Frameleaf.LockedFormat.FormatLaws

namespace Frameleaf.LockedFormat

open ByteBuffer Outcome Windows

/-!
# An altered file is read as what was encrypted, or not at all

The list of recipients, the length of the information and the length of a file
are under no tag.  A file that opens with the key of another one has its
segments all the same: each is bound to its place, and the last one to being
the last.
-/

section Tampering

variable {crypto : Crypto} {request : Request} {forged privateKey : Bytes}
variable {header : ParsedHeader}

/-- What was ever sealed with keys that are derived from the key of a file was
sealed for that file. -/
def Request.SealsAlone (request : Request) (crypto : Crypto) : Prop :=
  ∀ sealed salt purpose, crypto.wasSealed sealed →
    sealed.key = crypto.hkdf request.fileKey.bytes salt purpose →
      request.Seals crypto sealed

theorem segmentAad_inj
    {first second : ℕ}
    {isLast isOtherLast : Bool}
    (firstFits : first < 2 ^ 64)
    (secondFits : second < 2 ^ 64)
    (same : segmentAad first isLast = segmentAad second isOtherLast) :
    first = second ∧ isLast = isOtherLast := by
  obtain ⟨samePlace, sameLast⟩ := List.append_inj same (by
    rw [length_writeUIntBE, length_writeUIntBE])
  have reads {place : ℕ} (fits : place < 2 ^ 64) :
      bigEndian (writeUIntBE 8 place) = place :=
    bigEndian_writeUIntBE fits
  constructor
  · rw [← reads firstFits, samePlace, reads secondFits]
  · cases isLast <;> cases isOtherLast <;> simp_all

theorem segmentCount_lt
    {plaintextLength : ℕ}
    (isSafe : plaintextLength ≤ MAX_SAFE_INTEGER) :
    segmentCount plaintextLength < 2 ^ 64 := by
  rw [MAX_SAFE_INTEGER] at isSafe
  rw [segmentCount, SEGMENT_SIZE]
  omega

/-- What was sealed at a place of a file is the segment there. -/
theorem plain_of_seals
    {key plain : Bytes}
    {place : ℕ}
    {isLast : Bool}
    (fits : place < 2 ^ 64)
    (seals : request.Seals crypto
      ⟨key, segmentNonce place, plain, segmentAad place isLast⟩) :
    plain = plainSegment request.plaintext place ∧
      isLast = decide (place = segmentCount request.plaintext.length - 1) := by
  generalize isSeal : (⟨key, segmentNonce place, plain,
    segmentAad place isLast⟩ : Seal) = sealed at seals
  have aadLength : sealed.aad.length = 9 := by
    rw [← isSeal, segmentAad, List.length_append, length_writeUIntBE]
    rfl
  cases seals with
  | wrap isRecipient =>
      rw [wrapSeal, wrapAad, List.length_append, crypto.length_publicKey]
        at aadLength
      omega
  | info =>
      nomatch aadLength
  | segment inFile =>
      rename_i index
      rw [Request.segmentSeal, Seal.mk.injEq] at isSeal
      obtain ⟨_, _, rfl, sameAad⟩ := isSeal
      obtain ⟨rfl, rfl⟩ := segmentAad_inj fits
        (inFile.trans (segmentCount_lt request.source.isSafe)) sameAad
      exact ⟨rfl, rfl⟩

/-- What was sealed as information of a file is its information. -/
theorem info_of_seals
    {key plain : Bytes}
    (seals : request.Seals crypto ⟨key, ZERO_NONCE, plain, []⟩) :
    plain = request.info.bytes := by
  generalize isSeal : (⟨key, ZERO_NONCE, plain, []⟩ : Seal) = sealed at seals
  have noAad : sealed.aad.length = 0 := by
    rw [← isSeal]
    rfl
  cases seals with
  | wrap isRecipient =>
      rw [wrapSeal, wrapAad, List.length_append, crypto.length_publicKey]
        at noAad
      omega
  | info =>
      rw [Request.infoSeal, Seal.mk.injEq] at isSeal
      exact isSeal.2.2.1
  | segment inFile =>
      rw [Request.segmentSeal, segmentAad, List.length_append] at noAad
      simp at noAad

/-- Where reading ends well, every segment has opened. -/
theorem opens_of_segmentsFrom
    {openSegment : ℕ → Result Bytes}
    {start stop left index place : ℕ}
    (endsWell : (segmentsFrom openSegment start stop left index).2 = none)
    (behind : index ≤ place)
    (before : place < index + left) :
    ∃ plain, openSegment place = .ok plain := by
  induction left generalizing index with
  | zero =>
      omega
  | succ left inductionHypothesis =>
      rw [segmentsFrom] at endsWell
      cases opened : openSegment index with
      | error failure =>
          rw [opened] at endsWell
          cases endsWell
      | ok plain =>
          by_cases isHere : place = index
          · exact ⟨plain, isHere ▸ opened⟩
          · rw [opened] at endsWell
            dsimp only at endsWell
            rw [apply_ite Prod.snd, ite_self] at endsWell
            exact inductionHypothesis endsWell (by omega) (by omega)

/-- A length that a file tells is one that the language can tell. -/
theorem isSafe_of_parseHeader
    (parsed : parseHeader forged = .ok header) :
    header.plaintextLength ≤ MAX_SAFE_INTEGER := by
  rw [parseHeader] at parsed
  obtain ⟨plaintextLength, told, parsed⟩ := bind_eq_ok.mp parsed
  have isSafe : plaintextLength ≤ MAX_SAFE_INTEGER := by
    rw [parsePrefix] at told
    split_ifs at told with _ _ _ tooLong _
    cases told
    exact Nat.le_of_not_lt tooLong
  dsimp only at parsed
  split_ifs at parsed
  cases parsed
  exact isSafe

/-- Segments that all open under the key of a file are those of the file. -/
theorem segments_of_file
    (alone : request.SealsAlone crypto)
    (isSafe : header.plaintextLength ≤ MAX_SAFE_INTEGER)
    (opens : ∀ place, place < segmentCount header.plaintextLength →
      ∃ plain, openSegment crypto forged header
        (crypto.hkdf request.fileKey.bytes header.saltPrefix "segment") place =
          .ok plain) :
    header.plaintextLength = request.plaintext.length ∧
      ∀ place, place < segmentCount request.plaintext.length →
        openSegment crypto forged header
          (crypto.hkdf request.fileKey.bytes header.saltPrefix "segment")
          place = .ok (plainSegment request.plaintext place) := by
  have isPlain {place : ℕ} {plain : Bytes}
      (inFile : place < segmentCount header.plaintextLength)
      (opened : openSegment crypto forged header
        (crypto.hkdf request.fileKey.bytes header.saltPrefix "segment") place =
          .ok plain) :
      plain = plainSegment request.plaintext place ∧
        decide (place = segmentCount header.plaintextLength - 1) =
          decide (place = segmentCount request.plaintext.length - 1) := by
    obtain ⟨_, wasSealed, _⟩ := openSegment_eq_ok.mp opened
    exact plain_of_seals (inFile.trans (segmentCount_lt isSafe))
      (alone _ _ _ wasSealed rfl)
  have lastIn := Nat.sub_lt (@segmentCount_pos header.plaintextLength)
    Nat.zero_lt_one
  obtain ⟨last, lastOpened⟩ := opens _ lastIn
  obtain ⟨lastPlain, isLast⟩ := isPlain lastIn lastOpened
  have sameCount : segmentCount header.plaintextLength =
      segmentCount request.plaintext.length := by
    have samePlace := of_decide_eq_true (isLast.symm.trans (decide_eq_true rfl))
    have := @segmentCount_pos header.plaintextLength
    have := @segmentCount_pos request.plaintext.length
    omega
  have sameLength : header.plaintextLength = request.plaintext.length := by
    have lastLength := (openSegment_eq_ok.mp lastOpened).1
    have headerFits := @le_segmentCount_mul header.plaintextLength
    have fileFits := @le_segmentCount_mul request.plaintext.length
    have headerReaches := @pred_segmentCount_mul_le header.plaintextLength
    have fileReaches := @pred_segmentCount_mul_le request.plaintext.length
    have isSplit : segmentCount request.plaintext.length * SEGMENT_SIZE =
        (segmentCount request.plaintext.length - 1) * SEGMENT_SIZE +
          SEGMENT_SIZE := by
      rw [← Nat.succ_mul, Nat.succ_eq_add_one,
        Nat.sub_add_cancel segmentCount_pos]
    rw [lastPlain, length_plainSegment, segmentPlainLength, segmentPlainLength,
      sameCount] at lastLength
    rw [sameCount] at headerFits headerReaches
    omega
  refine ⟨sameLength, fun place inFile => ?_⟩
  obtain ⟨plain, opened⟩ := opens place (sameCount ▸ inFile)
  rw [opened, (isPlain (sameCount ▸ inFile) opened).1]

/-- Information that opens under the key of a file is that of the file. -/
theorem info_of_file
    {info : Json.Json}
    (alone : request.SealsAlone crypto)
    (informed : openInfo crypto header request.fileKey.bytes = .ok info) :
    info = request.info.json := by
  rw [openInfo] at informed
  split at informed
  · cases informed
  · rename_i parsed
    obtain ⟨plain, unsealed, isInfo⟩ := Option.bind_eq_some_iff.mp parsed
    have isWritable : request.info.json.isWritable = true := rfl
    rw [info_of_seals (alone _ _ _ (unsealBytes_eq_some.mp unsealed).1 rfl),
      LockedFileInfo.bytes, Utf8.decode_encode, Json.parse_stringify isWritable]
      at isInfo
    cases informed
    exact (Option.some.inj isInfo).symm

theorem inRange_none
    (length : ℕ) :
    InRange length none := by
  intro start last told
  cases told

/-- A file that was verified has information and the length that its header
tells, and reading it ends well. -/
theorem opens_of_verifyFile
    {fileKey : Bytes}
    (parsed : parseHeader forged = .ok header)
    (unwrapped : unwrapFileKey crypto header privateKey = .ok fileKey)
    (verified : verifyFile crypto forged privateKey = .ok ()) :
    (∃ info, openInfo crypto header fileKey = .ok info) ∧
      assertFileLength forged header = .ok () ∧
      (segments crypto forged header fileKey 0
        (header.plaintextLength - 1)).2 = none := by
  obtain ⟨opened, isOpened, endsWell⟩ := bind_eq_ok.mp verified
  cases informed : openInfo crypto header fileKey with
  | error failure =>
      rw [openDecrypt, parsed, ok_bind, unwrapped] at isOpened
      dsimp only at isOpened
      rw [ok_bind, informed] at isOpened
      cases isOpened
  | ok info =>
      rw [openDecrypt_opened parsed unwrapped informed (inRange_none _)] at isOpened
      cases isOpened
      refine ⟨⟨info, rfl⟩, ?_, ?_⟩
      · cases isLong : assertFileLength forged header with
        | error failure =>
            rw [segments, isLong] at endsWell
            cases endsWell
        | ok _ =>
            rfl
      · cases failed : (segments crypto forged header fileKey 0
            (header.plaintextLength - 1)).2 with
        | none =>
            rfl
        | some failure =>
            dsimp only [Option.map_none, Option.getD_none] at endsWell
            rw [failed] at endsWell
            cases endsWell

/-- What a file that opens with the key of another one is read as. -/
structure TamperLaws (crypto : Crypto) (request : Request) : Prop where
  verified : ∀ forged privateKey header,
    request.SealsAlone crypto → parseHeader forged = .ok header →
    unwrapFileKey crypto header privateKey = .ok request.fileKey.bytes →
    verifyFile crypto forged privateKey = .ok () →
      ∃ chunks,
        openDecrypt crypto forged privateKey none =
          .ok ⟨(chunks, none), request.plaintext.length, request.info.json⟩ ∧
        chunks.flatten = request.plaintext

/-- A file in which anything was altered is read as the content that was
encrypted, with its information, or reading it fails. -/
theorem tamperLaws
    (crypto : Crypto)
    (request : Request) :
    TamperLaws crypto request where
  verified := by
    intro forged privateKey header alone parsed unwrapped verified
    obtain ⟨⟨info, informed⟩, isLong, ended⟩ :=
      opens_of_verifyFile parsed unwrapped verified
    rw [segments, isLong] at ended
    obtain ⟨told, opens⟩ := segments_of_file alone (isSafe_of_parseHeader parsed)
      fun place inFile => opens_of_segmentsFrom ended (by simp) (by
        rw [segmentCount, SEGMENT_SIZE] at inFile
        rw [SEGMENT_SIZE]
        omega)
    rw [info_of_file alone informed] at informed
    exact openDecrypt_eq parsed unwrapped informed isLong told opens
      (inRange_none _)

end Tampering

end Frameleaf.LockedFormat
