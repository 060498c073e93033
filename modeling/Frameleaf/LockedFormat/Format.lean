import Frameleaf.Lib.ByteBuffer
import Frameleaf.Lib.JsonText
import Frameleaf.Lib.Windows
import Mathlib.Data.Int.Notation

namespace Frameleaf.LockedFormat

open ByteBuffer Windows

/-!
# The format of a locked file

A locked file starts with a prefix, the list of those who may open it and what
it is a file of; the content follows in segments, each sealed by itself.  The
prefix salts every key of the file.  The cryptography of the platform is what
the format relies on: its functions are given, with what they promise.
-/

/-- Something that is sealed: its bytes, and what they are sealed with. -/
structure Seal where
  key : Bytes
  nonce : Bytes
  plaintext : Bytes
  aad : Bytes

/-- The cryptography of the platform, with what it promises: what decrypts is
what was sealed with the same key, nonce and additional data, and both sides of
an agreement come to one secret. -/
structure Crypto where
  /-- AES-256-GCM: the ciphertext and its tag. -/
  encrypt : Seal → Bytes × Bytes
  decrypt : (key nonce aad ciphertext tag : Bytes) → Option Bytes
  hkdf : (key salt : Bytes) → (purpose : String) → Bytes
  publicKey : (privateKey : Bytes) → Bytes
  diffieHellman : (privateKey publicKey : Bytes) → Bytes
  sha256 : Bytes → Bytes
  /-- What was ever sealed. -/
  wasSealed : Seal → Prop
  decrypts : ∀ key nonce plaintext aad ciphertext tag,
    decrypt key nonce aad ciphertext tag = some plaintext ↔
      wasSealed ⟨key, nonce, plaintext, aad⟩ ∧
        encrypt ⟨key, nonce, plaintext, aad⟩ = (ciphertext, tag)
  length_ciphertext : ∀ sealed,
    (encrypt sealed).1.length = sealed.plaintext.length
  length_tag : ∀ sealed, (encrypt sealed).2.length = 16
  agrees : ∀ first second, diffieHellman first (publicKey second) =
    diffieHellman second (publicKey first)
  length_publicKey : ∀ privateKey, (publicKey privateKey).length = 32
  length_sha256 : ∀ bytes, (sha256 bytes).length = 32

/-- Why something is refused. -/
inductive Failure where
  | corrupt (message : String)
  | wrongSecret (message : String)
  | range (start last plaintextLength : ℤ)
  | other (message : String)
  deriving DecidableEq

/-- A result, unless it is refused. -/
abbrev Result := Except Failure

/-- How much of the content a segment holds. -/
def SEGMENT_SIZE : ℕ := 65536

/-- The length of a tag. -/
def TAG : ℕ := 16

/-- The length of a full segment in the file. -/
def SEALED_SEGMENT : ℕ := SEGMENT_SIZE + TAG

/-- The length of the prefix. -/
def PREFIX_LENGTH : ℕ := 18

/-- The length of an identifier of a key. -/
def KEY_ID_LENGTH : ℕ := 8

/-- The length of the entry of a recipient. -/
def RECIPIENT_LENGTH : ℕ := KEY_ID_LENGTH + 32 + 32 + TAG

/-- How long the sealed information may be. -/
def MAX_INFO_LENGTH : ℕ := 64 * 1024

/-- How much is copied at once. -/
def COPY_CHUNK : ℕ := 16 * SEALED_SEGMENT

/-- The largest exact whole number of the language. -/
def MAX_SAFE_INTEGER : ℕ := 2 ^ 53 - 1

/-- The bytes at the start of every locked file: `FLLK`. -/
def MAGIC : Bytes := [0x46, 0x4C, 0x4C, 0x4B]

/-- The number of the format. -/
def VERSION : UInt8 := 1

/-- The nonce of what is sealed once with its key. -/
def ZERO_NONCE : Bytes := List.replicate 12 0

/-! ## Sealing -/

section Sealing

variable (crypto : Crypto)

/-- Sealed bytes: the ciphertext with the tag behind it. -/
def sealBytes (sealed : Seal) : Bytes :=
  (crypto.encrypt sealed).1 ++ (crypto.encrypt sealed).2

/-- The bytes that were sealed, if the tag verifies. -/
def unsealBytes (key nonce sealed aad : Bytes) : Option Bytes :=
  if sealed.length < TAG then
    none
  else
    crypto.decrypt key nonce aad (sealed.take (sealed.length - TAG))
      (sealed.drop (sealed.length - TAG))

/-- The nonce of a segment. -/
def segmentNonce (index : ℕ) : Bytes :=
  List.replicate 4 0 ++ writeUIntBE 8 index

/-- What a segment is sealed with besides its bytes: its place and whether it is
the last one. -/
def segmentAad (index : ℕ) (isLast : Bool) : Bytes :=
  writeUIntBE 8 index ++ [if isLast then 1 else 0]

/-- How many segments a file has. -/
def segmentCount (plaintextLength : ℕ) : ℕ :=
  max 1 ((plaintextLength + SEGMENT_SIZE - 1) / SEGMENT_SIZE)

/-- How much of the content a segment of a file holds. -/
def segmentPlainLength (plaintextLength index : ℕ) : ℕ :=
  min SEGMENT_SIZE (plaintextLength - index * SEGMENT_SIZE)

/-- The identifier of a key. -/
def keyId (publicKey : Bytes) : Result Bytes :=
  if publicKey.length ≠ 32 then
    .error (.other "X25519 public key must be 32 raw bytes")
  else
    .ok ((crypto.sha256 publicKey).take KEY_ID_LENGTH)

/-- The public key that belongs to a private one. -/
def publicKeyFromPrivate (privateKey : Bytes) : Result Bytes :=
  if privateKey.length ≠ 32 then
    .error (.other "X25519 private key must be 32 raw bytes")
  else
    .ok (crypto.publicKey privateKey)

/-- The secret that two keys share. -/
def sharedSecret (privateKey publicKey : Bytes) : Result Bytes :=
  if publicKey.length ≠ 32 then
    .error (.other "X25519 public key must be 32 raw bytes")
  else if (crypto.diffieHellman privateKey publicKey).all (· = 0) then
    .error (.other "Invalid X25519 public key")
  else
    .ok (crypto.diffieHellman privateKey publicKey)

end Sealing

/-! ## The header -/

/-- The entry of a recipient. -/
structure ParsedRecipient where
  keyId : Bytes
  ephemeral : Bytes
  wrapped : Bytes
  deriving DecidableEq

/-- The header of a file. -/
structure ParsedHeader where
  plaintextLength : ℕ
  headerLength : ℕ
  saltPrefix : Bytes
  recipients : List ParsedRecipient
  infoRecord : Bytes
  infoCiphertext : Bytes

/-- The prefix of a file. -/
def buildPrefix (plaintextLength : ℕ) : Bytes :=
  MAGIC ++ [VERSION, 0] ++ writeUIntBE 8 plaintextLength ++
    writeUIntBE 4 SEGMENT_SIZE

/-- What a wrapped key is sealed with besides its bytes. -/
def wrapAad (keyId ephemeral : Bytes) : Bytes :=
  keyId ++ ephemeral

/-- The entry of a recipient as it is written. -/
def ParsedRecipient.bytes (recipient : ParsedRecipient) : Bytes :=
  recipient.keyId ++ recipient.ephemeral ++ recipient.wrapped

/-- What is sealed for a recipient: the key of the file, with a key pair that was
drawn for it. -/
def wrapSeal
    (crypto : Crypto)
    (saltPrefix fileKey publicKey drawn : Bytes) : Seal where
  key := crypto.hkdf (crypto.diffieHellman drawn publicKey) saltPrefix "wrap"
  nonce := ZERO_NONCE
  plaintext := fileKey
  aad := wrapAad ((crypto.sha256 publicKey).take KEY_ID_LENGTH)
    (crypto.publicKey drawn)

/-- The entry that is written for a recipient. -/
def entryFor
    (crypto : Crypto)
    (saltPrefix fileKey publicKey drawn : Bytes) : ParsedRecipient where
  keyId := (crypto.sha256 publicKey).take KEY_ID_LENGTH
  ephemeral := crypto.publicKey drawn
  wrapped :=
    sealBytes crypto (wrapSeal crypto saltPrefix fileKey publicKey drawn)

/-- The entry of a recipient, unless its key is refused. -/
def wrapFor
    (crypto : Crypto)
    (saltPrefix fileKey publicKey drawn : Bytes) : Result ParsedRecipient := do
  let _ ← keyId crypto publicKey
  let _ ← sharedSecret crypto drawn publicKey
  return entryFor crypto saltPrefix fileKey publicKey drawn

/-- The entries of all recipients; a key pair is drawn for each. -/
def buildRecipients
    (crypto : Crypto)
    (saltPrefix fileKey : Bytes)
    (recipients : List Bytes)
    (draws : ℕ → Bytes) : Result (List ParsedRecipient) :=
  if recipients.length = 0 ∨ 255 < recipients.length then
    .error (.other "A locked file needs 1 to 255 recipients")
  else
    recipients.zipIdx.mapM fun entry =>
      wrapFor crypto saltPrefix fileKey entry.1 (draws entry.2)

/-- The list of recipients as it is written. -/
def listBytes (recipients : List ParsedRecipient) : Bytes :=
  UInt8.ofNat recipients.length :: recipients.flatMap ParsedRecipient.bytes

/-- Read the entry of a recipient. -/
def parseRecipient (entry : Bytes) : ParsedRecipient where
  keyId := entry.take 8
  ephemeral := (entry.drop 8).take 32
  wrapped := entry.drop 40

/-- The length of the content that a prefix tells. -/
def parsePrefix (fixed : Bytes) : Result ℕ :=
  if fixed.length < PREFIX_LENGTH + 1 ∨ fixed.take 4 ≠ MAGIC then
    .error (.corrupt "Not a locked file")
  else if fixed[4]? ≠ some VERSION then
    .error (.corrupt
      ("Unsupported locked file version " ++ toString (fixed.getD 4 0).toNat))
  else if fixed[5]? ≠ some 0 then
    .error (.corrupt "Unknown locked file flags")
  else if MAX_SAFE_INTEGER < bigEndian (window fixed 6 8) then
    .error (.corrupt "Locked file length is out of range")
  else if bigEndian (window fixed 14 4) ≠ SEGMENT_SIZE then
    .error (.corrupt "Unsupported locked file segment size")
  else
    .ok (bigEndian (window fixed 6 8))

/-- Read the header of a file. -/
def parseHeader (file : Bytes) : Result ParsedHeader := do
  let fixed := window file 0 (PREFIX_LENGTH + 1)
  let plaintextLength ← parsePrefix fixed
  let count := (fixed.getD PREFIX_LENGTH 0).toNat
  if count = 0 then
    .error (.corrupt "Locked file has no recipients")
  else
    let listLength := count * RECIPIENT_LENGTH
    let rest := window file (PREFIX_LENGTH + 1) (listLength + 4)
    if rest.length < listLength + 4 then
      .error (.corrupt "Locked file header is truncated")
    else
      let recipients := (List.range count).map fun index =>
        parseRecipient (window rest (index * RECIPIENT_LENGTH) RECIPIENT_LENGTH)
      let infoLength := bigEndian (window rest listLength 4)
      if infoLength < TAG ∨ MAX_INFO_LENGTH < infoLength then
        .error (.corrupt "Locked file info is out of range")
      else
        let infoStart := PREFIX_LENGTH + 1 + listLength
        let infoCiphertext := window file (infoStart + 4) infoLength
        if infoCiphertext.length < infoLength then
          .error (.corrupt "Locked file header is truncated")
        else
          .ok
            { plaintextLength
              headerLength := infoStart + 4 + infoLength
              saltPrefix := fixed.take PREFIX_LENGTH
              recipients
              infoRecord := rest.drop listLength ++ infoCiphertext
              infoCiphertext }

/-- The length that a file with a header has. -/
def expectedFileLength (header : ParsedHeader) : ℕ :=
  header.headerLength + header.plaintextLength +
    segmentCount header.plaintextLength * TAG

/-- Refuse a file that is longer or shorter than its header tells. -/
def assertFileLength (file : Bytes) (header : ParsedHeader) : Result Unit :=
  if file.length ≠ expectedFileLength header then
    .error (.corrupt "Locked file is truncated or extended")
  else
    .ok ()

/-- The key of a file, for a private key that may open it. -/
def unwrapFileKey
    (crypto : Crypto)
    (header : ParsedHeader)
    (privateKey : Bytes) : Result Bytes := do
  let id ← keyId crypto (← publicKeyFromPrivate crypto privateKey)
  match header.recipients.find? fun entry => entry.keyId = id with
  | none =>
      .error (.wrongSecret "This key is not a recipient of the locked file")
  | some recipient =>
      match sharedSecret crypto privateKey recipient.ephemeral with
      | .error _ =>
          .error (.corrupt "The locked file key does not authenticate")
      | .ok secret =>
          let wrapKey := crypto.hkdf secret header.saltPrefix "wrap"
          match unsealBytes crypto wrapKey ZERO_NONCE recipient.wrapped
              (wrapAad recipient.keyId recipient.ephemeral) with
          | none =>
              .error (.corrupt "The locked file key does not authenticate")
          | some fileKey =>
              .ok fileKey

/-- What the file is a file of. -/
def openInfo
    (crypto : Crypto)
    (header : ParsedHeader)
    (fileKey : Bytes) : Result Json.Json :=
  let infoKey := crypto.hkdf fileKey header.saltPrefix "info"
  match (unsealBytes crypto infoKey ZERO_NONCE header.infoCiphertext []).bind
      fun bytes => Json.parse (Utf8.decode bytes) with
  | none =>
      .error (.corrupt "Locked file info does not authenticate")
  | some info =>
      .ok info

/-! ## Writing -/

/-- What a file is a file of. -/
structure LockedFileInfo where
  assetId : String
  kind : String
  originalFileName : String
  mime : String

/-- The information as a value. -/
def LockedFileInfo.json (info : LockedFileInfo) : Json.Json :=
  .object [("assetId", .string info.assetId), ("kind", .string info.kind),
    ("originalFileName", .string info.originalFileName),
    ("mime", .string info.mime)]

/-- The information as it is sealed. -/
def LockedFileInfo.bytes (info : LockedFileInfo) : Bytes :=
  Utf8.encode (Json.stringify info.json)

/-- The content of a file that is encrypted; the language can tell its
length. -/
structure Source where
  bytes : Bytes
  isSafe : bytes.length ≤ MAX_SAFE_INTEGER

/-- A segment of the content. -/
def plainSegment (source : Bytes) (index : ℕ) : Bytes :=
  window source (index * SEGMENT_SIZE)
    (segmentPlainLength source.length index)

/-- The key of a file, as it is drawn. -/
structure FileKey where
  bytes : Bytes
  isKey : bytes.length = 32

/-- The sealed information as it is written: its length before it. -/
def infoRecord (infoCiphertext : Bytes) : Bytes :=
  writeUIntBE 4 infoCiphertext.length ++ infoCiphertext

/-- What is encrypted, for whom, and what is drawn for it. -/
structure Request where
  source : Source
  recipients : List Bytes
  info : LockedFileInfo
  fileKey : FileKey
  draws : ℕ → Bytes

/-- The content of the file. -/
def Request.plaintext (request : Request) : Bytes :=
  request.source.bytes

/-- The prefix of the file. -/
def Request.saltPrefix (request : Request) : Bytes :=
  buildPrefix request.plaintext.length

/-- What is sealed as a segment. -/
def Request.segmentSeal
    (request : Request)
    (crypto : Crypto)
    (index : ℕ) : Seal where
  key := crypto.hkdf request.fileKey.bytes request.saltPrefix "segment"
  nonce := segmentNonce index
  plaintext := plainSegment request.plaintext index
  aad := segmentAad index
    (index = segmentCount request.plaintext.length - 1)

/-- What is sealed as information. -/
def Request.infoSeal (request : Request) (crypto : Crypto) : Seal where
  key := crypto.hkdf request.fileKey.bytes request.saltPrefix "info"
  nonce := ZERO_NONCE
  plaintext := request.info.bytes
  aad := []

/-- The sealed information of the file. -/
def Request.infoCiphertext (request : Request) (crypto : Crypto) : Bytes :=
  sealBytes crypto (request.infoSeal crypto)

/-- The sealed segments of the file. -/
def Request.sealedSegments
    (request : Request)
    (crypto : Crypto) : List Bytes :=
  (List.range (segmentCount request.plaintext.length)).map fun index =>
    sealBytes crypto (request.segmentSeal crypto index)

/-- Encrypt a file, whose content does not change meanwhile. -/
def encryptFile (crypto : Crypto) (request : Request) : Result Bytes := do
  let entries ← buildRecipients crypto request.saltPrefix request.fileKey.bytes
    request.recipients request.draws
  if MAX_INFO_LENGTH < (request.infoCiphertext crypto).length then
    .error (.other "Locked file info is too long")
  else
    return request.saltPrefix ++ listBytes entries ++
      infoRecord (request.infoCiphertext crypto) ++
      (request.sealedSegments crypto).flatten

/-- What is sealed for a file. -/
inductive Request.Seals
    (request : Request)
    (crypto : Crypto) : Seal → Prop where
  | wrap
      {entry : Bytes × ℕ}
      (isRecipient : entry ∈ request.recipients.zipIdx) :
      request.Seals crypto (wrapSeal crypto request.saltPrefix
        request.fileKey.bytes entry.1 (request.draws entry.2))
  | info :
      request.Seals crypto (request.infoSeal crypto)
  | segment
      {index : ℕ}
      (inFile : index < segmentCount request.plaintext.length) :
      request.Seals crypto (request.segmentSeal crypto index)

/-! ## Reading -/

/-- A segment of a file, unless it is refused. -/
def openSegment
    (crypto : Crypto)
    (file : Bytes)
    (header : ParsedHeader)
    (segmentKey : Bytes)
    (index : ℕ) : Result Bytes :=
  let sealedLength := segmentPlainLength header.plaintextLength index + TAG
  let sealed := window file (header.headerLength + index * SEALED_SEGMENT)
    sealedLength
  if sealed.length ≠ sealedLength then
    .error (.corrupt
      ("Locked file segment " ++ toString index ++ " is truncated"))
  else
    match unsealBytes crypto segmentKey (segmentNonce index) sealed
        (segmentAad index
          (index = segmentCount header.plaintextLength - 1)) with
    | none =>
        .error (.corrupt
          ("Locked file segment " ++ toString index ++
            " does not authenticate"))
    | some plain =>
        .ok plain

/-- What a reader is handed, and the failure that reading ends with, if it
does. -/
abbrev Stream := List Bytes × Option Failure

/-- The parts of segments between two places, from a segment on. -/
def segmentsFrom
    (openSegment : ℕ → Result Bytes)
    (start stop : ℕ) : ℕ → ℕ → Stream
  | 0, _ =>
      ([], none)
  | left + 1, index =>
      match openSegment index with
      | .error failure =>
          ([], some failure)
      | .ok plain =>
          let first := start - index * SEGMENT_SIZE
          let behind :=
            if left = 0 then stop - index * SEGMENT_SIZE else plain.length
          let rest := segmentsFrom openSegment start stop left (index + 1)
          if first < behind then
            (subarray plain first behind :: rest.1, rest.2)
          else
            rest

/-- What a reader of a file is handed for a range. -/
def segments
    (crypto : Crypto)
    (file : Bytes)
    (header : ParsedHeader)
    (fileKey : Bytes)
    (start last : ℤ) : Stream :=
  let segmentKey := crypto.hkdf fileKey header.saltPrefix "segment"
  let firstSegment := start.toNat / SEGMENT_SIZE
  let lastSegment := last.toNat / SEGMENT_SIZE
  match assertFileLength file header with
  | .error failure =>
      ([], some failure)
  | .ok _ =>
      segmentsFrom (openSegment crypto file header segmentKey) start.toNat
        (last + 1).toNat (lastSegment + 1 - firstSegment) firstSegment

/-- A file that is opened for reading. -/
structure Opened where
  stream : Stream
  plaintextLength : ℕ
  info : Json.Json

/-- Open a file for reading a range, or all of it. -/
def openDecrypt
    (crypto : Crypto)
    (file privateKey : Bytes)
    (range : Option (ℤ × ℤ)) : Result Opened := do
  let header ← parseHeader file
  let plaintextLength := header.plaintextLength
  let start := (range.map Prod.fst).getD 0
  let last := (range.map Prod.snd).getD (plaintextLength - 1)
  if range.isSome ∧ (start < 0 ∨ last < start ∨ plaintextLength ≤ last) then
    .error (.range start last plaintextLength)
  else
    let fileKey ← unwrapFileKey crypto header privateKey
    let info ← openInfo crypto header fileKey
    return ⟨segments crypto file header fileKey start last, plaintextLength,
      info⟩

/-- Read all of a file and forget it. -/
def verifyFile (crypto : Crypto) (file privateKey : Bytes) : Result Unit := do
  match (← openDecrypt crypto file privateKey none).stream.2 with
  | none => .ok ()
  | some failure => .error failure

/-! ## Wrapping for other recipients -/

/-- What follows the header of a file, copied a few segments at a time. -/
def copiedSegments (file : Bytes) (header : ParsedHeader) : List Bytes :=
  let total := expectedFileLength header - header.headerLength
  (List.range ((total + COPY_CHUNK - 1) / COPY_CHUNK)).map fun chunk =>
    window file (header.headerLength + chunk * COPY_CHUNK)
      (min COPY_CHUNK (total - chunk * COPY_CHUNK))

/-- Wrap the key of a file for other recipients, into another file. -/
def rewrapFile
    (crypto : Crypto)
    (file privateKey : Bytes)
    (recipients : List Bytes)
    (draws : ℕ → Bytes) : Result Bytes := do
  let header ← parseHeader file
  assertFileLength file header
  let fileKey ← unwrapFileKey crypto header privateKey
  let _ ← openInfo crypto header fileKey
  let entries ←
    buildRecipients crypto header.saltPrefix fileKey recipients draws
  return header.saltPrefix ++ listBytes entries ++ header.infoRecord ++
    (copiedSegments file header).flatten

end Frameleaf.LockedFormat
