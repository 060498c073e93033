import Frameleaf.Lib.Extents
import Frameleaf.Lib.UtcDate
import Frameleaf.Zip.Format

namespace Frameleaf.Zip

open ByteBuffer Utf8

/-!
# The reader of Google Takeout archives

Everything is decided from the central directory before a byte of an entry is
read: where the directory lies, the entries with their sizes, which of them are
refused and where the data of each must end.  All numbers are whole and none
of the comparisons changes when a sum above the safe integers is rounded.
-/

/-- A source that is a Takeout archive, or not. -/
abbrev TakeoutZipSource := ZipByteSource

/-- What the reader of Takeout archives computes. -/
abbrev Takeout (α : Type) := Except (Failure Units) α

def HOST_UNIX : ℕ := 3
def FLAG_UTF8 : ℕ := 0x800
def S_IFMT : ℕ := 0o170000
def S_IFLNK : ℕ := 0o120000
def TAKEOUT_ZIP_MAX_DIRECTORY_BYTES : ℕ := 256 * 1024 * 1024
def TAKEOUT_ZIP_MAX_RATIO : ℕ := 1000
def TAKEOUT_ZIP_RATIO_FLOOR_BYTES : ℕ := 1024 * 1024

/-- Why one entry is refused while the others are read. -/
inductive EntryRefusal where
  | encrypted
  | link
  | compression
deriving DecidableEq, Repr

/-- When an entry was modified, as local time of the archiver. -/
inductive ModifiedAt where
  | epoch
  | localTime (year month day hours minutes seconds : ℕ)
deriving DecidableEq, Repr

/-- An entry of a Takeout archive. -/
structure TakeoutZipEntry where
  name : Text
  compression : ZipCompression
  compressedSize : ℕ
  uncompressedSize : ℕ
  crc32 : ℕ
  localHeaderOffset : ℕ
  dataLimit : ℕ
  modifiedAt : ModifiedAt
  refused : Option EntryRefusal
deriving DecidableEq, Repr

/-- A value of eight bytes that must be a safe integer. -/
def readSafe64
    (buffer : Bytes)
    (offset : ℕ) : Takeout ℕ := do
  let value ← readBigUInt64LE buffer offset
  refuseIf (MAX_SAFE_INTEGER < value)
    (literal "The archive declares a size larger than any file can be")
  return value

/-- The number of days of a month, counted from one. -/
def daysInMonth
    (year month : ℕ) : ℤ :=
  let next : UtcDate.Civil :=
    if month = 12 then ⟨year + 1, 1, 1⟩ else ⟨year, month + 1, 1⟩
  UtcDate.dayOfCivil next - UtcDate.dayOfCivil ⟨year, month, 1⟩

/-- The local time of the date and time fields, or the epoch. -/
def zipDosDate
    (date time : ℕ) : ModifiedAt :=
  let year := date / 2 ^ 9 % 0x80 + 1980
  let month := date / 2 ^ 5 % 0x10
  let day := date % 0x20
  let hours := time / 2 ^ 11 % 0x20
  let minutes := time / 2 ^ 5 % 0x40
  let seconds := time % 0x20 * 2
  if month < 1 ∨ 12 < month ∨ day < 1 ∨ 23 < hours ∨ 59 < minutes ∨
      59 < seconds ∨ daysInMonth year month < day then
    .epoch
  else
    .localTime year month day hours minutes seconds

/-- A text in which every byte is a character. -/
def latin1
    (bytes : Bytes) : Text :=
  bytes.map fun byte => Char.ofNat byte.toNat

/-- A name in UTF-8 when it is flagged or valid as such. -/
def decodeName
    (bytes : Bytes)
    (flags : ℕ) : Text :=
  if flags &&& FLAG_UTF8 ≠ 0 then
    decode bytes
  else
    let text := decode bytes
    if replacement ∈ text then latin1 bytes else text

/-- Where the central directory lies. -/
structure DirectoryLocation where
  entryCount : ℕ
  directorySize : ℕ
  directoryOffset : ℕ
deriving DecidableEq, Repr

def spanned : Units :=
  literal ("Spanned archives are not supported; use the separate ZIP files " ++
    "Google Takeout creates")

def zip64Missing : Units :=
  literal "The archive’s ZIP64 directory record is missing"

/-- The length of the comment that an end record at a place declares. -/
def readCommentLength
    (tail : Bytes)
    (index : ℕ) : Takeout ℕ :=
  if index + 22 ≤ tail.length then
    readUInt16LE tail (index + 20)
  else
    .ok 0

/-- Search the end record from the last place where it fits. -/
def findEndFrom
    (tail : Bytes) : ℕ → Takeout (Option ℕ)
  | 0 =>
      .ok none
  | index + 1 => do
      let commentLength ← readCommentLength tail index
      let signature ← readUInt32LE tail index
      if signature = EOCD_SIGNATURE ∧
          index + EOCD_MIN + commentLength ≤ tail.length then
        .ok (some index)
      else
        findEndFrom tail index

/-- The location that the ZIP64 record gives, found through its locator. -/
def readZip64Record
    (source : TakeoutZipSource)
    (tail : Bytes)
    (locatorAt : ℕ) : Takeout DirectoryLocation := do
  let disks ← readUInt32LE tail (locatorAt + 16)
  refuseIf (1 < disks) spanned
  let recordOffset ← readSafe64 tail (locatorAt + 8)
  let record ← source.readAt recordOffset ZIP64_EOCD_MIN
  refuseIf (record.length < ZIP64_EOCD_MIN) zip64Missing
  let signature ← readUInt32LE record 0
  refuseIf (signature ≠ ZIP64_EOCD_SIGNATURE) zip64Missing
  let disk ← readUInt32LE record 16
  refuseIf (disk ≠ 0) spanned
  let directoryDisk ← readUInt32LE record 20
  refuseIf (directoryDisk ≠ 0) spanned
  let entryCount ← readSafe64 record 32
  let directorySize ← readSafe64 record 40
  let directoryOffset ← readSafe64 record 48
  return { entryCount, directorySize, directoryOffset }

/-- A ZIP64 locator stands right before the end record. -/
def hasLocator
    (tail : Bytes)
    (eocd : ℕ) : Takeout Bool :=
  if ZIP64_LOCATOR_SIZE ≤ eocd then do
    let signature ← readUInt32LE tail (eocd - ZIP64_LOCATOR_SIZE)
    return signature == ZIP64_LOCATOR_SIGNATURE
  else
    .ok false

/-- The location that the end record or the ZIP64 record gives. -/
def readEndRecord
    (source : TakeoutZipSource)
    (tail : Bytes)
    (eocd : ℕ) : Takeout DirectoryLocation := do
  let disk ← readUInt16LE tail (eocd + 4)
  let directoryDisk ← readUInt16LE tail (eocd + 6)
  let entryCount ← readUInt16LE tail (eocd + 10)
  let directorySize ← readUInt32LE tail (eocd + 12)
  let directoryOffset ← readUInt32LE tail (eocd + 16)
  let isZip64 ← hasLocator tail eocd
  if isZip64 then
    readZip64Record source tail (eocd - ZIP64_LOCATOR_SIZE)
  else do
    refuseIf
      (entryCount = MARKER_16 ∨ directorySize = MARKER_32 ∨
        directoryOffset = MARKER_32)
      zip64Missing
    refuseIf (disk ≠ 0 ∨ directoryDisk ≠ 0) spanned
    return { entryCount, directorySize, directoryOffset }

/-- Where the directory lies, from the end of the file. -/
def locateDirectory
    (source : TakeoutZipSource) : Takeout DirectoryLocation := do
  refuseIf (source.size < EOCD_MIN)
    (literal "This file is too small to be a ZIP archive")
  let tailLength := min source.size (EOCD_MIN + 0xffff + ZIP64_LOCATOR_SIZE)
  let tailStart := source.size - tailLength
  let tail ← source.readAt tailStart tailLength
  let found ← findEndFrom tail (tail.length + 1 - EOCD_MIN)
  match found with
  | none =>
      refuse (literal
        "This file is not a ZIP archive, or it is incomplete")
  | some eocd => do
      let location ← readEndRecord source tail eocd
      refuseIf
        (source.size < location.directoryOffset + location.directorySize ∨
          location.directorySize < location.entryCount * CENTRAL_MIN)
        (literal ("The archive’s directory lies outside the file; " ++
          "the upload may be incomplete"))
      refuseIf (TAKEOUT_ZIP_MAX_DIRECTORY_BYTES < location.directorySize)
        (literal
          "The archive’s directory is larger than a Takeout archive needs")
      return location

/-- The fields of an entry that hold the marker of a ZIP64 value. -/
structure Saturated where
  uncompressed : Bool
  compressed : Bool
  offset : Bool
  disk : Bool
deriving DecidableEq, Repr

/-- The ZIP64 values that an entry carries. -/
structure Zip64Values where
  uncompressed : Option ℕ
  compressed : Option ℕ
  offset : Option ℕ
  disk : Option ℕ
deriving DecidableEq, Repr

/-- The next value of the ZIP64 field, when it is wanted. -/
def nextZip64
    (extra : Bytes)
    (stop : ℕ)
    (wanted : Bool)
    (field : ℕ) : Takeout (Option ℕ × ℕ) :=
  if wanted then do
    refuseIf (stop < field + 8)
      (literal "An archive entry’s ZIP64 sizes are truncated")
    let value ← readSafe64 extra field
    return (some value, field + 8)
  else
    .ok (none, field)

/-- The disk number at the end of the ZIP64 field, when it is wanted. -/
def nextZip64Disk
    (extra : Bytes)
    (stop : ℕ)
    (wanted : Bool)
    (field : ℕ) : Takeout (Option ℕ) :=
  if wanted then do
    refuseIf (stop < field + 4)
      (literal "An archive entry’s ZIP64 disk number is truncated")
    let value ← readUInt32LE extra field
    return some value
  else
    .ok none

/-- The values of the ZIP64 field, for the saturated fields only. -/
def readZip64Extra
    (extra : Bytes)
    (saturated : Saturated) : Takeout Zip64Values := do
  let found ← findZip64 extra
  match found with
  | none =>
      return ⟨none, none, none, none⟩
  | some (start, stop) => do
      let (uncompressed, field) ←
        nextZip64 extra stop saturated.uncompressed start
      let (compressed, field) ←
        nextZip64 extra stop saturated.compressed field
      let (offset, field) ← nextZip64 extra stop saturated.offset field
      let disk ← nextZip64Disk extra stop saturated.disk field
      return { uncompressed, compressed, offset, disk }

/-- Why an entry cannot be read safely. -/
def entryRefusal
    (header : CentralHeader) : Option EntryRefusal :=
  if header.flags &&& (FLAG_ENCRYPTED ||| FLAG_STRONG_ENCRYPTION) ≠ 0 then
    some .encrypted
  else if header.madeBy / 2 ^ 8 = HOST_UNIX ∧
      header.externalAttributes / 2 ^ 16 &&& S_IFMT = S_IFLNK then
    some .link
  else if header.method ≠ METHOD_STORE ∧ header.method ≠ METHOD_DEFLATE then
    some .compression
  else
    none

/-- The fields that are saturated in the fixed part of an entry. -/
def CentralHeader.saturated
    (header : CentralHeader) : Saturated where
  uncompressed := header.uncompressedSize == MARKER_32
  compressed := header.compressedSize == MARKER_32
  offset := header.localHeaderOffset == MARKER_32
  disk := header.diskStart == MARKER_16

/-- An entry lacks a ZIP64 value that it declares. -/
def lacksZip64
    (saturated : Saturated)
    (zip64 : Zip64Values) : Bool :=
  (saturated.uncompressed && zip64.uncompressed.isNone) ||
    (saturated.compressed && zip64.compressed.isNone) ||
    (saturated.offset && zip64.offset.isNone) ||
    (saturated.disk && zip64.disk.isNone)

/-- Check an entry against the directory and its own method. -/
def checkTakeoutEntry
    (directoryOffset : ℕ)
    (header : CentralHeader)
    (name : Text)
    (zip64 : Zip64Values) : Takeout TakeoutZipEntry := do
  let uncompressedSize := zip64.uncompressed.getD header.uncompressedSize
  let compressedSize := zip64.compressed.getD header.compressedSize
  let localHeaderOffset := zip64.offset.getD header.localHeaderOffset
  let diskStart := zip64.disk.getD header.diskStart
  refuseIf (diskStart ≠ 0) spanned
  let refused := entryRefusal header
  refuseIf (directoryOffset < localHeaderOffset + LOCAL_MIN + compressedSize)
    (excerpt name ++ literal " points outside the archive’s data")
  refuseIf
    (refused.isNone ∧ header.method = METHOD_STORE ∧
      compressedSize ≠ uncompressedSize)
    (excerpt name ++ literal " is stored but declares two different sizes")
  refuseIf
    (refused.isNone ∧ header.method = METHOD_DEFLATE ∧
      TAKEOUT_ZIP_RATIO_FLOOR_BYTES < uncompressedSize ∧
      compressedSize * TAKEOUT_ZIP_MAX_RATIO < uncompressedSize)
    (excerpt name ++ literal " inflates more than 1000 times")
  return {
    name := name
    compression :=
      if header.method = METHOD_DEFLATE then .deflate else .store
    compressedSize := compressedSize
    uncompressedSize := uncompressedSize
    crc32 := header.crc32
    localHeaderOffset := localHeaderOffset
    dataLimit := directoryOffset
    modifiedAt := zipDosDate header.date header.time
    refused := refused }

/-- Read the entry at a cursor, and where the next one starts. -/
def readTakeoutEntry
    (directory : Bytes)
    (directoryOffset index cursor : ℕ) : Takeout (TakeoutZipEntry × ℕ) := do
  let isEntry ← isCentralEntry directory cursor
  refuseIf (!isEntry)
    (literal "The archive’s directory entry " ++ decimal index ++
      literal " is malformed")
  let header ← readCentralHeader directory cursor
  let nameStart := cursor + CENTRAL_MIN
  let extraStart := nameStart + header.nameLength
  let stop := extraStart + header.extraLength + header.commentLength
  refuseIf (directory.length < stop)
    (literal "The archive’s directory entry " ++ decimal index ++
      literal " overruns the directory")
  let name := decodeName (subarray directory nameStart extraStart) header.flags
  let extra := subarray directory extraStart (extraStart + header.extraLength)
  let zip64 ← readZip64Extra extra header.saturated
  refuseIf (lacksZip64 header.saturated zip64)
    (excerpt name ++ literal " declares ZIP64 values it does not carry")
  let entry ← checkTakeoutEntry directoryOffset header name zip64
  return (entry, stop)

/-- Read a number of entries from a cursor on. -/
def readTakeoutEntries
    (directory : Bytes)
    (directoryOffset : ℕ) : ℕ → ℕ → ℕ → Takeout (List TakeoutZipEntry)
  | 0, _, _ =>
      .ok []
  | count + 1, index, cursor => do
      let (entry, next) ←
        readTakeoutEntry directory directoryOffset index cursor
      let rest ←
        readTakeoutEntries directory directoryOffset count (index + 1) next
      return entry :: rest

/-- The least place where the data of an entry can end. -/
def TakeoutZipEntry.leastEnd
    (entry : TakeoutZipEntry) : ℕ :=
  entry.localHeaderOffset + LOCAL_MIN + entry.compressedSize

/-- The entry whose data must end before a place. -/
def TakeoutZipEntry.withLimit
    (limit : ℕ)
    (entry : TakeoutZipEntry) : TakeoutZipEntry :=
  { entry with dataLimit := limit }

/-- The refusal of an entry that the one before it reaches into. -/
def takeoutOverlap
    (entry : TakeoutZipEntry) : Failure Units :=
  .refused (excerpt entry.name ++ literal " overlaps the entry before it")

/-- Parse the central directory. -/
def readTakeoutZipDirectory
    (source : TakeoutZipSource) : Takeout (List TakeoutZipEntry) := do
  let location ← locateDirectory source
  let directory ←
    source.readAt location.directoryOffset location.directorySize
  refuseIf (directory.length ≠ location.directorySize)
    (literal "The archive’s directory is truncated")
  let entries ←
    readTakeoutEntries directory location.directoryOffset location.entryCount
      0 0
  Extents.limitInOrder TakeoutZipEntry.localHeaderOffset
    TakeoutZipEntry.leastEnd TakeoutZipEntry.withLimit takeoutOverlap
    (Extents.inOrder TakeoutZipEntry.localHeaderOffset entries) entries

/-- Where the data of an entry starts, from its local header. -/
def takeoutZipDataOffset
    (source : TakeoutZipSource)
    (entry : TakeoutZipEntry) : Takeout ℕ := do
  let header ← source.readAt entry.localHeaderOffset LOCAL_MIN
  let missing := excerpt entry.name ++ literal " has no local file header"
  refuseIf (header.length < LOCAL_MIN) missing
  let signature ← readUInt32LE header 0
  refuseIf (signature ≠ LOCAL_SIGNATURE) missing
  let nameLength ← readUInt16LE header 26
  let extraLength ← readUInt16LE header 28
  let start := entry.localHeaderOffset + LOCAL_MIN + nameLength + extraLength
  refuseIf (source.size < start + entry.compressedSize)
    (excerpt entry.name ++ literal " runs past the end of the archive")
  refuseIf (entry.dataLimit < start + entry.compressedSize)
    (excerpt entry.name ++ literal " runs into the entry after it")
  return start

end Frameleaf.Zip
