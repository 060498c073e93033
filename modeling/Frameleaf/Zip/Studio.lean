import Frameleaf.Lib.Extents
import Frameleaf.Zip.Format

namespace Frameleaf.Zip

open ByteBuffer Utf8

/-!
# The reader of Studio archives

The directory is checked as a whole before an entry is read, under limits that
each kind of archive sets for itself; a strict archive has exact UTF-8 names and
nothing but its entries before its end record.  An entry is read into memory
only when its local header agrees with the directory.  All numbers are whole
and none of the comparisons changes when a sum above the safe integers is
rounded, for limits that are safe integers.
-/

/-- Why an archive is refused. -/
structure ZipRefusal where
  code : String
  message : Units
deriving DecidableEq, Repr

/-- What the reader of Studio archives computes. -/
abbrev Studio (α : Type) := Except (Failure ZipRefusal) α

def STUDIO_BUNDLE_RATIO_FLOOR_BYTES : ℕ := 64 * 1024
def STUDIO_BUNDLE_MAX_RATIO : ℕ := 200
def STUDIO_BUNDLE_MAX_NAME_LENGTH : ℕ := 512
def EOCD_MAX_COMMENT : ℕ := 0xffff

/-- The inflater and the checksum of the compression library. -/
structure Zlib where
  /-- The inflated bytes, unless they are damaged or more than the maximum. -/
  inflateRawSync : Bytes → ℕ → Option Bytes
  crc32 : Bytes → ℕ
  /-- No more bytes are inflated than the maximum. -/
  bounded : ∀ raw maxOutputLength bytes,
    inflateRawSync raw maxOutputLength = some bytes →
      bytes.length ≤ maxOutputLength

/-- The limits one kind of archive is read under. -/
structure ZipReadLimits where
  strictPaths : Bool
  maxBytes : ℕ
  maxEntries : ℕ
  maxDirectoryBytes : ℕ
  maxUncompressedBytes : ℕ
  documentLimit : Text → Option ℕ
  allowZip64 : Bool

/-- An entry of a Studio archive. -/
structure ZipEntry where
  flags : ℕ
  name : Text
  compression : ZipCompression
  compressedSize : ℕ
  uncompressedSize : ℕ
  crc32 : ℕ
  localHeaderOffset : ℕ
  dataLimit : ℕ
deriving DecidableEq, Repr

/-- The entries of an archive. -/
structure ZipDirectory where
  entries : List ZipEntry
deriving DecidableEq, Repr

/-- Refuse an archive. -/
def refusal
    (code : String)
    (message : Units) : ZipRefusal :=
  { code, message }

/-- The character is an ASCII letter. -/
def isLetter
    (character : Char) : Bool :=
  ('a' ≤ character && character ≤ 'z') ||
    ('A' ≤ character && character ≤ 'Z')

/-- The name starts with a drive letter. -/
def startsWithDrive : Text → Bool
  | letter :: ':' :: _ =>
      isLetter letter
  | _ =>
      false

/-- The segments of a name between its slashes. -/
def segments
    (name : Text) : List Text :=
  name.splitOn '/'

/-- Why an entry name is refused, or nothing when it is a plain path. -/
def zipEntryNameProblem
    (name : Text) : Option Units :=
  if (units name).length = 0 ∨
      STUDIO_BUNDLE_MAX_NAME_LENGTH < (units name).length then
    some (literal "entry name length")
  else if Char.ofNat 0 ∈ name then
    some (literal "entry name contains NUL")
  else if '\\' ∈ name then
    some (literal "entry name uses backslashes: " ++ excerpt name)
  else if name.head? = some '/' ∨ startsWithDrive name then
    some (literal "absolute entry name: " ++ excerpt name)
  else if name.getLast? = some '/' then
    some (literal "directory entry: " ++ excerpt name)
  else if (segments name).any fun segment =>
      segment = [] ∨ segment = ['.'] ∨ segment = ['.', '.'] then
    some (literal "entry name traverses: " ++ excerpt name)
  else
    none

/-- The character that marks the order of bytes. -/
def byteOrderMark : Char := Char.ofNat 0xFEFF

/-- Decode bytes that must be UTF-8; a leading byte order mark is dropped. -/
def decodeFatal
    (bytes : Bytes) : Option Text :=
  let text := decode bytes
  if encode text = bytes then
    some (if text.head? = some byteOrderMark then text.tail else text)
  else
    none

/-- A value of eight bytes that must be a safe integer. -/
def readUInt64
    (buffer : Bytes)
    (offset : ℕ)
    (what : Units) : Studio ℕ := do
  let value ← readBigUInt64LE buffer offset
  refuseIf (MAX_SAFE_INTEGER < value)
    (refusal "bundle_too_large"
      (what ++ literal " is larger than this server can address"))
  return value

/-- Where the central directory lies. -/
structure StudioLocation where
  entryCount : ℕ
  directorySize : ℕ
  directoryOffset : ℕ
deriving DecidableEq, Repr

def splitArchive : ZipRefusal :=
  refusal "bundle_spanned"
    (literal "Archives split across several files are not accepted")

def locatorMissing : ZipRefusal :=
  refusal "bundle_corrupt" (literal "The ZIP64 locator is missing")

def zip64Refused : ZipRefusal :=
  refusal "bundle_zip64" (literal "ZIP64 archives are not accepted as bundles")

def recordMalformed : ZipRefusal :=
  refusal "bundle_corrupt" (literal "The ZIP64 record is malformed")

/-- The location that the ZIP64 record before an end record gives. -/
def readZip64End
    (source : ZipByteSource)
    (eocdPosition : ℕ) : Studio StudioLocation := do
  refuseIf (eocdPosition < ZIP64_LOCATOR_SIZE) locatorMissing
  let locator ←
    source.readAt (eocdPosition - ZIP64_LOCATOR_SIZE) ZIP64_LOCATOR_SIZE
  refuseIf (locator.length < ZIP64_LOCATOR_SIZE) locatorMissing
  let signature ← readUInt32LE locator 0
  refuseIf (signature ≠ ZIP64_LOCATOR_SIGNATURE) locatorMissing
  let disk ← readUInt32LE locator 4
  refuseIf (disk ≠ 0) splitArchive
  let disks ← readUInt32LE locator 16
  refuseIf (1 < disks) splitArchive
  let recordOffset ←
    readUInt64 locator 8 (literal "The ZIP64 record offset")
  refuseIf
    (eocdPosition - ZIP64_LOCATOR_SIZE < recordOffset + ZIP64_EOCD_MIN)
    (refusal "bundle_corrupt"
      (literal "The ZIP64 record lies outside the file"))
  let record ← source.readAt recordOffset ZIP64_EOCD_MIN
  refuseIf (record.length < ZIP64_EOCD_MIN) recordMalformed
  let recordSignature ← readUInt32LE record 0
  refuseIf (recordSignature ≠ ZIP64_EOCD_SIGNATURE) recordMalformed
  let recordDisk ← readUInt32LE record 16
  refuseIf (recordDisk ≠ 0) splitArchive
  let directoryDisk ← readUInt32LE record 20
  refuseIf (directoryDisk ≠ 0) splitArchive
  let entriesOnDisk ← readUInt64 record 24 (literal "The entry count")
  let entryCount ← readUInt64 record 32 (literal "The entry count")
  refuseIf (entriesOnDisk ≠ entryCount) splitArchive
  let directorySize ← readUInt64 record 40 (literal "The central directory")
  let directoryOffset ←
    readUInt64 record 48 (literal "The central directory offset")
  return { entryCount, directorySize, directoryOffset }

/-- The fields of an entry that hold the marker of a ZIP64 value. -/
structure Marked where
  uncompressed : Bool
  compressed : Bool
  offset : Bool
deriving DecidableEq, Repr

/-- The sizes and the place of an entry. -/
structure EntrySizes where
  uncompressedSize : ℕ
  compressedSize : ℕ
  localHeaderOffset : ℕ
deriving DecidableEq, Repr

/-- The next value of the ZIP64 field, when its field is marked. -/
def nextStudioZip64
    (extra : Bytes)
    (stop : ℕ)
    (name : Text)
    (what : String)
    (marked : Bool)
    (value : ℕ)
    (field : ℕ) : Studio (ℕ × ℕ) :=
  if marked then do
    refuseIf (stop < field + 8)
      (refusal "bundle_corrupt"
        (excerpt name ++ literal " has a short ZIP64 field"))
    let value ← readUInt64 extra field (excerpt name ++ literal what)
    return (value, field + 8)
  else
    .ok (value, field)

/-- The sizes and the place of an entry, with its ZIP64 values. -/
def readStudioZip64Extra
    (extra : Bytes)
    (marked : Marked)
    (sizes : EntrySizes)
    (name : Text) : Studio EntrySizes := do
  let found ← findZip64 extra
  match found with
  | none =>
      refuse (refusal "bundle_corrupt"
        (excerpt name ++ literal " is marked ZIP64 but has no ZIP64 field"))
  | some (start, stop) => do
      let (uncompressedSize, field) ←
        nextStudioZip64 extra stop name "'s size" marked.uncompressed
          sizes.uncompressedSize start
      let (compressedSize, field) ←
        nextStudioZip64 extra stop name "'s compressed size"
          marked.compressed sizes.compressedSize field
      let (localHeaderOffset, _) ←
        nextStudioZip64 extra stop name "'s offset" marked.offset
          sizes.localHeaderOffset field
      return { uncompressedSize, compressedSize, localHeaderOffset }

/-- The fields that are marked in the fixed part of an entry. -/
def CentralHeader.marked
    (header : CentralHeader) : Marked where
  uncompressed := header.uncompressedSize == MARKER_32
  compressed := header.compressedSize == MARKER_32
  offset := header.localHeaderOffset == MARKER_32

/-- The sizes and the place of an entry as its header gives them. -/
def CentralHeader.sizes
    (header : CentralHeader) : EntrySizes where
  uncompressedSize := header.uncompressedSize
  compressedSize := header.compressedSize
  localHeaderOffset := header.localHeaderOffset

/-- The sizes and the place of an entry, from its header or its extra field. -/
def entrySizes
    (limits : ZipReadLimits)
    (header : CentralHeader)
    (extra : Bytes)
    (name : Text) : Studio EntrySizes :=
  if header.marked.uncompressed ∨ header.marked.compressed ∨
      header.marked.offset then do
    refuseIf (!limits.allowZip64) zip64Refused
    readStudioZip64Extra extra header.marked header.sizes name
  else
    .ok header.sizes

/-- The name of an entry, which a strict archive gives in exact UTF-8. -/
def entryName
    (limits : ZipReadLimits)
    (bytes : Bytes) : Studio Text :=
  if limits.strictPaths then
    match decodeFatal bytes with
    | some name =>
        .ok name
    | none =>
        refuse (refusal "bundle_corrupt"
          (literal "The entry name is not valid UTF-8"))
  else
    .ok (decode bytes)

/-- Refuse an entry whose name has a problem. -/
def checkName
    (name : Text) : Studio PUnit :=
  match zipEntryNameProblem name with
  | some problem =>
      refuse (refusal "bundle_entry_name" problem)
  | none =>
      .ok ⟨⟩

/-- Refuse an entry that is larger than a document may be. -/
def checkDocument
    (limits : ZipReadLimits)
    (name : Text)
    (uncompressedSize : ℕ) : Studio PUnit :=
  match limits.documentLimit name with
  | some documentLimit =>
      refuseIf (documentLimit < uncompressedSize)
        (refusal "bundle_too_large"
          (units name ++ literal " declares " ++ decimal uncompressedSize ++
            literal " bytes; the limit is " ++ decimal documentLimit))
  | none =>
      .ok ⟨⟩

/-- Check an entry against the entries before it and the directory. -/
def checkStudioEntry
    (limits : ZipReadLimits)
    (directoryOffset : ℕ)
    (entries : List ZipEntry)
    (header : CentralHeader)
    (name : Text)
    (extra : Bytes) : Studio ZipEntry := do
  refuseIf
    (header.flags &&& (FLAG_ENCRYPTED ||| FLAG_STRONG_ENCRYPTION) ≠ 0)
    (refusal "bundle_encrypted" (excerpt name ++ literal " is encrypted"))
  let sizes ← entrySizes limits header extra name
  refuseIf
    (header.diskStart ≠ 0 ∧
      ¬(limits.allowZip64 ∧ header.diskStart = MARKER_16))
    splitArchive
  refuseIf
    (header.method ≠ METHOD_STORE ∧ header.method ≠ METHOD_DEFLATE)
    (refusal "bundle_compression"
      (excerpt name ++ literal " uses compression method " ++
        decimal header.method))
  checkName name
  refuseIf (entries.any fun entry => entry.name = name)
    (refusal "bundle_entry_name" (literal "duplicate entry " ++ excerpt name))
  refuseIf
    (directoryOffset <
      sizes.localHeaderOffset + LOCAL_MIN + sizes.compressedSize)
    (refusal "bundle_corrupt"
      (excerpt name ++ literal " points outside the file's data"))
  refuseIf
    (header.method = METHOD_STORE ∧
      sizes.compressedSize ≠ sizes.uncompressedSize)
    (refusal "bundle_corrupt"
      (excerpt name ++ literal " is stored but declares two different sizes"))
  refuseIf
    (header.method = METHOD_DEFLATE ∧
      STUDIO_BUNDLE_RATIO_FLOOR_BYTES < sizes.uncompressedSize ∧
      sizes.compressedSize * STUDIO_BUNDLE_MAX_RATIO < sizes.uncompressedSize)
    (refusal "bundle_ratio"
      (excerpt name ++ literal " inflates more than 200 times"))
  checkDocument limits name sizes.uncompressedSize
  return {
    flags := header.flags
    name := name
    compression :=
      if header.method = METHOD_STORE then .store else .deflate
    compressedSize := sizes.compressedSize
    uncompressedSize := sizes.uncompressedSize
    crc32 := header.crc32
    localHeaderOffset := sizes.localHeaderOffset
    dataLimit := directoryOffset }

/-- Where the record of an entry that starts at a cursor ends. -/
def CentralHeader.recordEnd
    (header : CentralHeader)
    (cursor : ℕ) : ℕ :=
  cursor + CENTRAL_MIN + header.nameLength + header.extraLength +
    header.commentLength

/-- Read the entry at a cursor, and where the next one starts. -/
def readStudioEntry
    (limits : ZipReadLimits)
    (directory : Bytes)
    (directoryOffset index cursor : ℕ)
    (entries : List ZipEntry) : Studio (ZipEntry × ℕ) := do
  let isEntry ← isCentralEntry directory cursor
  refuseIf (!isEntry)
    (refusal "bundle_corrupt"
      (literal "Central directory entry " ++ decimal index ++
        literal " is malformed"))
  let header ← readCentralHeader directory cursor
  refuseIf (directory.length < header.recordEnd cursor)
    (refusal "bundle_corrupt"
      (literal "Central directory entry " ++ decimal index ++
        literal " overruns the directory"))
  let nameStart := cursor + CENTRAL_MIN
  let nameEnd := nameStart + header.nameLength
  let name ← entryName limits (subarray directory nameStart nameEnd)
  let extra := subarray directory nameEnd (nameEnd + header.extraLength)
  let entry ←
    checkStudioEntry limits directoryOffset entries header name extra
  return (entry, header.recordEnd cursor)

/-- Read a number of entries from a cursor on, after those already read. -/
def readStudioEntries
    (limits : ZipReadLimits)
    (directory : Bytes)
    (directoryOffset : ℕ) :
    ℕ → ℕ → ℕ → List ZipEntry → Studio (List ZipEntry × ℕ)
  | 0, _, cursor, entries =>
      .ok (entries, cursor)
  | count + 1, index, cursor, entries => do
      let (entry, next) ←
        readStudioEntry limits directory directoryOffset index cursor entries
      readStudioEntries limits directory directoryOffset count (index + 1) next
        (entries ++ [entry])

/-- The end record at a place is taken; a strict one ends the file. -/
def isEndRecord
    (limits : ZipReadLimits)
    (tail : Bytes)
    (offset : ℕ) : Studio Bool := do
  let signature ← readUInt32LE tail offset
  if signature = EOCD_SIGNATURE then
    if limits.strictPaths then do
      let commentLength ← readUInt16LE tail (offset + 20)
      return offset + EOCD_MIN + commentLength == tail.length
    else
      return true
  else
    return false

/-- Search the end record from the last place where it fits. -/
def findStudioEndFrom
    (limits : ZipReadLimits)
    (tail : Bytes) : ℕ → Studio (Option ℕ)
  | 0 =>
      .ok none
  | offset + 1 => do
      let isEnd ← isEndRecord limits tail offset
      if isEnd then
        .ok (some offset)
      else
        findStudioEndFrom limits tail offset

/-- The location that the end record or the ZIP64 record gives. -/
def readStudioEnd
    (source : ZipByteSource)
    (limits : ZipReadLimits)
    (tail : Bytes)
    (tailStart eocd : ℕ) : Studio StudioLocation := do
  let entryCount ← readUInt16LE tail (eocd + 10)
  let directorySize ← readUInt32LE tail (eocd + 12)
  let directoryOffset ← readUInt32LE tail (eocd + 16)
  let diskNumber ← readUInt16LE tail (eocd + 4)
  let directoryDisk ← readUInt16LE tail (eocd + 6)
  if entryCount = MARKER_16 ∨ directorySize = MARKER_32 ∨
      directoryOffset = MARKER_32 then do
    refuseIf (!limits.allowZip64) zip64Refused
    readZip64End source (tailStart + eocd)
  else do
    refuseIf (diskNumber ≠ 0 ∨ directoryDisk ≠ 0) splitArchive
    let entriesOnDisk ← readUInt16LE tail (eocd + 8)
    refuseIf (entriesOnDisk ≠ entryCount) splitArchive
    return { entryCount, directorySize, directoryOffset }

/-- Where the directory lies and where the end record starts. -/
def locateStudioDirectory
    (source : ZipByteSource)
    (limits : ZipReadLimits) : Studio (StudioLocation × ℕ) := do
  refuseIf (source.size < EOCD_MIN)
    (refusal "bundle_not_zip"
      (literal "The file is too small to be a ZIP archive"))
  refuseIf (limits.maxBytes < source.size)
    (refusal "bundle_too_large"
      (literal "The file is larger than " ++ decimal limits.maxBytes ++
        literal " bytes"))
  let tailLength := min source.size (EOCD_MIN + EOCD_MAX_COMMENT)
  let tailStart := source.size - tailLength
  let tail ← source.readAt tailStart tailLength
  let found ← findStudioEndFrom limits tail (tail.length + 1 - EOCD_MIN)
  match found with
  | none =>
      refuse (refusal "bundle_not_zip"
        (literal "No end-of-central-directory record was found"))
  | some eocd => do
      let location ← readStudioEnd source limits tail tailStart eocd
      refuseIf (limits.maxEntries < location.entryCount)
        (refusal "bundle_too_many_entries"
          (literal "The archive declares " ++ decimal location.entryCount ++
            literal " entries; the limit is " ++ decimal limits.maxEntries))
      refuseIf
        (source.size < location.directoryOffset + location.directorySize ∨
          location.directorySize < location.entryCount * CENTRAL_MIN)
        (refusal "bundle_corrupt"
          (literal "The central directory lies outside the file"))
      refuseIf
        (limits.strictPaths ∧
          location.directoryOffset + location.directorySize ≠
            tailStart + eocd)
        (refusal "bundle_corrupt"
          (literal
            "The central directory does not end at its terminal record"))
      refuseIf (limits.maxDirectoryBytes < location.directorySize)
        (refusal "bundle_too_large"
          (literal "The central directory is larger than any bundle needs"))
      return (location, tailStart + eocd)

/-- The least place where the data of an entry can end. -/
def ZipEntry.leastEnd
    (entry : ZipEntry) : ℕ :=
  entry.localHeaderOffset + LOCAL_MIN + entry.compressedSize

/-- The entry whose data must end before a place. -/
def ZipEntry.withLimit
    (limit : ℕ)
    (entry : ZipEntry) : ZipEntry :=
  { entry with dataLimit := limit }

/-- The refusal of an entry that the one before it reaches into. -/
def studioOverlap
    (entry : ZipEntry) : Failure ZipRefusal :=
  .refused (refusal "bundle_overlap"
    (excerpt entry.name ++ literal " overlaps the entry before it"))

/-- The number of bytes that entries declare once they are inflated. -/
def declaredBytes
    (entries : List ZipEntry) : ℕ :=
  (entries.map ZipEntry.uncompressedSize).sum

/-- Locate and parse the central directory. -/
def readZipDirectory
    (source : ZipByteSource)
    (limits : ZipReadLimits) : Studio ZipDirectory := do
  let (location, _) ← locateStudioDirectory source limits
  let directory ←
    source.readAt location.directoryOffset location.directorySize
  let (entries, cursor) ←
    readStudioEntries limits directory location.directoryOffset
      location.entryCount 0 0 []
  refuseIf (limits.strictPaths ∧ cursor ≠ directory.length)
    (refusal "bundle_corrupt"
      (literal "The central directory contains unreported records"))
  refuseIf (limits.maxUncompressedBytes < declaredBytes entries)
    (refusal "bundle_too_large"
      (literal "The archive declares " ++ decimal (declaredBytes entries) ++
        literal " bytes once inflated"))
  let limited ←
    Extents.limitInOrder ZipEntry.localHeaderOffset ZipEntry.leastEnd
      ZipEntry.withLimit studioOverlap
      (Extents.inOrder ZipEntry.localHeaderOffset entries) entries
  return { entries := limited }

/-- The compression method of an entry. -/
def ZipEntry.method
    (entry : ZipEntry) : ℕ :=
  match entry.compression with
  | .store =>
      METHOD_STORE
  | .deflate =>
      METHOD_DEFLATE

/-- Where the data of an entry starts, from its local header. -/
def zipEntryDataOffset
    (source : ZipByteSource)
    (entry : ZipEntry) : Studio ℕ := do
  let missing := refusal "bundle_corrupt"
    (excerpt entry.name ++ literal " has no local file header")
  let header ← source.readAt entry.localHeaderOffset LOCAL_MIN
  refuseIf (header.length < LOCAL_MIN) missing
  let signature ← readUInt32LE header 0
  refuseIf (signature ≠ LOCAL_SIGNATURE) missing
  let nameLength ← readUInt16LE header 26
  let extraLength ← readUInt16LE header 28
  let localName ←
    source.readAt (entry.localHeaderOffset + LOCAL_MIN) nameLength
  let flags ← readUInt16LE header 6
  let method ← readUInt16LE header 8
  refuseIf
    (flags ≠ entry.flags ∨ method ≠ entry.method ∨
      localName ≠ encode entry.name)
    (refusal "bundle_corrupt"
      (excerpt entry.name ++ literal " local and central headers disagree"))
  let crc32 ← readUInt32LE header 14
  let compressedSize ← readUInt32LE header 18
  let uncompressedSize ← readUInt32LE header 22
  refuseIf
    (entry.flags &&& 8 = 0 ∧
      (crc32 ≠ entry.crc32 ∨
        (compressedSize ≠ MARKER_32 ∧
          compressedSize ≠ entry.compressedSize) ∨
        (uncompressedSize ≠ MARKER_32 ∧
          uncompressedSize ≠ entry.uncompressedSize)))
    (refusal "bundle_corrupt"
      (excerpt entry.name ++ literal " local and central sizes disagree"))
  let start := entry.localHeaderOffset + LOCAL_MIN + nameLength + extraLength
  refuseIf (source.size < start + entry.compressedSize)
    (refusal "bundle_corrupt"
      (excerpt entry.name ++ literal " runs past the end of the file"))
  refuseIf (entry.dataLimit < start + entry.compressedSize)
    (refusal "bundle_overlap"
      (excerpt entry.name ++ literal " runs into the entry after it"))
  return start

/-- Inflate the bytes of an entry within its declared size. -/
def inflateEntry
    (zlib : Zlib)
    (raw : Bytes)
    (entry : ZipEntry) : Studio Bytes :=
  match zlib.inflateRawSync raw (max 1 entry.uncompressedSize) with
  | some bytes =>
      .ok bytes
  | none =>
      refuse (refusal "bundle_corrupt"
        (excerpt entry.name ++
          literal " could not be inflated within its declared size"))

/-- The bytes of an entry before they are checked. -/
def entryBytes
    (zlib : Zlib)
    (source : ZipByteSource)
    (entry : ZipEntry)
    (maxBytes : ℕ) : Studio Bytes := do
  refuseIf
    (maxBytes < entry.uncompressedSize ∨ maxBytes < entry.compressedSize)
    (refusal "bundle_too_large"
      (excerpt entry.name ++ literal " is too large to read into memory"))
  let start ← zipEntryDataOffset source entry
  let raw ← source.readAt start entry.compressedSize
  refuseIf (raw.length ≠ entry.compressedSize)
    (refusal "bundle_corrupt" (excerpt entry.name ++ literal " is truncated"))
  match entry.compression with
  | .store =>
      return raw
  | .deflate =>
      inflateEntry zlib raw entry

/-- Read one small entry into memory. -/
def readZipEntry
    (zlib : Zlib)
    (source : ZipByteSource)
    (entry : ZipEntry)
    (maxBytes : ℕ) : Studio Bytes := do
  let bytes ← entryBytes zlib source entry maxBytes
  refuseIf (bytes.length ≠ entry.uncompressedSize)
    (refusal "bundle_corrupt"
      (excerpt entry.name ++
        literal " inflated to a different size than declared"))
  refuseIf (zlib.crc32 bytes ≠ entry.crc32)
    (refusal "bundle_corrupt"
      (excerpt entry.name ++ literal " CRC does not match"))
  return bytes

end Frameleaf.Zip
