import Frameleaf.Zip.Studio

namespace Frameleaf.Zip

open ByteBuffer Outcome Utf8

/-!
# Accepted Studio archives are well formed

The entries of an accepted archive have plain names of their own, their data
lies apart and before the directory, and a strict archive holds nothing between
its entries and its end record.  An entry is read only as it was declared.
-/

/-- A name that no extraction can misread. -/
structure PlainName
    (name : Text) : Prop where
  notEmpty : name ≠ []
  noNul : Char.ofNat 0 ∉ name
  noBackslash : '\\' ∉ name
  notAbsolute : name.head? ≠ some '/'
  noDrive : startsWithDrive name = false
  noTraversal : ['.', '.'] ∉ segments name

variable {name : Text}

theorem plainName_of_zipEntryNameProblem
    (noProblem : zipEntryNameProblem name = none) :
    PlainName name := by
  rw [zipEntryNameProblem] at noProblem
  split at noProblem
  · simp at noProblem
  rename_i hasLength
  split at noProblem
  · simp at noProblem
  rename_i noNul
  split at noProblem
  · simp at noProblem
  rename_i noBackslash
  split at noProblem
  · simp at noProblem
  rename_i relative
  split at noProblem
  · simp at noProblem
  split at noProblem
  · simp at noProblem
  rename_i noTraversal
  rw [not_or] at relative
  refine ⟨?_, noNul, noBackslash, relative.1, ?_, ?_⟩
  · rintro rfl
    simp [units] at hasLength
  · simpa using relative.2
  · intro member
    apply noTraversal
    rw [List.any_eq_true]
    exact ⟨_, member, by simp⟩

/-- What the checks of an entry establish. -/
structure CheckedEntry
    (directoryOffset : ℕ)
    (before : List ZipEntry)
    (name : Text)
    (entry : ZipEntry) : Prop where
  name : entry.name = name
  plain : PlainName entry.name
  fresh : ∀ other ∈ before, other.name ≠ entry.name
  leastEnd : entry.leastEnd ≤ directoryOffset
  dataLimit : entry.dataLimit = directoryOffset
  stored : entry.compression = .store →
    entry.compressedSize = entry.uncompressedSize

variable {limits : ZipReadLimits}
  {directoryOffset endRecord index cursor stop places eocd maxBytes : ℕ}
  {before entries read : List ZipEntry} {entry : ZipEntry}

theorem checkedEntry_of_checkStudioEntry
    {header : CentralHeader}
    {extra : Bytes}
    (isChecked : checkStudioEntry limits directoryOffset before header name
      extra = .ok entry) :
    CheckedEntry directoryOffset before name entry := by
  obtain ⟨_, -, isChecked⟩ := bind_eq_ok.mp isChecked
  obtain ⟨sizes, -, isChecked⟩ := bind_eq_ok.mp isChecked
  obtain ⟨_, -, isChecked⟩ := bind_eq_ok.mp isChecked
  obtain ⟨_, -, isChecked⟩ := bind_eq_ok.mp isChecked
  obtain ⟨_, hasName, isChecked⟩ := bind_eq_ok.mp isChecked
  obtain ⟨_, isFresh, isChecked⟩ := bind_eq_ok.mp isChecked
  obtain ⟨_, isInside, isChecked⟩ := bind_eq_ok.mp isChecked
  obtain ⟨_, isStored, isChecked⟩ := bind_eq_ok.mp isChecked
  obtain ⟨_, -, isChecked⟩ := bind_eq_ok.mp isChecked
  obtain ⟨_, -, isChecked⟩ := bind_eq_ok.mp isChecked
  rw [pure_eq_ok] at isChecked
  rw [refuseIf_eq_ok] at isFresh isInside isStored
  have noProblem : zipEntryNameProblem name = none := by
    rw [checkName] at hasName
    split at hasName
    · simp at hasName
    · assumption
  subst isChecked
  constructor
  · rfl
  · exact plainName_of_zipEntryNameProblem noProblem
  · intro other member same
    have distinct := List.any_eq_false.mp isFresh other member
    simp [same] at distinct
  · simpa [ZipEntry.leastEnd] using isInside
  · rfl
  · intro isStore
    have method : header.method = METHOD_STORE := by
      by_contra notStore
      simp [notStore] at isStore
    simpa [method] using isStored

/-- Names that fill a directory from a cursor to another, record by record. -/
inductive Tiled
    (limits : ZipReadLimits)
    (directory : Bytes) : ℕ → List Text → ℕ → Prop where
  | done (cursor : ℕ) :
      Tiled limits directory cursor [] cursor
  | record (cursor stop : ℕ) (header : CentralHeader) (name : Text)
      (names : List Text)
      (isEntry : (isCentralEntry directory cursor : Studio Bool) = .ok true)
      (isHeader : (readCentralHeader directory cursor :
        Studio CentralHeader) = .ok header)
      (within : header.recordEnd cursor ≤ directory.length)
      (isName : entryName limits
        (subarray directory (cursor + CENTRAL_MIN)
          (cursor + CENTRAL_MIN + header.nameLength)) = .ok name)
      (rest : Tiled limits directory (header.recordEnd cursor) names stop) :
      Tiled limits directory cursor (name :: names) stop

/-- What is known of the entries that are read so far. -/
structure ReadEntries
    (directoryOffset : ℕ)
    (entries : List ZipEntry) : Prop where
  names : (entries.map ZipEntry.name).Nodup
  plain : ∀ entry ∈ entries, PlainName entry.name
  leastEnd : ∀ entry ∈ entries, entry.leastEnd ≤ directoryOffset
  dataLimit : ∀ entry ∈ entries, entry.dataLimit = directoryOffset
  stored : ∀ entry ∈ entries, entry.compression = .store →
    entry.compressedSize = entry.uncompressedSize

theorem readEntries_nil
    (directoryOffset : ℕ) :
    ReadEntries directoryOffset [] :=
  ⟨List.nodup_nil, by simp, by simp, by simp, by simp⟩

theorem ReadEntries.append
    (known : ReadEntries directoryOffset entries)
    (checked : CheckedEntry directoryOffset entries name entry) :
    ReadEntries directoryOffset (entries ++ [entry]) := by
  have each {property : ZipEntry → Prop}
      (before : ∀ other ∈ entries, property other)
      (new : property entry) :
      ∀ other ∈ entries ++ [entry], property other := by
    intro other member
    rcases List.mem_append.mp member with member | member
    · exact before other member
    · exact List.mem_singleton.mp member ▸ new
  constructor
  · rw [List.map_append, List.map_singleton]
    apply List.nodup_append.mpr
    refine ⟨known.names, List.nodup_singleton _, ?_⟩
    intro first isFirst second isSecond
    obtain ⟨other, member, rfl⟩ := List.mem_map.mp isFirst
    rw [List.mem_singleton] at isSecond
    rw [isSecond]
    exact checked.fresh other member
  · exact each known.plain checked.plain
  · exact each known.leastEnd checked.leastEnd
  · exact each known.dataLimit checked.dataLimit
  · exact each known.stored checked.stored

theorem readStudioEntry_record
    {directory : Bytes}
    {next : ℕ}
    {names : List Text}
    (isRead : readStudioEntry limits directory directoryOffset index cursor
      before = .ok (entry, next))
    (rest : Tiled limits directory next names stop) :
    (∃ name, CheckedEntry directoryOffset before name entry) ∧
      Tiled limits directory cursor (entry.name :: names) stop := by
  obtain ⟨isEntry, hasSignature, isRead⟩ := bind_eq_ok.mp isRead
  obtain ⟨_, isKept, isRead⟩ := bind_eq_ok.mp isRead
  obtain ⟨header, isHeader, isRead⟩ := bind_eq_ok.mp isRead
  obtain ⟨_, fits, isRead⟩ := bind_eq_ok.mp isRead
  obtain ⟨name, isName, isRead⟩ := bind_eq_ok.mp isRead
  obtain ⟨checked, isChecked, isRead⟩ := bind_eq_ok.mp isRead
  rw [pure_eq_ok, Prod.mk.injEq] at isRead
  obtain ⟨rfl, rfl⟩ := isRead
  rw [refuseIf_eq_ok, Bool.not_eq_false'] at isKept
  rw [isKept] at hasSignature
  rw [refuseIf_eq_ok, decide_eq_false_iff_not, not_lt] at fits
  have facts := checkedEntry_of_checkStudioEntry isChecked
  refine ⟨⟨name, facts⟩, ?_⟩
  rw [facts.name]
  exact .record cursor stop header name names hasSignature isHeader fits
    isName rest

theorem readStudioEntries_tiled
    {directory : Bytes}
    {count : ℕ}
    (areRead : readStudioEntries limits directory directoryOffset count index
      cursor before = .ok (entries, stop))
    (known : ReadEntries directoryOffset before) :
    ReadEntries directoryOffset entries ∧
      ∃ added, entries = before ++ added ∧
        Tiled limits directory cursor (added.map ZipEntry.name) stop := by
  induction count generalizing index cursor before with
  | zero =>
      rw [readStudioEntries, Except.ok.injEq, Prod.mk.injEq] at areRead
      obtain ⟨rfl, rfl⟩ := areRead
      exact ⟨known, [], by simp, .done cursor⟩
  | succ count inductionHypothesis =>
      obtain ⟨⟨entry, next⟩, isRead, areRead⟩ := bind_eq_ok.mp areRead
      obtain ⟨⟨name, checked⟩, -⟩ :=
        readStudioEntry_record isRead (.done next)
      obtain ⟨readKnown, added, shape, rest⟩ :=
        inductionHypothesis areRead (known.append checked)
      refine ⟨readKnown, entry :: added, ?_, ?_⟩
      · rw [shape, List.append_assoc, List.singleton_append]
      · exact (readStudioEntry_record isRead rest).2

/-- Where a located directory and its end record lie. -/
structure Located
    (bytes : Bytes)
    (limits : ZipReadLimits)
    (location : StudioLocation)
    (endRecord : ℕ) : Prop where
  within :
    location.directoryOffset + location.directorySize ≤ bytes.length
  atEnd : limits.strictPaths = true →
    location.directoryOffset + location.directorySize = endRecord
  strictEnd : limits.strictPaths = true →
    ∃ commentLength,
      (readUInt32LE bytes endRecord : Studio ℕ) = .ok EOCD_SIGNATURE ∧
        (readUInt16LE bytes (endRecord + 20) : Studio ℕ) =
          .ok commentLength ∧
        endRecord + EOCD_MIN + commentLength = bytes.length

theorem strictEnd_of_isEndRecord
    {tail : Bytes}
    {offset : ℕ}
    (strict : limits.strictPaths = true)
    (isEnd : isEndRecord limits tail offset = .ok true) :
    ∃ commentLength,
      (readUInt32LE tail offset : Studio ℕ) = .ok EOCD_SIGNATURE ∧
        (readUInt16LE tail (offset + 20) : Studio ℕ) = .ok commentLength ∧
        offset + EOCD_MIN + commentLength = tail.length := by
  obtain ⟨signature, isSignature, isEnd⟩ := bind_eq_ok.mp isEnd
  split at isEnd
  · rename_i same
    obtain ⟨commentLength, isComment, isEnd⟩ := bind_eq_ok.mp isEnd
    rw [pure_eq_ok, beq_iff_eq] at isEnd
    exact ⟨commentLength, same ▸ isSignature, isComment, isEnd⟩
  · simp [pure_eq_ok] at isEnd

theorem isEndRecord_of_findStudioEndFrom
    {tail : Bytes}
    (isFound : findStudioEndFrom limits tail places = .ok (some eocd)) :
    isEndRecord limits tail eocd = .ok true := by
  induction places with
  | zero =>
      simp [findStudioEndFrom] at isFound
  | succ offset inductionHypothesis =>
      obtain ⟨isEnd, here, isFound⟩ := bind_eq_ok.mp isFound
      split at isFound
      · rename_i taken
        rw [Except.ok.injEq, Option.some.injEq] at isFound
        rw [← isFound, here, taken]
      · exact inductionHypothesis isFound

variable {bytes : Bytes}

theorem readAt_sourceOf
    {Refusal : Type*}
    {part : Bytes}
    {position length : ℕ}
    (isRead : ((sourceOf bytes).readAt position length :
      Except (Failure Refusal) Bytes) = .ok part) :
    part = subarray bytes position (position + length) := by
  rw [ZipByteSource.readAt, sourceOf, Except.ok.injEq] at isRead
  exact isRead.symm

theorem strictEnd_of_findStudioEndFrom
    {tailStart tailLength : ℕ}
    (tailEnds : tailStart + tailLength = bytes.length)
    (strict : limits.strictPaths = true)
    (isFound : findStudioEndFrom limits
      (subarray bytes tailStart (tailStart + tailLength)) places =
        .ok (some eocd)) :
    ∃ commentLength,
      (readUInt32LE bytes (tailStart + eocd) : Studio ℕ) =
          .ok EOCD_SIGNATURE ∧
        (readUInt16LE bytes (tailStart + eocd + 20) : Studio ℕ) =
          .ok commentLength ∧
        tailStart + eocd + EOCD_MIN + commentLength = bytes.length := by
  obtain ⟨commentLength, hasSignature, hasComment, ends⟩ :=
    strictEnd_of_isEndRecord strict (isEndRecord_of_findStudioEndFrom isFound)
  have isLength := @length_subarray bytes tailStart _ tailEnds.le
  rw [isLength] at ends
  refine ⟨commentLength, readUIntLE_subarray tailEnds.le hasSignature, ?_, ?_⟩
  · rw [Nat.add_assoc]
    exact readUIntLE_subarray tailEnds.le hasComment
  · omega

variable {location : StudioLocation}

theorem located_of_locateStudioDirectory
    (isLocated : locateStudioDirectory (sourceOf bytes) limits =
      .ok (location, endRecord)) :
    Located bytes limits location endRecord := by
  obtain ⟨_, -, isLocated⟩ := bind_eq_ok.mp isLocated
  obtain ⟨_, -, isLocated⟩ := bind_eq_ok.mp isLocated
  obtain ⟨tail, isTail, isLocated⟩ := bind_eq_ok.mp isLocated
  obtain ⟨found, isFound, isLocated⟩ := bind_eq_ok.mp isLocated
  have tailShape := readAt_sourceOf isTail
  have tailEnds :
      (sourceOf bytes).size -
          min (sourceOf bytes).size (EOCD_MIN + EOCD_MAX_COMMENT) +
        min (sourceOf bytes).size (EOCD_MIN + EOCD_MAX_COMMENT) =
          bytes.length :=
    Nat.sub_add_cancel (Nat.min_le_left _ _)
  cases found with
  | none =>
      simp at isLocated
  | some eocd =>
      obtain ⟨read, -, isLocated⟩ := bind_eq_ok.mp isLocated
      obtain ⟨_, -, isLocated⟩ := bind_eq_ok.mp isLocated
      obtain ⟨_, isInside, isLocated⟩ := bind_eq_ok.mp isLocated
      obtain ⟨_, isStrict, isLocated⟩ := bind_eq_ok.mp isLocated
      obtain ⟨_, -, isLocated⟩ := bind_eq_ok.mp isLocated
      rw [pure_eq_ok, Prod.mk.injEq] at isLocated
      obtain ⟨rfl, rfl⟩ := isLocated
      rw [refuseIf_eq_ok, decide_eq_false_iff_not, not_or, not_lt] at isInside
      rw [refuseIf_eq_ok, decide_eq_false_iff_not, not_and,
        not_not] at isStrict
      constructor
      · exact isInside.1
      · exact isStrict
      · intro strict
        rw [tailShape] at isFound
        exact strictEnd_of_findStudioEndFrom tailEnds strict isFound

/-- A limited entry carries its limit. -/
@[simp] theorem ZipEntry.dataLimit_withLimit
    (limit : ℕ)
    (entry : ZipEntry) :
    (entry.withLimit limit).dataLimit = limit :=
  rfl

/-- A limited entry starts where it did. -/
@[simp] theorem ZipEntry.localHeaderOffset_withLimit
    (limit : ℕ)
    (entry : ZipEntry) :
    (entry.withLimit limit).localHeaderOffset = entry.localHeaderOffset :=
  rfl

/-- A limited entry keeps its name. -/
@[simp] theorem ZipEntry.name_withLimit
    (limit : ℕ)
    (entry : ZipEntry) :
    (entry.withLimit limit).name = entry.name :=
  rfl

/-- A limited entry declares what it did. -/
@[simp] theorem ZipEntry.uncompressedSize_withLimit
    (limit : ℕ)
    (entry : ZipEntry) :
    (entry.withLimit limit).uncompressedSize = entry.uncompressedSize :=
  rfl

/-- What an accepted archive was found to hold. -/
structure AcceptedArchive
    (bytes : Bytes)
    (limits : ZipReadLimits)
    (entries : List ZipEntry)
    (location : StudioLocation)
    (endRecord : ℕ)
    (read : List ZipEntry) : Prop where
  isLocated : locateStudioDirectory (sourceOf bytes) limits =
    .ok (location, endRecord)
  located : Located bytes limits location endRecord
  known : ReadEntries location.directoryOffset read
  tiled : limits.strictPaths = true →
    Tiled limits
      (subarray bytes location.directoryOffset
        (location.directoryOffset + location.directorySize))
      0 (read.map ZipEntry.name) location.directorySize
  declared : declaredBytes read ≤ limits.maxUncompressedBytes
  limited : Extents.Limited ZipEntry.localHeaderOffset ZipEntry.leastEnd
    ZipEntry.withLimit
    (Extents.inOrder ZipEntry.localHeaderOffset read) read entries

theorem acceptedArchive_of_readZipDirectory
    {directory : ZipDirectory}
    (isAccepted : readZipDirectory (sourceOf bytes) limits = .ok directory) :
    ∃ location endRecord read,
      AcceptedArchive bytes limits directory.entries location endRecord
        read := by
  obtain ⟨⟨location, endRecord⟩, isLocated, isAccepted⟩ :=
    bind_eq_ok.mp isAccepted
  obtain ⟨records, isDirectory, isAccepted⟩ := bind_eq_ok.mp isAccepted
  obtain ⟨⟨read, cursor⟩, areRead, isAccepted⟩ := bind_eq_ok.mp isAccepted
  obtain ⟨_, isComplete, isAccepted⟩ := bind_eq_ok.mp isAccepted
  obtain ⟨_, isDeclared, isAccepted⟩ := bind_eq_ok.mp isAccepted
  obtain ⟨limited, isLimited, isAccepted⟩ := bind_eq_ok.mp isAccepted
  rw [pure_eq_ok] at isAccepted
  subst isAccepted
  rw [refuseIf_eq_ok, decide_eq_false_iff_not, not_and, not_not] at isComplete
  rw [refuseIf_eq_ok, decide_eq_false_iff_not, not_lt] at isDeclared
  have located := located_of_locateStudioDirectory isLocated
  have shape := readAt_sourceOf isDirectory
  have isLength :=
    @length_subarray bytes location.directoryOffset _ located.within
  obtain ⟨known, added, rfl, tiled⟩ :=
    readStudioEntries_tiled areRead (readEntries_nil _)
  refine ⟨location, endRecord, _, isLocated, located, known, ?_, isDeclared,
    ?_⟩
  · intro strict
    rw [shape] at tiled isComplete
    rw [isComplete strict, isLength, Nat.add_sub_cancel_left] at tiled
    exact tiled
  · apply Extents.limited_inOrder _ isLimited
    intro entry
    rw [ZipEntry.leastEnd, LOCAL_MIN]
    omega

theorem AcceptedArchive.dataLimit_le
    {place : ℕ}
    (accepted : AcceptedArchive bytes limits entries location endRecord read)
    (isEntry : entries[place]? = some entry) :
    entry.dataLimit ≤ location.directoryOffset := by
  obtain ⟨before, isBefore, shape⟩ := accepted.limited.source isEntry
  rcases shape with rfl | ⟨other, isOther, rfl⟩
  · exact (accepted.known.dataLimit _ (List.mem_of_getElem? isBefore)).le
  · have checked := accepted.known.leastEnd other isOther
    rw [ZipEntry.leastEnd] at checked
    change other.localHeaderOffset ≤ location.directoryOffset
    omega

theorem within_of_zipEntryDataOffset
    {source : ZipByteSource}
    {start : ℕ}
    (starts : zipEntryDataOffset source entry = .ok start) :
    entry.localHeaderOffset ≤ start ∧
      start + entry.compressedSize ≤ entry.dataLimit := by
  obtain ⟨header, -, starts⟩ := bind_eq_ok.mp starts
  obtain ⟨_, -, starts⟩ := bind_eq_ok.mp starts
  obtain ⟨signature, -, starts⟩ := bind_eq_ok.mp starts
  obtain ⟨_, -, starts⟩ := bind_eq_ok.mp starts
  obtain ⟨nameLength, -, starts⟩ := bind_eq_ok.mp starts
  obtain ⟨extraLength, -, starts⟩ := bind_eq_ok.mp starts
  obtain ⟨localName, -, starts⟩ := bind_eq_ok.mp starts
  obtain ⟨flags, -, starts⟩ := bind_eq_ok.mp starts
  obtain ⟨method, -, starts⟩ := bind_eq_ok.mp starts
  obtain ⟨_, -, starts⟩ := bind_eq_ok.mp starts
  obtain ⟨crc32, -, starts⟩ := bind_eq_ok.mp starts
  obtain ⟨compressedSize, -, starts⟩ := bind_eq_ok.mp starts
  obtain ⟨uncompressedSize, -, starts⟩ := bind_eq_ok.mp starts
  obtain ⟨_, -, starts⟩ := bind_eq_ok.mp starts
  obtain ⟨_, -, starts⟩ := bind_eq_ok.mp starts
  obtain ⟨_, isInside, starts⟩ := bind_eq_ok.mp starts
  rw [pure_eq_ok] at starts
  rw [refuseIf_eq_ok, decide_eq_false_iff_not, not_lt] at isInside
  subst starts
  exact ⟨by omega, isInside⟩

theorem AcceptedArchive.ends_before
    {i j firstStart secondStart : ℕ}
    {first second : ZipEntry}
    (accepted : AcceptedArchive bytes limits entries location endRecord read)
    (different : i ≠ j)
    (isFirst : entries[i]? = some first)
    (isSecond : entries[j]? = some second)
    (firstStarts : zipEntryDataOffset (sourceOf bytes) first =
      .ok firstStart)
    (secondStarts : zipEntryDataOffset (sourceOf bytes) second =
      .ok secondStart)
    (ordered : first.localHeaderOffset ≤ second.localHeaderOffset) :
    firstStart + first.compressedSize ≤ secondStart := by
  have limited : first.dataLimit ≤ second.localHeaderOffset :=
    accepted.limited.limitOf_le ZipEntry.dataLimit_withLimit
      ZipEntry.localHeaderOffset_withLimit different isFirst isSecond ordered
  have firstWithin := within_of_zipEntryDataOffset firstStarts
  have secondWithin := within_of_zipEntryDataOffset secondStarts
  omega

theorem AcceptedArchive.declaredBytes_eq
    (accepted : AcceptedArchive bytes limits entries location endRecord
      read) :
    declaredBytes entries = declaredBytes read := by
  rw [declaredBytes, declaredBytes,
    accepted.limited.map_eq ZipEntry.uncompressedSize_withLimit]

theorem length_le_of_entryBytes
    {zlib : Zlib}
    {source : ZipByteSource}
    {produced : Bytes}
    (stored : entry.compression = .store →
      entry.compressedSize = entry.uncompressedSize)
    (isProduced : entryBytes zlib source entry maxBytes = .ok produced) :
    produced.length ≤ max 1 entry.uncompressedSize := by
  obtain ⟨_, -, isProduced⟩ := bind_eq_ok.mp isProduced
  obtain ⟨start, -, isProduced⟩ := bind_eq_ok.mp isProduced
  obtain ⟨raw, -, isProduced⟩ := bind_eq_ok.mp isProduced
  obtain ⟨_, isWhole, isProduced⟩ := bind_eq_ok.mp isProduced
  rw [refuseIf_eq_ok, decide_eq_false_iff_not, not_not] at isWhole
  cases method : entry.compression with
  | store =>
      simp only [method, pure_eq_ok] at isProduced
      rw [← isProduced, isWhole, stored method]
      exact Nat.le_max_right _ _
  | deflate =>
      simp only [method, inflateEntry] at isProduced
      split at isProduced
      · rename_i bytes isInflated
        rw [Except.ok.injEq] at isProduced
        rw [← isProduced]
        exact zlib.bounded _ _ _ isInflated
      · simp at isProduced

theorem declared_of_readZipEntry
    {zlib : Zlib}
    {source : ZipByteSource}
    {returned : Bytes}
    (isRead : readZipEntry zlib source entry maxBytes = .ok returned) :
    returned.length = entry.uncompressedSize ∧
      zlib.crc32 returned = entry.crc32 := by
  obtain ⟨bytes, -, isRead⟩ := bind_eq_ok.mp isRead
  obtain ⟨_, isLength, isRead⟩ := bind_eq_ok.mp isRead
  obtain ⟨_, isChecksum, isRead⟩ := bind_eq_ok.mp isRead
  rw [pure_eq_ok] at isRead
  rw [refuseIf_eq_ok, decide_eq_false_iff_not, not_not] at isLength isChecksum
  subst isRead
  exact ⟨isLength, isChecksum⟩

/-- An accepted Studio archive holds what its directory lists. -/
structure StudioLaws
    (zlib : Zlib)
    (bytes : Bytes)
    (limits : ZipReadLimits)
    (directory : ZipDirectory) : Prop where
  /-- Entry names are pairwise distinct and plain. -/
  names : (directory.entries.map ZipEntry.name).Nodup ∧
    ∀ entry ∈ directory.entries, PlainName entry.name
  /-- The data of the entries ends before the directory. -/
  beforeDirectory : ∃ location endRecord,
    locateStudioDirectory (sourceOf bytes) limits =
        .ok (location, endRecord) ∧
      location.directoryOffset + location.directorySize ≤ bytes.length ∧
      ∀ entry ∈ directory.entries, ∀ start,
        zipEntryDataOffset (sourceOf bytes) entry = .ok start →
          start + entry.compressedSize ≤ location.directoryOffset
  /-- The data of any two entries lies apart. -/
  apart : ∀ (i j : ℕ) (first second : ZipEntry), i ≠ j →
    directory.entries[i]? = some first →
    directory.entries[j]? = some second →
    ∀ firstStart secondStart,
      zipEntryDataOffset (sourceOf bytes) first = .ok firstStart →
      zipEntryDataOffset (sourceOf bytes) second = .ok secondStart →
        firstStart + first.compressedSize ≤ secondStart ∨
          secondStart + second.compressedSize ≤ firstStart
  /-- The sizes that are declared are within their limit together. -/
  declared : declaredBytes directory.entries ≤ limits.maxUncompressedBytes
  /-- The records of the entries fill a strict archive up to its end record. -/
  strict : limits.strictPaths = true →
    ∃ location endRecord commentLength,
      locateStudioDirectory (sourceOf bytes) limits =
          .ok (location, endRecord) ∧
        location.directoryOffset + location.directorySize = endRecord ∧
        Tiled limits (subarray bytes location.directoryOffset endRecord) 0
          (directory.entries.map ZipEntry.name) location.directorySize ∧
        (readUInt32LE bytes endRecord : Studio ℕ) = .ok EOCD_SIGNATURE ∧
        (readUInt16LE bytes (endRecord + 20) : Studio ℕ) =
          .ok commentLength ∧
        endRecord + EOCD_MIN + commentLength = bytes.length
  /-- An entry produces at most one byte or what it declares. -/
  produced : ∀ entry ∈ directory.entries, ∀ maxBytes produced,
    entryBytes zlib (sourceOf bytes) entry maxBytes = .ok produced →
      produced.length ≤ max 1 entry.uncompressedSize
  /-- An entry is returned with its declared length and checksum only. -/
  returned : ∀ entry ∈ directory.entries, ∀ maxBytes returned,
    readZipEntry zlib (sourceOf bytes) entry maxBytes = .ok returned →
      returned.length = entry.uncompressedSize ∧
        zlib.crc32 returned = entry.crc32

theorem AcceptedArchive.source
    (accepted : AcceptedArchive bytes limits entries location endRecord read)
    (member : entry ∈ entries) :
    ∃ before ∈ read, ∃ limit,
      entry = { before with dataLimit := limit } := by
  obtain ⟨place, isEntry⟩ := List.mem_iff_getElem?.mp member
  obtain ⟨before, isBefore, shape⟩ := accepted.limited.source isEntry
  refine ⟨before, List.mem_of_getElem? isBefore, ?_⟩
  rcases shape with rfl | ⟨other, -, rfl⟩
  · exact ⟨entry.dataLimit, rfl⟩
  · exact ⟨other.localHeaderOffset, rfl⟩

/--
Accepted Studio archives hold what their directories list, and their entries
are read as they were declared.
-/
theorem studioLaws
    (zlib : Zlib)
    (bytes : Bytes)
    (limits : ZipReadLimits)
    (directory : ZipDirectory) :
    readZipDirectory (sourceOf bytes) limits = .ok directory →
      StudioLaws zlib bytes limits directory := by
  intro isAccepted
  obtain ⟨location, endRecord, read, accepted⟩ :=
    acceptedArchive_of_readZipDirectory isAccepted
  have namesEq := accepted.limited.map_eq ZipEntry.name_withLimit
  constructor
  · constructor
    · rw [namesEq]
      exact accepted.known.names
    · intro entry member
      obtain ⟨before, isBefore, limit, rfl⟩ := accepted.source member
      exact accepted.known.plain before isBefore
  · refine ⟨location, endRecord, accepted.isLocated, accepted.located.within,
      ?_⟩
    intro entry member start starts
    obtain ⟨place, isEntry⟩ := List.mem_iff_getElem?.mp member
    have limit := accepted.dataLimit_le isEntry
    have within := within_of_zipEntryDataOffset starts
    omega
  · intro i j first second different isFirst isSecond firstStart secondStart
      firstStarts secondStarts
    rcases Nat.le_total first.localHeaderOffset second.localHeaderOffset with
      ordered | ordered
    · left
      exact accepted.ends_before different isFirst isSecond firstStarts
        secondStarts ordered
    · right
      exact accepted.ends_before different.symm isSecond isFirst secondStarts
        firstStarts ordered
  · rw [accepted.declaredBytes_eq]
    exact accepted.declared
  · intro strict
    obtain ⟨commentLength, hasSignature, hasComment, ends⟩ :=
      accepted.located.strictEnd strict
    have atEnd := accepted.located.atEnd strict
    refine ⟨location, endRecord, commentLength, accepted.isLocated, atEnd, ?_,
      hasSignature, hasComment, ends⟩
    rw [← atEnd, namesEq]
    exact accepted.tiled strict
  · intro entry member maxBytes produced isProduced
    obtain ⟨before, isBefore, limit, rfl⟩ := accepted.source member
    exact length_le_of_entryBytes (accepted.known.stored before isBefore)
      isProduced
  · intro entry _ maxBytes returned isRead
    exact declared_of_readZipEntry isRead

/-- An inflater that knows the compressed form of one byte only. -/
def oneByteZlib : Zlib where
  inflateRawSync := fun raw maxOutputLength =>
    if raw = [0x4b, 0x04, 0x00] ∧ 1 ≤ maxOutputLength then
      some [0x61]
    else
      none
  crc32 := fun bytes => if bytes = [0x61] then 0xe8b7be43 else 0
  bounded := by
    intro raw maxOutputLength bytes isInflated
    split at isInflated
    · rename_i enough
      rw [Option.some.injEq] at isInflated
      rw [← isInflated]
      exact enough.2
    · simp at isInflated

/-- Limits for small archives. -/
def smallLimits : ZipReadLimits where
  strictPaths := true
  maxBytes := 1000
  maxEntries := 10
  maxDirectoryBytes := 500
  maxUncompressedBytes := 100
  documentLimit := fun _ => none
  allowZip64 := false

/-- The fields that both headers of an entry that declares no byte share. -/
def undeclaredByteFields : Bytes :=
  [20, 0, 0, 0, 8, 0, 0, 0, 0, 0, 0, 0, 0, 0, 3, 0, 0, 0, 0, 0, 0, 0, 1, 0,
    0, 0]

/-- An archive whose one entry declares no byte and inflates to one. -/
def undeclaredByteArchive : Bytes :=
  [0x50, 0x4b, 0x03, 0x04] ++ undeclaredByteFields ++ [0x61] ++
    [0x4b, 0x04, 0x00] ++
    [0x50, 0x4b, 0x01, 0x02, 20, 0] ++ undeclaredByteFields ++
    [0, 0, 0, 0, 0, 0, 0, 0, 0, 0, 0, 0, 0, 0] ++ [0x61] ++
    [0x50, 0x4b, 0x05, 0x06, 0, 0, 0, 0, 1, 0, 1, 0, 47, 0, 0, 0, 34, 0, 0, 0,
      0, 0]

/-- The one entry of the archive. -/
def undeclaredByteEntry : ZipEntry where
  flags := 0
  name := ['a']
  compression := .deflate
  compressedSize := 3
  uncompressedSize := 0
  crc32 := 0
  localHeaderOffset := 0
  dataLimit := 34

theorem readZipDirectory_undeclaredByteArchive :
    readZipDirectory (sourceOf undeclaredByteArchive) smallLimits =
      .ok { entries := [undeclaredByteEntry] } := by
  decide +kernel

/-- The laws hold of the archive whose entry declares no byte. -/
theorem studioLaws_of_undeclaredByteArchive :
    StudioLaws oneByteZlib undeclaredByteArchive smallLimits
      { entries := [undeclaredByteEntry] } :=
  studioLaws oneByteZlib undeclaredByteArchive smallLimits _
    readZipDirectory_undeclaredByteArchive

/-- An entry that declares no byte can produce one before it is refused. -/
theorem entryBytes_exceeds_an_empty_declaration :
    ¬ ∀ (zlib : Zlib) (bytes : Bytes) (limits : ZipReadLimits)
        (directory : ZipDirectory),
      readZipDirectory (sourceOf bytes) limits = .ok directory →
        ∀ entry ∈ directory.entries, ∀ maxBytes produced,
          entryBytes zlib (sourceOf bytes) entry maxBytes = .ok produced →
            produced.length ≤ entry.uncompressedSize := by
  intro never
  have produced : entryBytes oneByteZlib (sourceOf undeclaredByteArchive)
      undeclaredByteEntry 100 = .ok [0x61] := by
    decide +kernel
  have bounded := never oneByteZlib undeclaredByteArchive smallLimits _
    readZipDirectory_undeclaredByteArchive undeclaredByteEntry
    (List.mem_singleton_self _) 100 [0x61] produced
  simp [undeclaredByteEntry] at bounded

end Frameleaf.Zip
