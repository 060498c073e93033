import Frameleaf.Zip.Takeout

namespace Frameleaf.Zip

open ByteBuffer Outcome

/-!
# Takeout archives are read safely

Every buffer is read within its bounds, whatever the source yields, and the
data of the entries of an accepted archive lies apart and before the directory.
-/

theorem inBounds_readSafe64
    {buffer : Bytes}
    {offset : ℕ}
    (within : offset + 8 ≤ buffer.length) :
    InBounds (readSafe64 buffer offset) := by
  apply InBounds.bind (inBounds_readBigUInt64LE within)
  intro value _
  apply InBounds.bind (.refuseIf _ _)
  intro _ _
  exact .ok _

variable {tail extra : Bytes} {count eocd stop directoryOffset : ℕ}

theorem inBounds_findEndFrom
    (within : count + EOCD_MIN ≤ tail.length + 1 ∨ count = 0) :
    InBounds (findEndFrom tail count) := by
  rw [EOCD_MIN] at within
  induction count with
  | zero =>
      exact .ok _
  | succ index inductionHypothesis =>
      rw [findEndFrom]
      apply InBounds.bind
      · rw [readCommentLength]
        split
        · exact inBounds_readUInt16LE (by omega)
        · exact .ok _
      · intro commentLength _
        apply InBounds.bind (inBounds_readUInt32LE (by omega))
        intro signature _
        split
        · exact .ok _
        · exact inductionHypothesis (by omega)

theorem within_of_findEndFrom
    (isFound : findEndFrom tail count = .ok (some eocd)) :
    eocd + EOCD_MIN ≤ tail.length := by
  induction count with
  | zero =>
      simp [findEndFrom] at isFound
  | succ index inductionHypothesis =>
      rw [findEndFrom] at isFound
      obtain ⟨commentLength, -, isFound⟩ := bind_eq_ok.mp isFound
      obtain ⟨signature, -, isFound⟩ := bind_eq_ok.mp isFound
      split at isFound
      · rename_i fits
        simp only [Except.ok.injEq, Option.some.injEq] at isFound
        omega
      · exact inductionHypothesis isFound

variable {source : TakeoutZipSource}

theorem inBounds_readZip64Record
    {locatorAt : ℕ}
    (within : locatorAt + ZIP64_LOCATOR_SIZE ≤ tail.length) :
    InBounds (readZip64Record source tail locatorAt) := by
  rw [ZIP64_LOCATOR_SIZE] at within
  apply InBounds.bind (inBounds_readUInt32LE (by omega))
  intro disks _
  apply InBounds.bind (.refuseIf _ _)
  intro _ _
  apply InBounds.bind (inBounds_readSafe64 (by omega))
  intro recordOffset _
  apply InBounds.bind (inBounds_readAt _ _ _)
  intro record _
  apply InBounds.bind (.refuseIf _ _)
  intro _ isLong
  rw [refuseIf_eq_ok, decide_eq_false_iff_not, ZIP64_EOCD_MIN,
    not_lt] at isLong
  apply InBounds.bind (inBounds_readUInt32LE (by omega))
  intro signature _
  apply InBounds.bind (.refuseIf _ _)
  intro _ _
  apply InBounds.bind (inBounds_readUInt32LE (by omega))
  intro disk _
  apply InBounds.bind (.refuseIf _ _)
  intro _ _
  apply InBounds.bind (inBounds_readUInt32LE (by omega))
  intro directoryDisk _
  apply InBounds.bind (.refuseIf _ _)
  intro _ _
  iterate 3
    apply InBounds.bind (inBounds_readSafe64 (by omega))
    intro _ _
  exact .ok _

theorem inBounds_readEndRecord
    (within : eocd + EOCD_MIN ≤ tail.length) :
    InBounds (readEndRecord source tail eocd) := by
  rw [EOCD_MIN] at within
  iterate 3
    apply InBounds.bind (inBounds_readUInt16LE (by omega))
    intro _ _
  iterate 2
    apply InBounds.bind (inBounds_readUInt32LE (by omega))
    intro _ _
  have locatorRead : InBounds (hasLocator tail eocd) := by
    rw [hasLocator, ZIP64_LOCATOR_SIZE]
    split
    · apply InBounds.bind (inBounds_readUInt32LE (by omega))
      intro _ _
      exact .ok _
    · exact .ok _
  apply InBounds.bind locatorRead
  intro isZip64 hasIt
  split
  · rename_i isTrue
    apply inBounds_readZip64Record
    rw [hasLocator, isTrue] at hasIt
    split at hasIt
    · rename_i enough
      rw [ZIP64_LOCATOR_SIZE] at enough ⊢
      omega
    · simp at hasIt
  · apply InBounds.bind (.refuseIf _ _)
    intro _ _
    apply InBounds.bind (.refuseIf _ _)
    intro _ _
    exact .ok _

theorem inBounds_locateDirectory
    (source : TakeoutZipSource) :
    InBounds (locateDirectory source) := by
  apply InBounds.bind (.refuseIf _ _)
  intro _ _
  apply InBounds.bind (inBounds_readAt _ _ _)
  intro tail _
  apply InBounds.bind (inBounds_findEndFrom (by omega))
  intro found isFound
  cases found with
  | none =>
      exact .refuse _
  | some eocd =>
      apply InBounds.bind
        (inBounds_readEndRecord (within_of_findEndFrom isFound))
      intro location _
      apply InBounds.bind (.refuseIf _ _)
      intro _ _
      apply InBounds.bind (.refuseIf _ _)
      intro _ _
      exact .ok _

theorem inBounds_nextZip64
    (within : stop ≤ extra.length)
    (wanted : Bool)
    (field : ℕ) :
    InBounds (nextZip64 extra stop wanted field) := by
  rw [nextZip64]
  split
  · apply InBounds.bind (.refuseIf _ _)
    intro _ enough
    rw [refuseIf_eq_ok, decide_eq_false_iff_not] at enough
    apply InBounds.bind (inBounds_readSafe64 (by omega))
    intro _ _
    exact .ok _
  · exact .ok _

theorem inBounds_nextZip64Disk
    (within : stop ≤ extra.length)
    (wanted : Bool)
    (field : ℕ) :
    InBounds (nextZip64Disk extra stop wanted field) := by
  rw [nextZip64Disk]
  split
  · apply InBounds.bind (.refuseIf _ _)
    intro _ enough
    rw [refuseIf_eq_ok, decide_eq_false_iff_not] at enough
    apply InBounds.bind (inBounds_readUInt32LE (by omega))
    intro _ _
    exact .ok _
  · exact .ok _

theorem inBounds_readZip64Extra
    (extra : Bytes)
    (saturated : Saturated) :
    InBounds (readZip64Extra extra saturated) := by
  apply InBounds.bind (inBounds_findZip64From extra _ _)
  intro found isFound
  cases found with
  | none =>
      exact .ok _
  | some bounds =>
      obtain ⟨start, stop⟩ := bounds
      have within := within_of_findZip64From isFound
      apply InBounds.bind (inBounds_nextZip64 within _ _)
      intro _ _
      apply InBounds.bind (inBounds_nextZip64 within _ _)
      intro _ _
      apply InBounds.bind (inBounds_nextZip64 within _ _)
      intro _ _
      apply InBounds.bind (inBounds_nextZip64Disk within _ _)
      intro _ _
      exact .ok _

theorem inBounds_checkTakeoutEntry
    (directoryOffset : ℕ)
    (header : CentralHeader)
    (name : Utf8.Text)
    (zip64 : Zip64Values) :
    InBounds (checkTakeoutEntry directoryOffset header name zip64) := by
  iterate 4
    apply InBounds.bind (.refuseIf _ _)
    intro _ _
  exact .ok _

theorem inBounds_readTakeoutEntry
    (directory : Bytes)
    (directoryOffset index cursor : ℕ) :
    InBounds (readTakeoutEntry directory directoryOffset index cursor) := by
  apply InBounds.bind (inBounds_isCentralEntry _ _)
  intro isEntry isRead
  apply InBounds.bind (.refuseIf _ _)
  intro _ isKept
  rw [refuseIf_eq_ok, Bool.not_eq_false'] at isKept
  rw [isKept] at isRead
  apply InBounds.bind
    (inBounds_readCentralHeader (within_of_isCentralEntry isRead))
  intro header _
  apply InBounds.bind (.refuseIf _ _)
  intro _ _
  apply InBounds.bind (inBounds_readZip64Extra _ _)
  intro zip64 _
  apply InBounds.bind (.refuseIf _ _)
  intro _ _
  apply InBounds.bind (inBounds_checkTakeoutEntry _ _ _ _)
  intro _ _
  exact .ok _

theorem inBounds_readTakeoutEntries
    (directory : Bytes)
    (directoryOffset count index cursor : ℕ) :
    InBounds (readTakeoutEntries directory directoryOffset count index
      cursor) := by
  induction count generalizing index cursor with
  | zero =>
      exact .ok _
  | succ count inductionHypothesis =>
      apply InBounds.bind (inBounds_readTakeoutEntry _ _ _ _)
      intro read _
      apply InBounds.bind (inductionHypothesis _ _)
      intro _ _
      exact .ok _

theorem inBounds_limitInOrder
    (ordered : List (TakeoutZipEntry × ℕ))
    (entries : List TakeoutZipEntry) :
    InBounds (Extents.limitInOrder TakeoutZipEntry.localHeaderOffset
      TakeoutZipEntry.leastEnd TakeoutZipEntry.withLimit takeoutOverlap
      ordered entries) := by
  induction ordered generalizing entries with
  | nil =>
      exact .ok _
  | cons previous rest inductionHypothesis =>
      cases rest with
      | nil =>
          exact .ok _
      | cons next rest =>
          rw [Extents.limitInOrder]
          split
          · exact .refuse _
          · exact inductionHypothesis _

theorem inBounds_readTakeoutZipDirectory
    (source : TakeoutZipSource) :
    InBounds (readTakeoutZipDirectory source) := by
  apply InBounds.bind (inBounds_locateDirectory source)
  intro location _
  apply InBounds.bind (inBounds_readAt _ _ _)
  intro directory _
  apply InBounds.bind (.refuseIf _ _)
  intro _ _
  apply InBounds.bind (inBounds_readTakeoutEntries _ _ _ _ _)
  intro entries _
  exact inBounds_limitInOrder _ _

theorem inBounds_takeoutZipDataOffset
    (source : TakeoutZipSource)
    (entry : TakeoutZipEntry) :
    InBounds (takeoutZipDataOffset source entry) := by
  apply InBounds.bind (inBounds_readAt _ _ _)
  intro header _
  apply InBounds.bind (.refuseIf _ _)
  intro _ isLong
  rw [refuseIf_eq_ok, decide_eq_false_iff_not, LOCAL_MIN, not_lt] at isLong
  apply InBounds.bind (inBounds_readUInt32LE (by omega))
  intro signature _
  apply InBounds.bind (.refuseIf _ _)
  intro _ _
  iterate 2
    apply InBounds.bind (inBounds_readUInt16LE (by omega))
    intro _ _
  iterate 2
    apply InBounds.bind (.refuseIf _ _)
    intro _ _
  exact .ok _

variable {location : DirectoryLocation}

theorem located_within
    (located : locateDirectory source = .ok location) :
    location.directoryOffset + location.directorySize ≤ source.size := by
  obtain ⟨_, -, located⟩ := bind_eq_ok.mp located
  obtain ⟨tail, -, located⟩ := bind_eq_ok.mp located
  obtain ⟨found, -, located⟩ := bind_eq_ok.mp located
  cases found with
  | none =>
      simp at located
  | some eocd =>
      obtain ⟨read, -, located⟩ := bind_eq_ok.mp located
      obtain ⟨_, isInside, located⟩ := bind_eq_ok.mp located
      obtain ⟨_, -, located⟩ := bind_eq_ok.mp located
      rw [pure_eq_ok] at located
      rw [refuseIf_eq_ok, decide_eq_false_iff_not, not_or, not_lt] at isInside
      exact located ▸ isInside.1

/-- A checked entry ends before the directory and is limited by it. -/
structure BeforeDirectory
    (directoryOffset : ℕ)
    (entry : TakeoutZipEntry) : Prop where
  leastEnd : entry.leastEnd ≤ directoryOffset
  dataLimit : entry.dataLimit = directoryOffset

variable {entry : TakeoutZipEntry}

theorem beforeDirectory_of_checkTakeoutEntry
    {header : CentralHeader}
    {name : Utf8.Text}
    {zip64 : Zip64Values}
    (isChecked : checkTakeoutEntry directoryOffset header name zip64 =
      .ok entry) :
    BeforeDirectory directoryOffset entry := by
  obtain ⟨_, -, isChecked⟩ := bind_eq_ok.mp isChecked
  obtain ⟨_, isInside, isChecked⟩ := bind_eq_ok.mp isChecked
  obtain ⟨_, -, isChecked⟩ := bind_eq_ok.mp isChecked
  obtain ⟨_, -, isChecked⟩ := bind_eq_ok.mp isChecked
  rw [pure_eq_ok] at isChecked
  rw [refuseIf_eq_ok, decide_eq_false_iff_not, not_lt] at isInside
  subst isChecked
  exact ⟨isInside, rfl⟩

variable {entries read : List TakeoutZipEntry}

theorem beforeDirectory_of_readTakeoutEntries
    {directory : Bytes}
    {index cursor : ℕ}
    (areRead : readTakeoutEntries directory directoryOffset count index
      cursor = .ok entries) :
    ∀ entry ∈ entries, BeforeDirectory directoryOffset entry := by
  induction count generalizing index cursor entries with
  | zero =>
      rw [readTakeoutEntries, Except.ok.injEq] at areRead
      simp [← areRead]
  | succ count inductionHypothesis =>
      obtain ⟨⟨entry, next⟩, isRead, areRead⟩ := bind_eq_ok.mp areRead
      obtain ⟨rest, restRead, areRead⟩ := bind_eq_ok.mp areRead
      rw [pure_eq_ok] at areRead
      subst areRead
      intro other member
      rcases List.mem_cons.mp member with rfl | member
      · obtain ⟨_, -, isRead⟩ := bind_eq_ok.mp isRead
        obtain ⟨_, -, isRead⟩ := bind_eq_ok.mp isRead
        obtain ⟨_, -, isRead⟩ := bind_eq_ok.mp isRead
        obtain ⟨_, -, isRead⟩ := bind_eq_ok.mp isRead
        obtain ⟨_, -, isRead⟩ := bind_eq_ok.mp isRead
        obtain ⟨_, -, isRead⟩ := bind_eq_ok.mp isRead
        obtain ⟨checked, isChecked, isRead⟩ := bind_eq_ok.mp isRead
        rw [pure_eq_ok, Prod.mk.injEq] at isRead
        exact isRead.1 ▸ beforeDirectory_of_checkTakeoutEntry isChecked
      · exact inductionHypothesis restRead other member

/-- What an accepted directory holds. -/
structure Accepted
    (source : TakeoutZipSource)
    (entries : List TakeoutZipEntry)
    (location : DirectoryLocation)
    (read : List TakeoutZipEntry) : Prop where
  located : locateDirectory source = .ok location
  checked : ∀ entry ∈ read, BeforeDirectory location.directoryOffset entry
  limited : Extents.Limited TakeoutZipEntry.localHeaderOffset
    TakeoutZipEntry.leastEnd TakeoutZipEntry.withLimit
    (Extents.inOrder TakeoutZipEntry.localHeaderOffset read) read entries

theorem accepted_of_readTakeoutZipDirectory
    (isAccepted : readTakeoutZipDirectory source = .ok entries) :
    ∃ location read, Accepted source entries location read := by
  obtain ⟨location, located, isAccepted⟩ := bind_eq_ok.mp isAccepted
  obtain ⟨directory, -, isAccepted⟩ := bind_eq_ok.mp isAccepted
  obtain ⟨_, -, isAccepted⟩ := bind_eq_ok.mp isAccepted
  obtain ⟨read, areRead, isLimited⟩ := bind_eq_ok.mp isAccepted
  refine ⟨location, read, located,
    beforeDirectory_of_readTakeoutEntries areRead, ?_⟩
  apply Extents.limited_inOrder _ isLimited
  intro entry
  rw [TakeoutZipEntry.leastEnd, LOCAL_MIN]
  omega

theorem Accepted.dataLimit_le
    (accepted : Accepted source entries location read)
    {place : ℕ}
    (isEntry : entries[place]? = some entry) :
    entry.dataLimit ≤ location.directoryOffset := by
  obtain ⟨before, isBefore, shape⟩ := accepted.limited.source isEntry
  rcases shape with rfl | ⟨other, isOther, rfl⟩
  · have checked := accepted.checked entry (List.mem_of_getElem? isBefore)
    exact checked.dataLimit.le
  · have checked := (accepted.checked other isOther).leastEnd
    rw [TakeoutZipEntry.leastEnd] at checked
    change other.localHeaderOffset ≤ location.directoryOffset
    omega

theorem within_of_takeoutZipDataOffset
    {start : ℕ}
    (starts : takeoutZipDataOffset source entry = .ok start) :
    entry.localHeaderOffset ≤ start ∧
      start + entry.compressedSize ≤ entry.dataLimit := by
  obtain ⟨header, -, starts⟩ := bind_eq_ok.mp starts
  obtain ⟨_, -, starts⟩ := bind_eq_ok.mp starts
  obtain ⟨signature, -, starts⟩ := bind_eq_ok.mp starts
  obtain ⟨_, -, starts⟩ := bind_eq_ok.mp starts
  obtain ⟨nameLength, -, starts⟩ := bind_eq_ok.mp starts
  obtain ⟨extraLength, -, starts⟩ := bind_eq_ok.mp starts
  obtain ⟨_, -, starts⟩ := bind_eq_ok.mp starts
  obtain ⟨_, isInside, starts⟩ := bind_eq_ok.mp starts
  rw [pure_eq_ok] at starts
  rw [refuseIf_eq_ok, decide_eq_false_iff_not, not_lt] at isInside
  subst starts
  exact ⟨by omega, isInside⟩

/-- A limited entry carries its limit. -/
@[simp] theorem dataLimit_withLimit
    (limit : ℕ)
    (entry : TakeoutZipEntry) :
    (entry.withLimit limit).dataLimit = limit :=
  rfl

/-- A limited entry starts where it did. -/
@[simp] theorem localHeaderOffset_withLimit
    (limit : ℕ)
    (entry : TakeoutZipEntry) :
    (entry.withLimit limit).localHeaderOffset = entry.localHeaderOffset :=
  rfl

theorem Accepted.ends_before
    (accepted : Accepted source entries location read)
    {i j : ℕ}
    {first second : TakeoutZipEntry}
    {firstSource secondSource : TakeoutZipSource}
    {firstStart secondStart : ℕ}
    (different : i ≠ j)
    (isFirst : entries[i]? = some first)
    (isSecond : entries[j]? = some second)
    (firstStarts : takeoutZipDataOffset firstSource first = .ok firstStart)
    (secondStarts : takeoutZipDataOffset secondSource second =
      .ok secondStart)
    (ordered : first.localHeaderOffset ≤ second.localHeaderOffset) :
    firstStart + first.compressedSize ≤ secondStart := by
  have limited : first.dataLimit ≤ second.localHeaderOffset :=
    accepted.limited.limitOf_le dataLimit_withLimit
      localHeaderOffset_withLimit different isFirst isSecond ordered
  have firstWithin := within_of_takeoutZipDataOffset firstStarts
  have secondWithin := within_of_takeoutZipDataOffset secondStarts
  omega

/-- A Takeout archive is read safely, whatever its source yields. -/
structure TakeoutLaws
    (source : TakeoutZipSource) : Prop where
  /-- The reader refuses, fails to read, or returns a directory. -/
  total :
    (∃ message, readTakeoutZipDirectory source = .error (.refused message)) ∨
      readTakeoutZipDirectory source = .error .unreadable ∨
      ∃ entries, readTakeoutZipDirectory source = .ok entries
  /-- No buffer is accessed out of its bounds, also for a local header. -/
  inBounds : InBounds (readTakeoutZipDirectory source) ∧
    ∀ entry, InBounds (takeoutZipDataOffset source entry)
  /-- The data of every accepted entry ends before the directory. -/
  beforeDirectory : ∀ entries,
    readTakeoutZipDirectory source = .ok entries →
      ∃ location,
        locateDirectory source = .ok location ∧
          location.directoryOffset + location.directorySize ≤ source.size ∧
          ∀ entry ∈ entries, ∀ later start,
            takeoutZipDataOffset later entry = .ok start →
              start + entry.compressedSize ≤ location.directoryOffset
  /-- The data of any two accepted entries lies apart. -/
  apart : ∀ entries,
    readTakeoutZipDirectory source = .ok entries →
      ∀ (i j : ℕ) (first second : TakeoutZipEntry), i ≠ j →
        entries[i]? = some first →
        entries[j]? = some second →
        ∀ firstSource secondSource firstStart secondStart,
          takeoutZipDataOffset firstSource first = .ok firstStart →
          takeoutZipDataOffset secondSource second = .ok secondStart →
            firstStart + first.compressedSize ≤ secondStart ∨
              secondStart + second.compressedSize ≤ firstStart

/--
Takeout archives are read in bounds, and the data of their entries lies apart
and before the directory.

The local headers may even be read from another source than the directory.
-/
theorem takeoutLaws
    (source : TakeoutZipSource) :
    TakeoutLaws source where
  total := by
    have inBounds := inBounds_readTakeoutZipDirectory source
    cases isRead : readTakeoutZipDirectory source with
    | ok entries =>
        exact .inr (.inr ⟨entries, rfl⟩)
    | error failure =>
        cases failure with
        | refused message =>
            exact .inl ⟨message, rfl⟩
        | unreadable =>
            exact .inr (.inl rfl)
        | outOfRange =>
            exact absurd isRead inBounds
  inBounds :=
    ⟨inBounds_readTakeoutZipDirectory source,
      inBounds_takeoutZipDataOffset source⟩
  beforeDirectory := by
    intro entries isAccepted
    obtain ⟨location, read, accepted⟩ :=
      accepted_of_readTakeoutZipDirectory isAccepted
    refine ⟨location, accepted.located, located_within accepted.located, ?_⟩
    intro entry member later start starts
    obtain ⟨place, isEntry⟩ := List.mem_iff_getElem?.mp member
    have limit := accepted.dataLimit_le isEntry
    have within := within_of_takeoutZipDataOffset starts
    omega
  apart := by
    intro entries isAccepted i j first second different isFirst isSecond
      firstSource secondSource firstStart secondStart firstStarts secondStarts
    obtain ⟨location, read, accepted⟩ :=
      accepted_of_readTakeoutZipDirectory isAccepted
    rcases Nat.le_total first.localHeaderOffset second.localHeaderOffset with
      ordered | ordered
    · left
      exact accepted.ends_before different isFirst isSecond firstStarts
        secondStarts ordered
    · right
      exact accepted.ends_before different.symm isSecond isFirst secondStarts
        firstStarts ordered

end Frameleaf.Zip
