import Frameleaf.AttemptTree.Visits

namespace Frameleaf.AttemptTree

open LeastWindow

/-!
# Where the walk goes

The walk stays under its root, makes no visit twice and visits every name of
the directories that it opens.  It opens the root and, up to the depth, every
real directory in an open one that is not hidden.
-/

variable {fileSystem : FileSystem}

/-- A walk stays under the path that it is given. -/
def StaysUnder
    (walk : Path → List (List Visit)) : Prop :=
  ∀ path, ∀ visit ∈ (walk path).flatten, path <+: visit.path

variable {path directory : Path}

theorem path_of_mem_removal
    {identity : Option AttemptIdentity}
    {visit : Visit}
    (member : visit ∈ removal path identity) :
    visit.path = path := by
  cases identity with
  | none =>
      simp [removal] at member
  | some identity =>
      rw [removal, List.mem_singleton] at member
      rw [member, Visit.path]

theorem entry_not_mem_removal
    (path other : Path)
    (identity : Option AttemptIdentity) :
    .entry other ∉ removal path identity := by
  cases identity <;> simp [removal]

theorem nodup_removal
    (path : Path)
    (identity : Option AttemptIdentity) :
    (removal path identity).Nodup := by
  cases identity <;> simp [removal]

/-- The visits for one name. -/
inductive EntryVisits
    (fileSystem : FileSystem)
    (walk : Option (Path → List (List Visit)))
    (directory : Path)
    (entry : Name) : List Visit → Prop where
  | alone :
      EntryVisits fileSystem walk directory entry
        [.entry (directory ++ [entry])]
  | unknown :
      EntryVisits fileSystem walk directory entry
        [.entry (directory ++ [entry]), .incomplete (directory ++ [entry])]
  | file (identity : Option AttemptIdentity) :
      EntryVisits fileSystem walk directory entry
        (.entry (directory ++ [entry]) ::
          removal (directory ++ [entry]) identity)
  | opened (inner : Path → List (List Visit))
      (notSkipped : isSkipped directory entry = false)
      (isDirectory : fileSystem.realAttemptEntry (directory ++ [entry]) =
        some .directory)
      (isWalk : walk = some inner) :
      EntryVisits fileSystem walk directory entry
        (.entry (directory ++ [entry]) ::
          (inner (directory ++ [entry])).flatten)

theorem entryVisits
    (walk : Option (Path → List (List Visit)))
    (directory : Path)
    (entry : Name) :
    EntryVisits fileSystem walk directory entry
      (entryTurns fileSystem walk directory entry).flatten := by
  cases skipped : isSkipped directory entry with
  | true =>
      simpa [entryTurns, skipped] using .alone
  | false =>
      cases isEntry : fileSystem.realAttemptEntry (directory ++ [entry]) with
      | none =>
          simpa [entryTurns, skipped, isEntry] using .unknown
      | some kind =>
          cases kind with
          | directory =>
              cases walk with
              | none =>
                  simpa [entryTurns, skipped, isEntry] using .unknown
              | some inner =>
                  simpa [entryTurns, skipped, isEntry] using
                    .opened inner skipped isEntry rfl
          | file =>
              simpa [entryTurns, skipped, isEntry] using .file _
          | symlink =>
              simpa [entryTurns, skipped, isEntry] using .alone
          | other =>
              simpa [entryTurns, skipped, isEntry] using .alone

variable {walk : Option (Path → List (List Visit))} {entry : Name}
  {visits : List Visit}

theorem EntryVisits.under
    (isEntry : EntryVisits fileSystem walk directory entry visits)
    (under : ∀ inner, walk = some inner → StaysUnder inner)
    {visit : Visit}
    (member : visit ∈ visits) :
    directory ++ [entry] <+: visit.path := by
  cases isEntry with
  | alone =>
      rw [List.mem_singleton] at member
      rw [member]
      exact List.prefix_rfl
  | unknown =>
      rcases List.mem_cons.mp member with rfl | member
      · exact List.prefix_rfl
      · rw [List.mem_singleton] at member
        rw [member]
        exact List.prefix_rfl
  | file identity =>
      rcases List.mem_cons.mp member with rfl | member
      · exact List.prefix_rfl
      · exact (path_of_mem_removal member).symm ▸ List.prefix_rfl
  | opened inner notSkipped isDirectory isWalk =>
      rcases List.mem_cons.mp member with rfl | member
      · exact List.prefix_rfl
      · exact under inner isWalk _ visit member

theorem flatten_directoryTurns
    (isDirectory : fileSystem.realAttemptEntry path = some .directory)
    (walk : Option (Path → List (List Visit)))
    (entries : List Name) :
    (directoryTurns fileSystem walk path entries).flatten =
      entries.flatMap (fun entry =>
          (entryTurns fileSystem walk path entry).flatten) ++
        removal path (attemptIdentity (path ++ [emptyEntry])) := by
  rw [directoryTurns, if_neg (not_not.mpr isDirectory), List.flatten_append]
  congr 1
  · induction entries with
    | nil =>
        rfl
    | cons entry entries inductionHypothesis =>
        rw [List.flatMap_cons, List.flatten_append, inductionHypothesis,
          List.flatMap_cons]
  · simp

variable {room : ℕ}

theorem walkBelow_eq_some
    {walk : Path → List (List Visit)}
    (isWalk : walkBelow fileSystem room = some walk) :
    ∃ less, room = less + 1 ∧ walk = pathTurns fileSystem less := by
  cases room with
  | zero =>
      simp [walkBelow] at isWalk
  | succ room =>
      exact ⟨room, rfl, by simpa [walkBelow] using isWalk.symm⟩

theorem pathTurns_under
    (room : ℕ) :
    StaysUnder (pathTurns fileSystem room) := by
  induction room using Nat.strongRecOn with
  | ind room inductionHypothesis =>
      intro path visit member
      have under : ∀ inner, walkBelow fileSystem room = some inner →
          StaysUnder inner := by
        intro inner isWalk
        obtain ⟨less, rfl, rfl⟩ := walkBelow_eq_some isWalk
        exact inductionHypothesis less (Nat.lt_succ_self less)
      rw [pathTurns_eq] at member
      by_cases isDirectory :
          fileSystem.realAttemptEntry path = some .directory
      · rw [flatten_directoryTurns isDirectory, List.mem_append,
          List.mem_flatMap] at member
        rcases member with ⟨entry, -, member⟩ | member
        · have below := (entryVisits _ path entry).under under member
          exact (List.prefix_append path [entry]).trans below
        · exact (path_of_mem_removal member).symm ▸ List.prefix_rfl
      · rw [directoryTurns, if_pos isDirectory, List.flatten_singleton]
          at member
        rcases List.mem_cons.mp member with rfl | member
        · exact List.prefix_rfl
        · rw [List.mem_singleton] at member
          rw [member]
          exact List.prefix_rfl

/-- The walk into a path opens a directory. -/
inductive Opens
    (fileSystem : FileSystem) : ℕ → Path → Path → Prop where
  | here (room : ℕ) (path : Path)
      (isDirectory : fileSystem.realAttemptEntry path = some .directory) :
      Opens fileSystem room path path
  | inside (room : ℕ) (path : Path) (entry : Name) (directory : Path)
      (isDirectory : fileSystem.realAttemptEntry path = some .directory)
      (isEntry : entry ∈ fileSystem.names path)
      (notSkipped : isSkipped path entry = false)
      (opens : Opens fileSystem room (path ++ [entry]) directory) :
      Opens fileSystem (room + 1) path directory

theorem Opens.under
    (opens : Opens fileSystem room path directory) :
    path <+: directory := by
  induction opens with
  | here room path isDirectory =>
      exact List.prefix_rfl
  | inside room path entry directory isDirectory isEntry notSkipped opens
      inductionHypothesis =>
      exact (List.prefix_append path [entry]).trans inductionHypothesis

theorem Opens.isDirectory
    (opens : Opens fileSystem room path directory) :
    fileSystem.realAttemptEntry path = some .directory := by
  cases opens with
  | here room path isDirectory =>
      exact isDirectory
  | inside room path entry directory isDirectory =>
      exact isDirectory

theorem EntryVisits.entry_mem
    (isEntry : EntryVisits fileSystem walk directory entry visits) :
    .entry (directory ++ [entry]) ∈ visits := by
  cases isEntry <;> exact List.mem_cons_self

theorem EntryVisits.of_mem
    {other : Path}
    (isEntry : EntryVisits fileSystem walk directory entry visits)
    (member : .entry other ∈ visits) :
    other = directory ++ [entry] ∨
      ∃ inner,
        isSkipped directory entry = false ∧
          fileSystem.realAttemptEntry (directory ++ [entry]) =
            some .directory ∧
          walk = some inner ∧
          .entry other ∈ (inner (directory ++ [entry])).flatten := by
  cases isEntry with
  | alone =>
      left
      simpa using member
  | unknown =>
      left
      simpa using member
  | file identity =>
      left
      rcases List.mem_cons.mp member with same | member
      · simpa using same
      · exact absurd member (entry_not_mem_removal _ other identity)
  | opened inner notSkipped isDirectory isWalk =>
      rcases List.mem_cons.mp member with same | member
      · left
        simpa using same
      · right
        exact ⟨inner, notSkipped, isDirectory, isWalk, member⟩

/-- The walk visits the names of the directories that it opens. -/
def VisitsNames
    (fileSystem : FileSystem)
    (room : ℕ)
    (path other : Path) : Prop :=
  (other = path ∧ fileSystem.realAttemptEntry path ≠ some .directory) ∨
    ∃ directory entry,
      Opens fileSystem room path directory ∧
        entry ∈ fileSystem.names directory ∧
        other = directory ++ [entry]

/-- The walk visits exactly the names of the directories that it opens. -/
theorem entry_mem_pathTurns
    (room : ℕ)
    (path other : Path) :
    .entry other ∈ (pathTurns fileSystem room path).flatten ↔
      VisitsNames fileSystem room path other := by
  induction room using Nat.strongRecOn generalizing path other with
  | ind room inductionHypothesis =>
      rw [pathTurns_eq]
      by_cases isDirectory :
          fileSystem.realAttemptEntry path = some .directory
      · rw [flatten_directoryTurns isDirectory, List.mem_append,
          List.mem_flatMap]
        constructor
        · rintro (⟨entry, isEntry, member⟩ | member)
          · right
            rw [mem_ascending] at isEntry
            rcases (entryVisits _ path entry).of_mem member with
              same | ⟨inner, notSkipped, isInner, isWalk, member⟩
            · exact ⟨path, entry, .here room path isDirectory, isEntry, same⟩
            · obtain ⟨less, rfl, rfl⟩ := walkBelow_eq_some isWalk
              rcases (inductionHypothesis less (Nat.lt_succ_self less)
                  (path ++ [entry]) other).mp member with
                ⟨-, notDirectory⟩ | ⟨directory, inside, opens, rest⟩
              · exact absurd isInner notDirectory
              · exact ⟨directory, inside,
                  .inside less path entry directory isDirectory isEntry
                    notSkipped opens, rest⟩
          · exact absurd member (entry_not_mem_removal path other _)
        · rintro (⟨-, notDirectory⟩ |
            ⟨directory, entry, opens, isEntry, rfl⟩)
          · exact absurd isDirectory notDirectory
          · left
            cases opens with
            | here room path isDirectory =>
                exact ⟨entry, mem_ascending.mpr isEntry,
                  (entryVisits _ path entry).entry_mem⟩
            | inside room path outer directory isDirectory isOuter notSkipped
                opens =>
                refine ⟨outer, mem_ascending.mpr isOuter, ?_⟩
                have member := (inductionHypothesis room
                  (Nat.lt_succ_self room) (path ++ [outer])
                  (directory ++ [entry])).mpr
                    (.inr ⟨directory, entry, opens, isEntry, rfl⟩)
                have isInner := opens.isDirectory
                simp only [entryTurns, notSkipped, isInner, walkBelow]
                exact List.mem_cons_of_mem _ member
      · rw [directoryTurns, if_pos isDirectory]
        constructor
        · intro member
          left
          exact ⟨by simpa using member, isDirectory⟩
        · rintro (⟨rfl, -⟩ | ⟨directory, entry, opens, -⟩)
          · simp
          · exact absurd opens.isDirectory isDirectory

theorem entry_not_mem_pathTurns
    (isDirectory : fileSystem.realAttemptEntry path = some .directory) :
    .entry path ∉ (pathTurns fileSystem room path).flatten := by
  rw [entry_mem_pathTurns]
  rintro (⟨-, notDirectory⟩ | ⟨directory, entry, opens, -, same⟩)
  · exact notDirectory isDirectory
  · have shorter := opens.under.length_le
    rw [same, List.length_append, List.length_singleton] at shorter
    omega

theorem EntryVisits.nodup
    (isEntry : EntryVisits fileSystem walk directory entry visits)
    (distinct : ∀ inner, walk = some inner →
      ∀ path, (inner path).flatten.Nodup)
    (notAgain : ∀ inner, walk = some inner →
      ∀ path, fileSystem.realAttemptEntry path = some .directory →
        .entry path ∉ (inner path).flatten) :
    visits.Nodup := by
  cases isEntry with
  | alone =>
      exact List.nodup_singleton _
  | unknown =>
      simp
  | file identity =>
      exact List.nodup_cons.mpr
        ⟨entry_not_mem_removal _ _ identity, nodup_removal _ identity⟩
  | opened inner notSkipped isDirectory isWalk =>
      exact List.nodup_cons.mpr
        ⟨notAgain inner isWalk _ isDirectory, distinct inner isWalk _⟩

theorem eq_of_sameAbove
    {first second : Name}
    (isFirst : directory ++ [first] <+: path)
    (isSecond : directory ++ [second] <+: path) :
    first = second := by
  have same := List.prefix_of_prefix_length_le isFirst isSecond (by simp)
  have equal := same.eq_of_length (by simp)
  simpa using equal

/-- The walk makes no visit twice. -/
theorem nodup_pathTurns
    (room : ℕ)
    (path : Path) :
    (pathTurns fileSystem room path).flatten.Nodup := by
  induction room using Nat.strongRecOn generalizing path with
  | ind room inductionHypothesis =>
      have under : ∀ inner, walkBelow fileSystem room = some inner →
          StaysUnder inner := by
        intro inner isWalk
        obtain ⟨less, rfl, rfl⟩ := walkBelow_eq_some isWalk
        exact pathTurns_under less
      rw [pathTurns_eq]
      by_cases isDirectory :
          fileSystem.realAttemptEntry path = some .directory
      · rw [flatten_directoryTurns isDirectory]
        apply List.nodup_append.mpr
        refine ⟨List.nodup_flatMap.mpr ⟨?_, ?_⟩, ?_, ?_⟩
        · intro entry _
          apply (entryVisits _ path entry).nodup
          · intro inner isWalk
            obtain ⟨less, rfl, rfl⟩ := walkBelow_eq_some isWalk
            exact inductionHypothesis less (Nat.lt_succ_self less)
          · intro inner isWalk
            obtain ⟨less, rfl, rfl⟩ := walkBelow_eq_some isWalk
            intro other
            exact entry_not_mem_pathTurns
        · have distinct : (ascending (fileSystem.names path)).Nodup :=
            (ascending_perm _).nodup_iff.mpr (fileSystem.distinct 0 path)
          apply distinct.imp
          intro first second different visit isFirst isSecond
          exact different (eq_of_sameAbove
            ((entryVisits _ path first).under under isFirst)
            ((entryVisits _ path second).under under isSecond))
        · exact nodup_removal path _
        · intro visit isBelow other isRemoval
          rintro rfl
          obtain ⟨entry, -, member⟩ := List.mem_flatMap.mp isBelow
          have longer :=
            ((entryVisits _ path entry).under under member).length_le
          rw [path_of_mem_removal isRemoval, List.length_append,
            List.length_singleton] at longer
          omega
      · rw [directoryTurns, if_pos isDirectory]
        simp

end Frameleaf.AttemptTree
