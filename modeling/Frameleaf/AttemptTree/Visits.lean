import Frameleaf.AttemptTree.Listing
import Mathlib.Data.List.TakeDrop

namespace Frameleaf.AttemptTree

/-!
# The resumable sweep

A cursor holds the root and, for each open directory on the way down, the last
name that was examined.  A slice takes turns until a budget ends; the next
slice goes on from the cursor, with the windows of the slice before or, after a
restart of the process, without them.
-/

/-- An open directory and the last name examined in it. -/
structure Frame where
  path : Path
  after : Name
deriving DecidableEq, Repr

/-- The position of a sweep, with the deepest directory first. -/
structure Cursor where
  root : ℕ
  stack : List Frame
deriving DecidableEq, Repr

/-- The position before the first root. -/
def emptyAttemptCursor : Cursor where
  root := 0
  stack := []

/-- What a sweep does at a path. -/
inductive Visit where
  | entry (path : Path)
  | remove (path : Path) (identity : AttemptIdentity)
  | incomplete (path : Path)
deriving DecidableEq, Repr

/-- The path of a visit. -/
def Visit.path : Visit → Path
  | .entry path =>
      path
  | .remove path _ =>
      path
  | .incomplete path =>
      path

/-- The budgets of one slice. -/
structure Limits where
  maxEntries : ℕ
  maxFiles : ℕ
  maxDirectoryEntries : ℕ
  clock : ℕ
deriving DecidableEq, Repr

/-- The variables of a running slice. -/
structure Slice where
  cursor : Cursor
  windows : Windows
  budget : Budget
  visited : ℕ
  examined : ℕ
  incomplete : Bool
  visits : List Visit

/-- The number of directories that may be open at once. -/
def maxDepth : ℕ :=
  16

/-- Open the current root when no directory is open. -/
def Cursor.enter
    (roots : List Path)
    (cursor : Cursor) : Cursor :=
  match cursor.stack, roots[cursor.root]? with
  | [], some root =>
      { cursor with stack := [⟨root, .empty⟩] }
  | _, _ =>
      cursor

/-- Close the deepest directory, and with the last one the root. -/
def Cursor.leave
    (cursor : Cursor) : Cursor :=
  match cursor.stack.tail with
  | [] =>
      { root := cursor.root + 1, stack := [] }
  | frame :: below =>
      { cursor with stack := frame :: below }

/-- The name of the entry that stands for an empty claim directory. -/
def emptyEntry : Name :=
  name "_empty"

/-- The entry is hidden and not one of the directories of an attempt. -/
def isSkipped
    (path : Path)
    (entry : Name) : Bool :=
  entry.units.head? == some 0x2e && entry != name ".attempts" &&
    !(isSharpStaging entry &&
      (attemptIdentity (path ++ [entry] ++ [emptyEntry])).isSome)

/-- The directory could not be opened. -/
def Slice.skipDirectory
    (slice : Slice)
    (frame : Frame) : Slice :=
  { slice with
    cursor := slice.cursor.leave
    windows := slice.windows.release frame.path
    visited := slice.visited + 1
    incomplete := true
    visits := slice.visits ++ [.entry frame.path, .incomplete frame.path] }

/-- Offer the caller to remove what belongs to an attempt. -/
def Slice.examine
    (slice : Slice)
    (path : Path) : Option AttemptIdentity → Slice
  | none =>
      slice
  | some identity =>
      { slice with
        examined := slice.examined + 1
        visits := slice.visits ++ [.remove path identity] }

/-- Every name of the directory has been examined. -/
def Slice.closeDirectory
    (slice : Slice)
    (frame : Frame) : Slice :=
  let examined := slice.examine frame.path
    (attemptIdentity (frame.path ++ [emptyEntry]))
  { examined with
    cursor := slice.cursor.leave
    windows := slice.windows.release frame.path }

/-- Examine the next name of the deepest directory. -/
def Slice.examineEntry
    (fileSystem : FileSystem)
    (slice : Slice)
    (frame : Frame)
    (below : List Frame)
    (entry : Name) : Slice :=
  let path := frame.path ++ [entry]
  let stack := ⟨frame.path, entry⟩ :: below
  let visited : Slice :=
    { slice with
      cursor := { slice.cursor with stack := stack }
      visited := slice.visited + 1
      visits := slice.visits ++ [.entry path] }
  if isSkipped frame.path entry then
    visited
  else
    match fileSystem.realAttemptEntry path with
    | none =>
        { visited with
          incomplete := true
          visits := visited.visits ++ [.incomplete path] }
    | some .directory =>
        if stack.length < maxDepth then
          { visited with
            cursor := { slice.cursor with stack := ⟨path, .empty⟩ :: stack } }
        else
          { visited with
            incomplete := true
            visits := visited.visits ++ [.incomplete path] }
    | some .file =>
        visited.examine path (attemptIdentity path)
    | some _ =>
        visited

/-- One turn of the loop, and whether the loop goes on. -/
def turn
    (fileSystem : FileSystem)
    (roots : List Path)
    (slice : Slice) : Slice × Bool :=
  let entered : Slice :=
    { slice with cursor := slice.cursor.enter roots }
  match entered.cursor.stack with
  | [] =>
      (entered, false)
  | frame :: below =>
      if fileSystem.realAttemptEntry frame.path ≠ some .directory then
        (entered.skipDirectory frame, true)
      else
        let (names, windows, budget) :=
          entered.windows.read fileSystem frame.path frame.after
            entered.budget
        let read : Slice :=
          { entered with windows := windows, budget := budget }
        match names with
        | none =>
            (read, false)
        | some names =>
            match names.find? (frame.after < ·) with
            | none =>
                (read.closeDirectory frame, true)
            | some entry =>
                (read.examineEntry fileSystem frame below entry, true)

/-- No budget has ended and a root is left. -/
def Slice.mayContinue
    (roots : List Path)
    (limits : Limits)
    (slice : Slice) : Bool :=
  slice.cursor.root < roots.length && slice.visited < limits.maxEntries &&
    slice.examined < limits.maxFiles && 0 < slice.budget.clock

/-- The time for one turn is taken. -/
def Slice.tick
    (slice : Slice) : Slice :=
  { slice with budget := slice.budget.tick }

/-- Take turns; each one reads the clock, so their number is bounded. -/
def sweepLoop
    (fileSystem : FileSystem)
    (roots : List Path)
    (limits : Limits) : ℕ → Slice → Slice
  | 0, slice =>
      slice
  | turns + 1, slice =>
      if slice.mayContinue roots limits then
        let (next, goesOn) := turn fileSystem roots slice.tick
        if goesOn then sweepLoop fileSystem roots limits turns next else next
      else
        slice

/-- A cursor that the sweep accepts. -/
def Cursor.isValid
    (roots : List Path)
    (cursor : Cursor) : Bool :=
  cursor.root ≤ roots.length && cursor.stack.length ≤ maxDepth &&
    cursor.stack.all fun frame =>
      roots[cursor.root]?.any fun root => root.isPrefixOf frame.path

/-- What a slice reports. -/
structure SweepResult where
  cursor : Cursor
  visited : ℕ
  examined : ℕ
  incomplete : Bool
  done : Bool
  visits : List Visit
deriving DecidableEq, Repr

/-- A slice before its first turn. -/
def Slice.start
    (limits : Limits)
    (cursor : Cursor)
    (windows : Windows) : Slice where
  cursor := cursor
  windows := windows
  budget :=
    { reads := 0
      maximum := limits.maxDirectoryEntries
      clock := limits.clock }
  visited := 0
  examined := 0
  incomplete := false
  visits := []

/-- Run one slice from a cursor. -/
def sweepAttemptTree
    (fileSystem : FileSystem)
    (roots : List Path)
    (limits : Limits)
    (cursor : Cursor)
    (windows : Windows) : Except String (SweepResult × Windows) :=
  if cursor.isValid roots then
    let last := sweepLoop fileSystem roots limits limits.clock
      (Slice.start limits cursor windows)
    let done := last.cursor.root == roots.length
    .ok
      ({ cursor := if done then emptyAttemptCursor else last.cursor
         visited := last.visited
         examined := last.examined
         incomplete := last.incomplete
         done := done
         visits := last.visits },
        last.windows)
  else
    .error "Invalid attempt cleanup cursor"

/-- How a slice resumes: its budgets, and whether the windows were kept. -/
structure Resume where
  limits : Limits
  kept : Bool
deriving DecidableEq, Repr

/-- A pass over the tree as far as its slices have come. -/
structure Pass where
  cursor : Cursor
  windows : Windows
  visits : List Visit
  done : Bool

/-- A pass before its first slice. -/
def Pass.start : Pass where
  cursor := emptyAttemptCursor
  windows := Windows.new 0
  visits := []
  done := false

/-- The windows with which a slice resumes. -/
def Resume.windows
    (resume : Resume)
    (windows : Windows) : Windows :=
  if resume.kept then windows else Windows.new windows.opened

/-- Run the next slice of a pass that is not done. -/
def Pass.resume
    (fileSystem : FileSystem)
    (roots : List Path)
    (pass : Pass)
    (resume : Resume) : Except String Pass :=
  if pass.done then
    .ok pass
  else do
    let (result, windows) ← sweepAttemptTree fileSystem roots resume.limits
      pass.cursor (resume.windows pass.windows)
    pure
      { cursor := result.cursor
        windows := windows
        visits := pass.visits ++ result.visits
        done := result.done }

/-- Run slices one after the other until the pass is done. -/
def runSlices
    (fileSystem : FileSystem)
    (roots : List Path)
    (resumes : List Resume) : Except String Pass :=
  resumes.foldlM (Pass.resume fileSystem roots) Pass.start

open LeastWindow

/-!
## The visits of a whole pass

The walk over a tree at rest, without any budget: each directory in the order
of its names, and what lies in it right after it.  The visits are grouped by
the turns in which a sweep makes them.
-/

/-- What the caller is offered to remove at a path. -/
def removal
    (path : Path) : Option AttemptIdentity → List Visit
  | none =>
      []
  | some identity =>
      [.remove path identity]

/-- The turns for one name, and for the directory it stands for. -/
def entryTurns
    (fileSystem : FileSystem)
    (walk : Option (Path → List (List Visit)))
    (directory : Path)
    (entry : Name) : List (List Visit) :=
  let path := directory ++ [entry]
  if isSkipped directory entry then
    [[.entry path]]
  else
    match fileSystem.realAttemptEntry path, walk with
    | none, _ =>
        [[.entry path, .incomplete path]]
    | some .directory, some walk =>
        [.entry path] :: walk path
    | some .directory, none =>
        [[.entry path, .incomplete path]]
    | some .file, _ =>
        [.entry path :: removal path (attemptIdentity path)]
    | some _, _ =>
        [[.entry path]]

/-- The turns for a directory, of which some names are left. -/
def directoryTurns
    (fileSystem : FileSystem)
    (walk : Option (Path → List (List Visit)))
    (path : Path)
    (entries : List Name) : List (List Visit) :=
  if fileSystem.realAttemptEntry path ≠ some .directory then
    [[.entry path, .incomplete path]]
  else
    entries.flatMap (entryTurns fileSystem walk path) ++
      [removal path (attemptIdentity (path ++ [emptyEntry]))]

/-- The turns for a path below which some more directories may be opened. -/
def pathTurns
    (fileSystem : FileSystem) : ℕ → Path → List (List Visit)
  | 0, path =>
      directoryTurns fileSystem none path
        (ascending (fileSystem.names path))
  | room + 1, path =>
      directoryTurns fileSystem
        (some fun path => pathTurns fileSystem room path) path
        (ascending (fileSystem.names path))

/-- The walk into a directory, when one more may be opened. -/
def walkBelow
    (fileSystem : FileSystem) : ℕ → Option (Path → List (List Visit))
  | 0 =>
      none
  | room + 1 =>
      some (pathTurns fileSystem room)

/-- The turns for a root. -/
def rootTurns
    (fileSystem : FileSystem)
    (root : Path) : List (List Visit) :=
  pathTurns fileSystem (maxDepth - 1) root

/-- The visits under a root. -/
def rootVisits
    (fileSystem : FileSystem)
    (root : Path) : List Visit :=
  (rootTurns fileSystem root).flatten

/-- The visits of a whole pass over the roots. -/
def passVisits
    (fileSystem : FileSystem)
    (roots : List Path) : List Visit :=
  roots.flatMap (rootVisits fileSystem)

/-- The turns that the open directories still take. -/
def stackTurns
    (fileSystem : FileSystem) : List Frame → List (List Visit)
  | [] =>
      []
  | frame :: below =>
      directoryTurns fileSystem
          (walkBelow fileSystem (maxDepth - 1 - below.length)) frame.path
          (beyond frame.after (fileSystem.names frame.path)) ++
        stackTurns fileSystem below

/-- The turns that a sweep still takes from a cursor. -/
def pendingTurns
    (fileSystem : FileSystem)
    (roots : List Path)
    (cursor : Cursor) : List (List Visit) :=
  stackTurns fileSystem (cursor.enter roots).stack ++
    (roots.drop (cursor.root + 1)).flatMap (rootTurns fileSystem)

theorem pathTurns_eq
    (fileSystem : FileSystem)
    (room : ℕ)
    (path : Path) :
    pathTurns fileSystem room path =
      directoryTurns fileSystem (walkBelow fileSystem room) path
        (ascending (fileSystem.names path)) := by
  cases room with
  | zero =>
      rfl
  | succ room =>
      rfl

theorem stackTurns_open
    (fileSystem : FileSystem)
    (path : Path)
    (below : List Frame) :
    stackTurns fileSystem (⟨path, .empty⟩ :: below) =
      pathTurns fileSystem (maxDepth - 1 - below.length) path ++
        stackTurns fileSystem below := by
  rw [stackTurns, beyond_empty, pathTurns_eq]

theorem pendingTurns_root
    (fileSystem : FileSystem)
    (roots : List Path)
    (root : ℕ) :
    pendingTurns fileSystem roots ⟨root, []⟩ =
      (roots.drop root).flatMap (rootTurns fileSystem) := by
  rw [pendingTurns, Cursor.enter]
  cases isRoot : roots[root]? with
  | none =>
      have isEnd : roots.length ≤ root := List.getElem?_eq_none_iff.mp isRoot
      simp [stackTurns, List.drop_of_length_le isEnd,
        List.drop_of_length_le (Nat.le_succ_of_le isEnd)]
  | some path =>
      obtain ⟨inRange, isPath⟩ := List.getElem?_eq_some_iff.mp isRoot
      rw [List.drop_eq_getElem_cons inRange, isPath, List.flatMap_cons]
      change stackTurns fileSystem [⟨path, .empty⟩] ++ _ = _
      rw [stackTurns_open, stackTurns, List.append_nil]
      rfl

theorem flatten_pendingTurns_start
    (fileSystem : FileSystem)
    (roots : List Path) :
    (pendingTurns fileSystem roots emptyAttemptCursor).flatten =
      passVisits fileSystem roots := by
  rw [emptyAttemptCursor, pendingTurns_root, List.drop_zero, passVisits]
  induction roots with
  | nil =>
      rfl
  | cons root roots inductionHypothesis =>
      rw [List.flatMap_cons, List.flatten_append, inductionHypothesis,
        List.flatMap_cons, rootVisits]

end Frameleaf.AttemptTree
