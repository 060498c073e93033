import Frameleaf.Lib.LeastWindow
import Mathlib.Data.List.Lex
import Mathlib.Data.List.Nodup
import Mathlib.Data.List.Perm.Basic
import Mathlib.Logic.Function.Basic

namespace Frameleaf.AttemptTree

/-!
# Paths, attempts and a tree at rest

Names are sequences of UTF-16 units and compare unit by unit.  A resolved
absolute path is the list of its components.  The directory tree answers
`lstat` and lists directories, each time in an order of its own choice.
-/

/-- A file name as the sequence of its UTF-16 units. -/
structure Name where
  units : List ℕ
deriving DecidableEq, Repr

/-- Names compare unit by unit. -/
instance : LinearOrder Name :=
  LinearOrder.lift' Name.units fun first second same => by
    cases first
    cases second
    simpa using same

/-- A resolved absolute path as the list of its components. -/
abbrev Path := List Name

/-- The name of a literal of the source. -/
def name
    (text : String) : Name where
  units := text.toList.map Char.toNat

/-- The empty name, which comes before all others. -/
def Name.empty : Name where
  units := []

theorem Name.empty_lt
    {other : Name}
    (isNamed : other ≠ .empty) :
    .empty < other := by
  obtain ⟨units⟩ := other
  change ([] : List ℕ) < units
  cases units with
  | nil =>
      exact absurd rfl isNamed
  | cons unit rest =>
      exact List.Lex.nil

/-- What `lstat` says about an entry. -/
inductive Kind where
  | directory
  | file
  | symlink
  | other
deriving DecidableEq, Repr

/-- The job and the claim to which the files of an attempt belong. -/
structure AttemptIdentity where
  jobId : Name
  token : Name
deriving DecidableEq, Repr

/-- The unit is a decimal digit. -/
def isDigit
    (unit : ℕ) : Bool :=
  0x30 ≤ unit && unit ≤ 0x39

/-- The unit is a hexadecimal digit in either case. -/
def isHexDigit
    (unit : ℕ) : Bool :=
  isDigit unit || (0x61 ≤ unit && unit ≤ 0x66) ||
    (0x41 ≤ unit && unit ≤ 0x46)

/-- The unit is a letter or a digit. -/
def isAlphanumeric
    (unit : ℕ) : Bool :=
  isDigit unit || (0x61 ≤ unit && unit ≤ 0x7a) ||
    (0x41 ≤ unit && unit ≤ 0x5a)

/-- The places of the hyphens of a UUID. -/
def uuidHyphens : List ℕ :=
  [8, 13, 18, 23]

/-- The name has the form of a UUID. -/
def isUuid
    (text : Name) : Bool :=
  text.units.length == 36 &&
    text.units.zipIdx.all fun (unit, place) =>
      if place ∈ uuidHyphens then unit == 0x2d else isHexDigit unit

/-- The name has the form of a staging directory of the image library. -/
def isSharpStaging
    (text : Name) : Bool :=
  let stem := (name ".sharp-").units
  stem.isPrefixOf text.units && text.units.length == stem.length + 6 &&
    (text.units.drop stem.length).all isAlphanumeric

/-- The components after the last occurrence of a name. -/
def afterLast
    (part : Name)
    (parts : Path) : Option Path :=
  if part ∈ parts then
    some (parts.reverse.takeWhile (· ≠ part)).reverse
  else
    none

/-- The attempt to which a path belongs. -/
def attemptIdentity
    (path : Path) : Option AttemptIdentity :=
  match afterLast (name ".attempts") path with
  | some [jobId, token, _] =>
      if isUuid jobId && isUuid token then some ⟨jobId, token⟩ else none
  | some [jobId, token, staging, _] =>
      if isSharpStaging staging && isUuid jobId && isUuid token then
        some ⟨jobId, token⟩
      else
        none
  | _ =>
      none

/-- A directory tree that nobody changes. -/
structure FileSystem where
  /-- What is found under a path. -/
  lstat : Path → Option Kind
  /-- The names that each opening of a directory yields, one after the other. -/
  listing : ℕ → Path → List Name
  /-- Every opening of a directory yields the same names. -/
  static : ∀ opening other path,
    (listing opening path).Perm (listing other path)
  /-- A directory holds a name once. -/
  distinct : ∀ opening path, (listing opening path).Nodup
  /-- No name is empty. -/
  named : ∀ opening path, .empty ∉ listing opening path
  /-- The number of names of the largest directory. -/
  width : ℕ
  /-- No directory holds more names than the largest. -/
  narrow : ∀ opening path, (listing opening path).length ≤ width

/-- Follow the components one by one, through real directories only. -/
def FileSystem.realEntryFrom
    (fileSystem : FileSystem)
    (current : Path) : Path → Option Kind
  | [] =>
      none
  | [part] =>
      match fileSystem.lstat (current ++ [part]) with
      | some .symlink =>
          none
      | found =>
          found
  | part :: next :: rest =>
      match fileSystem.lstat (current ++ [part]) with
      | some .directory =>
          realEntryFrom fileSystem (current ++ [part]) (next :: rest)
      | _ =>
          none

/-- The entry at a path that no symbolic link leads to. -/
def FileSystem.realAttemptEntry
    (fileSystem : FileSystem)
    (path : Path) : Option Kind :=
  fileSystem.realEntryFrom [] path

open LeastWindow

/-!
## Reading a directory in bounded windows

A directory is streamed while the least 256 names beyond the position are kept.
When the stream ends they are the page of the directory; when the budget ends
first the stream stays open, to be continued by the next call.
-/

/-- The number of names that are kept of one directory. -/
def windowSize : ℕ :=
  256

/-- A directory whose stream has not ended yet. -/
structure Scan where
  path : Path
  after : Name
  directory : List Name
  names : List Name
deriving DecidableEq, Repr

/-- The pages and the open stream of `AttemptDirectoryWindows`. -/
structure Windows where
  pages : Path → Option (List Name)
  scan : Option Scan
  opened : ℕ

/-- The reads that a slice has made and may make, and the time it has left. -/
structure Budget where
  reads : ℕ
  maximum : ℕ
  clock : ℕ
deriving DecidableEq, Repr

/-- The slice may read one more entry. -/
def Budget.mayRead
    (budget : Budget) : Bool :=
  budget.reads < budget.maximum && 0 < budget.clock

/-- One more reading of the clock came before the deadline. -/
def Budget.tick
    (budget : Budget) : Budget :=
  { budget with clock := budget.clock - 1 }

/-- One more entry was read. -/
def Budget.spend
    (budget : Budget) : Budget :=
  { budget.tick with reads := budget.reads + 1 }

/-- Windows without a page and without an open stream. -/
def Windows.new
    (opened : ℕ) : Windows where
  pages := fun _ => none
  scan := none
  opened := opened

/-- Forget the page of a directory. -/
def Windows.release
    (windows : Windows)
    (path : Path) : Windows :=
  { windows with pages := Function.update windows.pages path none }

/-- The names kept after one more name of the stream. -/
def keep
    (after : Name)
    (names : List Name)
    (entry : Name) : List Name :=
  if after < entry then
    admitItem windowSize names entry
  else
    names

/--
Read a stream until it or the budget ends.

The outcome is the page when the stream has ended and the stream that stays
open when the budget has.
-/
def readEntries
    (path : Path)
    (after : Name) :
    List Name → List Name → Budget →
      Option (List Name) × Option Scan × Budget
  | [], names, budget =>
      if budget.mayRead then
        (some names, none, budget.spend)
      else
        (none, some ⟨path, after, [], names⟩, budget)
  | entry :: directory, names, budget =>
      if budget.mayRead then
        readEntries path after directory (keep after names entry) budget.spend
      else
        (none, some ⟨path, after, entry :: directory, names⟩, budget)

/-- The page of a directory, when it reaches beyond the position. -/
def Windows.currentPage
    (windows : Windows)
    (path : Path)
    (after : Name) : Option (List Name) :=
  (windows.pages path).filter fun page => page.any (after < ·)

/-- The open stream for a position, or the directory opened anew. -/
def Windows.scanFor
    (fileSystem : FileSystem)
    (windows : Windows)
    (path : Path)
    (after : Name) : Scan × ℕ :=
  let opened :=
    (⟨path, after, fileSystem.listing windows.opened path, []⟩,
      windows.opened + 1)
  match windows.scan with
  | some scan =>
      if scan.path = path ∧ scan.after = after then
        (scan, windows.opened)
      else
        opened
  | none =>
      opened

/-- The names of a directory around a position, unless the budget ends. -/
def Windows.read
    (fileSystem : FileSystem)
    (windows : Windows)
    (path : Path)
    (after : Name)
    (budget : Budget) : Option (List Name) × Windows × Budget :=
  match windows.currentPage path after with
  | some page =>
      (some page, windows, budget)
  | none =>
      let released := windows.release path
      let (scan, opened) := released.scanFor fileSystem path after
      match readEntries path after scan.directory scan.names budget with
      | (some names, _, spent) =>
          (some names,
            { pages := Function.update released.pages path (some names)
              scan := none
              opened := opened },
            spent)
      | (none, scan, spent) =>
          (none,
            { pages := released.pages, scan := scan, opened := opened },
            spent)

/-- The names of a directory, in the order of its first opening. -/
def FileSystem.names
    (fileSystem : FileSystem)
    (path : Path) : List Name :=
  fileSystem.listing 0 path

end Frameleaf.AttemptTree
