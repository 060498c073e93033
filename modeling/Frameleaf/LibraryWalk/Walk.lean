import Frameleaf.Lib.Batches
import Frameleaf.Lib.FileTree
import Mathlib.Algebra.Group.Nat.Defs

namespace Frameleaf.LibraryWalk

open Batching FileTrees

/-!
# Walking the folders of a library

One folder after the other is opened and read to its end, entry by entry; a
folder that is found on the way is opened before the next entry is read.  A
folder is passed by when another root owns it, or when it is one of the folders
that are open already under another name.
-/

/-- What the glob packages say of patterns and names. -/
structure GlobLibrary where
  negative : List String → List String
  isDynamicPattern : String → Bool
  matcher : String → FilePath → Bool
  supported : Bool → String → Bool

/-- `LibraryWalkOptions` -/
structure LibraryWalkOptions where
  pathsToCrawl : List PathText
  includeHidden : Bool
  exclusionPatterns : List String
  take : ℕ

/-- The platform: its working directory, media location, globs and files. -/
structure LibraryWalkStorage where
  currentDirectory : FilePath
  mediaLocation : FilePath
  globs : GlobLibrary
  files : FileTree
  wellFormed : files.WellFormed

/-- `StorageCore.isImmichPath` -/
def isImmichPath
    (storage : LibraryWalkStorage)
    (path : FilePath) : Bool :=
  storage.mediaLocation.isPrefixOf path

/-- `[...new Set(options.pathsToCrawl.map((root) => path.resolve(root)))]` -/
def rootsOf
    (storage : LibraryWalkStorage)
    (options : LibraryWalkOptions) : List FilePath :=
  (options.pathsToCrawl.map (resolveText storage.currentDirectory)).foldl
    (fun roots root => if root ∈ roots then roots else roots ++ [root]) []

/-- `path.posix.basename(pattern)` -/
def basename
    (pattern : String) : String :=
  String.ofList (((pattern.toList.splitOn '/').filter (· ≠ [])).getLastD [])

variable (storage : LibraryWalkStorage) (options : LibraryWalkOptions)

/-- `excluded` -/
def excluded
    (file : FilePath)
    (directory : Bool) : Bool :=
  let patterns := storage.globs.negative options.exclusionPatterns
  let ignoredDirectories := patterns.filter fun pattern =>
    "/**".toList.isSuffixOf pattern.toList ||
      !storage.globs.isDynamicPattern (basename pattern)
  (if directory then ignoredDirectories else patterns).any fun pattern =>
    storage.globs.matcher pattern file

/-- An open folder, with the entries that were not read yet. -/
structure Frame where
  folder : FilePath
  real : FilePath
  directory : List DirectoryEntry

/-- The open folders, the last opened one first, and what was found. -/
structure Walk where
  stack : List Frame
  ancestors : List FilePath
  found : Batches FilePath

/-- `open` -/
def Walk.open
    (walk : Walk)
    (folder : FilePath) : Except FileError Walk := do
  let real ← realpath storage.files folder
  if real ∈ walk.ancestors ∨ isImmichPath storage real = true then
    return walk
  else
    let directory ← opendir storage.files folder
    return { walk with
      stack := { folder, real, directory } :: walk.stack
      ancestors := real :: walk.ancestors }

/-- What an entry is, behind a link; nothing when the link leads nowhere. -/
def entryKind
    (file : FilePath)
    (entry : DirectoryEntry) : Except FileError (Option FileKind) :=
  if entry.kind = .link then
    match stat storage.files file with
    | .ok kind => .ok (some kind)
    | .error .missing | .error .loop => .ok none
    | .error failure => .error failure
  else
    .ok (some entry.kind)

/-- Open a folder that was found; one that went missing is passed by. -/
def Walk.enter
    (walk : Walk)
    (file : FilePath) : Except FileError Walk :=
  match walk.open storage file with
  | .ok next => .ok next
  | .error .missing => .ok walk
  | .error failure => .error failure

/-- Find a file, unless it is a link into the media storage. -/
def Walk.list
    (walk : Walk)
    (file : FilePath)
    (entry : DirectoryEntry) : Except FileError Walk := do
  if entry.kind = .link then
    if isImmichPath storage (← realpath storage.files file) then
      return walk
    else
      return { walk with found := walk.found.push options.take file }
  else
    return { walk with found := walk.found.push options.take file }

/-- What is done with an entry of a kind. -/
def Walk.examine
    (walk : Walk)
    (file : FilePath)
    (entry : DirectoryEntry)
    (kind : FileKind) : Except FileError Walk :=
  if excluded storage options file (kind = .directory) then
    .ok walk
  else if kind = .directory then
    if file ∈ rootsOf storage options then
      .ok walk
    else
      walk.enter storage file
  else if kind = .file &&
      storage.globs.supported options.includeHidden entry.name.text then
    walk.list storage options file entry
  else
    .ok walk

/-- One entry of an open folder. -/
def Walk.visit
    (walk : Walk)
    (folder : FilePath)
    (entry : DirectoryEntry) : Except FileError Walk :=
  if !options.includeHidden && entry.name.text.toList.head? = some '.' then
    .ok walk
  else
    match entryKind storage (folder ++ [entry.name]) entry with
    | .error failure =>
        .error failure
    | .ok none =>
        .ok walk
    | .ok (some kind) =>
        walk.examine storage options (folder ++ [entry.name]) entry kind

/-- One turn of the loop while folders are open. -/
def Walk.turn
    (walk : Walk) : Except FileError Walk :=
  match walk.stack with
  | [] =>
      .ok walk
  | frame :: stack =>
      match frame.directory with
      | [] =>
          .ok { walk with
            stack
            ancestors := walk.ancestors.erase frame.real }
      | entry :: directory =>
          Walk.visit storage options
            { walk with stack := { frame with directory } :: stack }
            frame.folder entry

/-- How a walk ended, and the batches it handed out. -/
structure Ending where
  batches : List (List FilePath)
  failure : Option FileError

/-- Walk from an open folder until none is open; `none` is out of fuel. -/
def walkFolders :
    ℕ → Walk → Option (Except Ending Walk)
  | 0, _ =>
      none
  | fuel + 1, walk =>
      match walk.stack with
      | [] =>
          some (.ok walk)
      | _ :: _ =>
          match walk.turn storage options with
          | .ok next =>
              walkFolders fuel next
          | .error failure =>
              some (.error {
                batches := walk.found.full
                failure := some failure })

/-- Walk one root after the other. -/
def walkRoots
    (fuel : ℕ) : Batches FilePath → List FilePath → Option Ending
  | found, [] =>
      some { batches := found.finish, failure := none }
  | found, root :: roots =>
      let walk : Walk := { stack := [], ancestors := [], found }
      match walk.open storage root with
      | .error failure =>
          some { batches := found.full, failure := some failure }
      | .ok walk =>
          match walkFolders storage options fuel walk with
          | none =>
              none
          | some (.error ending) =>
              some ending
          | some (.ok walk) =>
              walkRoots fuel walk.found roots

/-- The largest safe integer. -/
def MAX_SAFE_INTEGER : ℕ := 2 ^ 53 - 1

/-- `walkLibraryPaths`; it refuses a batch size that is no positive integer. -/
def walkLibraryPaths
    (fuel : ℕ) : Except Unit (Option Ending) :=
  if options.take < 1 ∨ MAX_SAFE_INTEGER < options.take then
    .error ()
  else
    .ok (walkRoots storage options fuel .empty (rootsOf storage options))

open Batching FileTrees PathTrees

/-!
## Which files are found

A file is found under a root through folders that are visible, not excluded and
not open already under another name.  Which root owns a folder does not matter
for what is found, only for which root finds it.
-/

variable (storage : LibraryWalkStorage) (options : LibraryWalkOptions)

/-- An entry is not hidden. -/
def IsVisible
    (entry : DirectoryEntry) : Prop :=
  options.includeHidden = true ∨ entry.name.text.toList.head? ≠ some '.'

/-- A folder that is no media storage opens. -/
structure Opens
    (folder real : FilePath)
    (listing : List DirectoryEntry) : Prop where
  leads : realpath storage.files folder = .ok real
  outside : isImmichPath storage real = false
  isOpen : opendir storage.files folder = .ok listing

/-- An entry is a folder that is opened, unless it is owned. -/
structure Enters
    (owned : FilePath → Prop)
    (ancestors : List FilePath)
    (folder : FilePath)
    (entry : DirectoryEntry)
    (real : FilePath)
    (listing : List DirectoryEntry) : Prop where
  visible : IsVisible options entry
  kind : entryKind storage (folder ++ [entry.name]) entry =
    .ok (some .directory)
  included : excluded storage options (folder ++ [entry.name]) true = false
  free : ¬owned (folder ++ [entry.name])
  opens : Opens storage (folder ++ [entry.name]) real listing
  fresh : real ∉ ancestors

/-- An entry is met in a folder or in one that is entered from it. -/
inductive Meets
    (owned : FilePath → Prop) :
    List FilePath → FilePath → List DirectoryEntry →
      FilePath → DirectoryEntry → Prop
  | here
      {ancestors : List FilePath}
      {folder : FilePath}
      {listing : List DirectoryEntry}
      {entry : DirectoryEntry}
      (member : entry ∈ listing)
      (visible : IsVisible options entry) :
      Meets owned ancestors folder listing (folder ++ [entry.name]) entry
  | inside
      {ancestors : List FilePath}
      {folder real : FilePath}
      {listing inner : List DirectoryEntry}
      {entry : DirectoryEntry}
      {file : FilePath}
      {met : DirectoryEntry}
      (member : entry ∈ listing)
      (enters : Enters storage options owned ancestors folder entry real inner)
      (below : Meets owned (real :: ancestors) (folder ++ [entry.name]) inner
        file met) :
      Meets owned ancestors folder listing file met

/-- An entry is met from a root. -/
def MeetsFrom
    (owned : FilePath → Prop)
    (root file : FilePath)
    (entry : DirectoryEntry) : Prop :=
  ∃ real listing, Opens storage root real listing ∧
    Meets storage options owned [real] root listing file entry

/-- An entry is a file of the library. -/
structure Listed
    (file : FilePath)
    (entry : DirectoryEntry) : Prop where
  kind : entryKind storage file entry = .ok (some .file)
  included : excluded storage options file false = false
  supported : storage.globs.supported options.includeHidden entry.name.text =
    true
  outside : entry.kind = .link → ∀ real,
    realpath storage.files file = .ok real → isImmichPath storage real = false

/-- An entry is a link that runs through something that is no directory. -/
def Broken
    (file : FilePath)
    (entry : DirectoryEntry) : Prop :=
  entryKind storage file entry = .error .notDirectory

/-- A path is eligible under a root, whatever the other roots are. -/
def Eligible
    (root file : FilePath) : Prop :=
  ∃ entry, MeetsFrom storage options (fun _ => False) root file entry ∧
    Listed storage options file entry

variable {storage options}
variable {owned : FilePath → Prop}

variable {ancestors : List FilePath} {folder file : FilePath}
  {listing : List DirectoryEntry} {entry : DirectoryEntry}

theorem Meets.mono
    {fewer : List FilePath}
    (meets : Meets storage options owned ancestors folder listing file entry)
    (subset : fewer ⊆ ancestors) :
    Meets storage options owned fewer folder listing file entry := by
  induction meets generalizing fewer with
  | here member visible =>
      exact .here member visible
  | inside member enters _ inductionHypothesis =>
      refine .inside member { enters with
        fresh := fun isOpen => enters.fresh (subset isOpen) } ?_
      exact inductionHypothesis (List.cons_subset_cons _ subset)

theorem Meets.free
    (meets : Meets storage options owned ancestors folder listing file entry) :
    Meets storage options (fun _ => False) ancestors folder listing file
      entry := by
  induction meets with
  | here member visible =>
      exact .here member visible
  | inside member enters _ inductionHypothesis =>
      exact .inside member { enters with free := id } inductionHypothesis

theorem Meets.fromOwner
    (meets : Meets storage options (fun _ => False) ancestors folder listing
      file entry)
    (owned : FilePath → Prop) :
    Meets storage options owned ancestors folder listing file entry ∨
      ∃ root, owned root ∧ MeetsFrom storage options owned root file entry := by
  induction meets with
  | here member visible =>
      exact .inl (.here member visible)
  | @inside ancestors folder real listing inner entry file met member enters
      _ inductionHypothesis =>
      rcases inductionHypothesis with below | isElsewhere
      · by_cases isOwned : owned (folder ++ [entry.name])
        · right
          refine ⟨_, isOwned, real, inner, enters.opens, below.mono ?_⟩
          exact List.cons_subset_cons _ (List.nil_subset _)
        · exact .inl (.inside member { enters with free := isOwned } below)
      · exact .inr isElsewhere

/-- What is met lies below its folder, and no owned folder is on the way. -/
theorem Meets.apart
    (meets : Meets storage options owned ancestors folder listing file
      entry) :
    (∃ rest, rest ≠ [] ∧ file = folder ++ rest) ∧
      ∀ first rest, first ≠ [] → rest ≠ [] → file = folder ++ first ++ rest →
        ¬owned (folder ++ first) := by
  induction meets with
  | @here ancestors folder listing entry member visible =>
      refine ⟨⟨[entry.name], nofun, rfl⟩, ?_⟩
      intro first rest inside notEnd isSplit
      rw [List.append_assoc, List.append_cancel_left_eq] at isSplit
      have length := congrArg List.length isSplit
      rw [List.length_append, List.length_singleton] at length
      have firstPositive := List.length_pos_iff.mpr inside
      have restPositive := List.length_pos_iff.mpr notEnd
      omega
  | @inside ancestors folder real listing inner entry file met member enters
      _ inductionHypothesis =>
      obtain ⟨⟨tail, isTail, isFile⟩, apart⟩ := inductionHypothesis
      refine ⟨⟨entry.name :: tail, nofun, ?_⟩, ?_⟩
      · rw [isFile, List.append_assoc]
        rfl
      · intro first rest inside notEnd isSplit
        have isPath := isSplit
        rw [isFile, List.append_assoc, List.append_assoc,
          List.append_cancel_left_eq] at isPath
        cases first with
        | nil =>
            exact absurd rfl inside
        | cons name first =>
            rw [List.singleton_append, List.cons_append,
              List.cons.injEq] at isPath
            obtain ⟨rfl, isTailSplit⟩ := isPath
            cases first with
            | nil =>
                exact enters.free
            | cons next first =>
                have later := apart (next :: first) rest nofun notEnd (by
                  rw [isFile, isTailSplit, ← List.append_assoc])
                rw [List.append_assoc] at later
                exact later

theorem root_unique
    {first second : FilePath}
    {firstEntry secondEntry : DirectoryEntry}
    (firstOwned : owned first)
    (secondOwned : owned second)
    (isFirst : MeetsFrom storage options owned first file firstEntry)
    (isSecond : MeetsFrom storage options owned second file secondEntry) :
    first = second := by
  obtain ⟨_, _, _, firstMeets⟩ := isFirst
  obtain ⟨_, _, _, secondMeets⟩ := isSecond
  obtain ⟨⟨firstRest, firstEnd, rfl⟩, firstApart⟩ := firstMeets.apart
  obtain ⟨⟨secondRest, secondEnd, same⟩, secondApart⟩ := secondMeets.apart
  rcases List.append_eq_append_iff.mp same with
    ⟨between, isSecond, isRest⟩ | ⟨between, isFirst, isRest⟩
  · by_cases isSame : between = []
    · rw [isSecond, isSame, List.append_nil]
    · subst isSecond
      exact absurd secondOwned (firstApart between secondRest isSame secondEnd
        (by rw [isRest, List.append_assoc]))
  · by_cases isSame : between = []
    · rw [isFirst, isSame, List.append_nil]
    · subst isFirst
      exact absurd firstOwned (secondApart between firstRest isSame firstEnd
        rfl)

theorem meetsFrom_owner
    {root : FilePath}
    (isOwned : owned root)
    (meets : MeetsFrom storage options (fun _ => False) root file entry) :
    ∃ owner, owned owner ∧
      MeetsFrom storage options owned owner file entry := by
  obtain ⟨real, listing, opens, isMet⟩ := meets
  rcases isMet.fromOwner owned with isMet | isElsewhere
  · exact ⟨root, isOwned, real, listing, opens, isMet⟩
  · exact isElsewhere

end Frameleaf.LibraryWalk
