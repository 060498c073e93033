import Frameleaf.Lib.PathTree

namespace Frameleaf.FileTrees

open PathTrees

/-!
# A tree of files with symbolic links

A path is resolved from the root, one name after the other.  A link is replaced
by its target, and resolving gives up after a number of links.  What a path
resolves to is a place of the tree that no link leads through.
-/

/-- A text that can name a file. -/
def isFileName
    (text : String) : Bool :=
  text ≠ "" && text ≠ "." && text ≠ ".." && !text.toList.contains '/'

/-- The name of a file in its directory. -/
structure FileName where
  text : String
  valid : isFileName text = true
deriving DecidableEq

/-- An absolute path as the list of its names. -/
abbrev FilePath := List FileName

/-- A part of the text of a path. -/
inductive PathPart where
  | parent
  | name (name : FileName)
deriving DecidableEq

/-- The text of a path: what its parts are and where they start. -/
structure PathText where
  absolute : Bool
  parts : List PathPart
deriving DecidableEq

/-- The path that a text means for itself, without looking at any file. -/
def resolveText
    (current : FilePath)
    (text : PathText) : FilePath :=
  text.parts.foldl (fun path part =>
    match part with
    | .parent => path.dropLast
    | .name name => path ++ [name]) (if text.absolute then [] else current)

/-- What is at a place that is no directory. -/
inductive FileItem where
  | file
  | link (target : PathText)
  | other

/-- A tree of files, directories and links. -/
abbrev FileTree := PathTree FileName FileItem

/-- Why a path cannot be used. -/
inductive FileError where
  | missing
  | notDirectory
  | loop
deriving DecidableEq

/-- Resolve the parts of a path from a directory, with some links to follow. -/
def follow
    (tree : FileTree) :
    ℕ → FilePath → List PathPart → Except FileError FilePath
  | _, here, [] =>
      .ok here
  | links, here, .parent :: rest =>
      follow tree links here.dropLast rest
  | links, here, .name name :: rest =>
      match tree.get (here ++ [name]) with
      | none =>
          .error .missing
      | some (.node _) =>
          follow tree links (here ++ [name]) rest
      | some (.leaf (.link target)) =>
          match links with
          | 0 =>
              .error .loop
          | links + 1 =>
              follow tree links (if target.absolute then [] else here)
                (target.parts ++ rest)
      | some (.leaf _) =>
          if rest = [] then
            .ok (here ++ [name])
          else
            .error .notDirectory
termination_by links _ rest => (links, rest.length)

/-- How many links may lie on the way of one path. -/
def maxLinks : ℕ := 40

/-- The place that a path leads to. -/
def realpath
    (tree : FileTree)
    (path : FilePath) : Except FileError FilePath :=
  follow tree maxLinks [] (path.map PathPart.name)

/-- What kind of thing is at a place. -/
inductive FileKind where
  | file
  | directory
  | link
  | other
deriving DecidableEq

/-- The kind of a part of a tree. -/
def kindOf : FileTree → FileKind
  | .node _ => .directory
  | .leaf .file => .file
  | .leaf (.link _) => .link
  | .leaf .other => .other

/-- The kind of what a path leads to. -/
def stat
    (tree : FileTree)
    (path : FilePath) : Except FileError FileKind := do
  let place ← realpath tree path
  match tree.get place with
  | none => .error .missing
  | some part => .ok (kindOf part)

/-- An entry of a directory, with its own kind. -/
structure DirectoryEntry where
  name : FileName
  kind : FileKind
deriving DecidableEq

/-- The entries of a directory. -/
def directoryEntries
    (entries : Entries FileName FileItem) : List DirectoryEntry :=
  entries.map fun (name, part) => { name, kind := kindOf part }

/-- The entries of the directory that a path leads to. -/
def opendir
    (tree : FileTree)
    (path : FilePath) : Except FileError (List DirectoryEntry) := do
  let place ← realpath tree path
  match tree.get place with
  | none => .error .missing
  | some (.leaf _) => .error .notDirectory
  | some (.node entries) => .ok (directoryEntries entries)

mutual

/-- The places of all directories. -/
def directories : FileTree → List FilePath
  | .leaf _ => []
  | .node entries => [] :: entriesDirectories entries

/-- The places of all directories below some entries. -/
def entriesDirectories : Entries FileName FileItem → List FilePath
  | [] => []
  | (name, child) :: entries =>
      (directories child).map (name :: ·) ++ entriesDirectories entries

end

variable {entries : Entries FileName FileItem} {name : FileName}
  {path place : FilePath}

theorem mem_entriesDirectories
    {child : FileTree}
    (member : (name, child) ∈ entries)
    (isBelow : path ∈ directories child) :
    name :: path ∈ entriesDirectories entries := by
  induction entries with
  | nil =>
      cases member
  | cons entry entries inductionHypothesis =>
      obtain ⟨first, other⟩ := entry
      rw [entriesDirectories, List.mem_append]
      rcases List.mem_cons.mp member with isHere | isLater
      · cases isHere
        exact .inl (List.mem_map_of_mem isBelow)
      · exact .inr (inductionHypothesis isLater)

variable {tree : FileTree}

theorem mem_directories
    (isThere : tree.get path = some (.node entries)) :
    path ∈ directories tree := by
  induction path generalizing tree with
  | nil =>
      cases isThere
      exact List.mem_cons_self
  | cons name path inductionHypothesis =>
      cases tree with
      | leaf item =>
          cases isThere
      | node children =>
          rw [PathTree.get] at isThere
          cases isChild : children.lookup name with
          | none =>
              rw [isChild] at isThere
              cases isThere
          | some child =>
              rw [isChild] at isThere
              exact List.mem_cons_of_mem _ (mem_entriesDirectories
                (mem_of_lookup isChild) (inductionHypothesis isThere))

/-- Below a path that leads to a directory, resolving goes on from there. -/
theorem follow_append
    {links : ℕ}
    {here : FilePath}
    {path : List PathPart}
    (leads : follow tree links here path = .ok place)
    (isDirectory : tree.get place = some (.node entries))
    (rest : List PathPart) :
    ∃ left, follow tree links here (path ++ rest) =
      follow tree left place rest := by
  fun_induction follow tree links here path with
  | case1 links here =>
      cases leads
      exact ⟨links, rfl⟩
  | case2 links here path inductionHypothesis =>
      obtain ⟨left, same⟩ := inductionHypothesis leads
      refine ⟨left, ?_⟩
      rw [List.cons_append, follow, same]
  | case3 links here name path missing =>
      cases leads
  | case4 links here name path children isNode inductionHypothesis =>
      obtain ⟨left, same⟩ := inductionHypothesis leads
      refine ⟨left, ?_⟩
      rw [List.cons_append, follow, isNode]
      exact same
  | case5 here name path target isLink =>
      cases leads
  | case6 here name path target isLink links inductionHypothesis =>
      obtain ⟨left, same⟩ := inductionHypothesis leads
      refine ⟨left, ?_⟩
      rw [List.cons_append, follow, isLink]
      dsimp only
      rw [← List.append_assoc]
      exact same
  | case7 links here name item notLink isItem =>
      cases leads
      rw [isItem] at isDirectory
      cases isDirectory
  | case8 links here name path item notLink isItem notEnd =>
      cases leads

theorem realpath_child
    {children : Entries FileName FileItem}
    (leads : realpath tree path = .ok place)
    (isDirectory : tree.get place = some (.node entries))
    (isChild : tree.get (place ++ [name]) = some (.node children)) :
    realpath tree (path ++ [name]) = .ok (place ++ [name]) := by
  unfold realpath
  rw [List.map_append]
  obtain ⟨left, same⟩ := follow_append leads isDirectory [.name name]
  rw [List.map_singleton, same, follow, isChild, follow]

theorem get_append_singleton
    (isDirectory : tree.get place = some (.node entries)) :
    tree.get (place ++ [name]) = entries.lookup name := by
  induction place generalizing tree with
  | nil =>
      cases isDirectory
      rw [List.nil_append, PathTree.get]
      cases entries.lookup name with
      | none => rfl
      | some child => rfl
  | cons first place inductionHypothesis =>
      cases tree with
      | leaf item =>
          cases isDirectory
      | node children =>
          rw [PathTree.get] at isDirectory
          rw [List.cons_append, PathTree.get]
          cases isChild : children.lookup first with
          | none =>
              rw [isChild] at isDirectory
              cases isDirectory
          | some child =>
              rw [isChild] at isDirectory
              exact inductionHypothesis isDirectory

theorem wellFormed_get
    {part : FileTree}
    (wellFormed : tree.WellFormed)
    (isThere : tree.get place = some part) :
    part.WellFormed := by
  induction place generalizing tree with
  | nil =>
      cases isThere
      exact wellFormed
  | cons name place inductionHypothesis =>
      cases wellFormed with
      | leaf item =>
          cases isThere
      | @node entries distinct children =>
          rw [PathTree.get] at isThere
          cases isChild : entries.lookup name with
          | none =>
              rw [isChild] at isThere
              cases isThere
          | some child =>
              rw [isChild] at isThere
              exact inductionHypothesis (children _ (mem_of_lookup isChild))
                isThere

variable {listing : List DirectoryEntry}

/-- What opening a directory tells. -/
theorem opendir_eq_ok :
    opendir tree path = .ok listing ↔
      ∃ place entries, realpath tree path = .ok place ∧
        tree.get place = some (.node entries) ∧
        listing = directoryEntries entries := by
  unfold opendir
  cases realpath tree path with
  | error failure =>
      constructor
      · intro impossible
        cases impossible
      · rintro ⟨_, _, impossible, _⟩
        cases impossible
  | ok place =>
      change (match tree.get place with
        | none => Except.error FileError.missing
        | some (.leaf _) => .error .notDirectory
        | some (.node entries) => .ok (directoryEntries entries)) =
          .ok listing ↔ _
      constructor
      · intro isOpen
        split at isOpen
        · cases isOpen
        · cases isOpen
        · rename_i entries isNode
          cases isOpen
          exact ⟨place, entries, rfl, isNode, rfl⟩
      · rintro ⟨_, entries, isPlace, isNode, rfl⟩
        cases isPlace
        rw [isNode]

theorem nodup_opendir
    (wellFormed : tree.WellFormed)
    (isOpen : opendir tree path = .ok listing) :
    (listing.map DirectoryEntry.name).Nodup := by
  obtain ⟨place, entries, _, isNode, rfl⟩ := opendir_eq_ok.mp isOpen
  cases wellFormed_get wellFormed isNode with
  | node distinct children =>
      unfold directoryEntries
      rw [List.map_map]
      exact distinct

theorem stat_eq_ok
    {kind : FileKind} :
    stat tree path = .ok kind ↔
      ∃ place part, realpath tree path = .ok place ∧
        tree.get place = some part ∧ kind = kindOf part := by
  unfold stat
  cases realpath tree path with
  | error failure =>
      constructor
      · intro impossible
        cases impossible
      · rintro ⟨_, _, impossible, _⟩
        cases impossible
  | ok place =>
      change (match tree.get place with
        | none => Except.error FileError.missing
        | some part => .ok (kindOf part)) = .ok kind ↔ _
      constructor
      · intro isKind
        split at isKind
        · cases isKind
        · rename_i part isThere
          cases isKind
          exact ⟨place, part, rfl, isThere, rfl⟩
      · rintro ⟨_, part, isPlace, isThere, rfl⟩
        cases isPlace
        rw [isThere]

theorem opens_of_stat
    (isDirectory : stat tree path = .ok .directory) :
    ∃ place listing, realpath tree path = .ok place ∧
      opendir tree path = .ok listing := by
  obtain ⟨place, part, leads, isThere, isKind⟩ := stat_eq_ok.mp isDirectory
  cases part with
  | node entries =>
      exact ⟨place, _, leads,
        opendir_eq_ok.mpr ⟨place, entries, leads, isThere, rfl⟩⟩
  | leaf item =>
      cases item with
      | file => cases isKind
      | link target => cases isKind
      | other => cases isKind

theorem opens_of_entry
    {entry : DirectoryEntry}
    (wellFormed : tree.WellFormed)
    (isOpen : opendir tree path = .ok listing)
    (member : entry ∈ listing)
    (isDirectory : entry.kind = .directory) :
    ∃ place inner, realpath tree (path ++ [entry.name]) = .ok place ∧
      opendir tree (path ++ [entry.name]) = .ok inner := by
  obtain ⟨place, entries, leads, isNode, rfl⟩ := opendir_eq_ok.mp isOpen
  obtain ⟨⟨name, part⟩, isEntry, rfl⟩ := List.mem_map.mp member
  cases wellFormed_get wellFormed isNode with
  | node distinct children =>
      cases part with
      | leaf item =>
          cases item with
          | file => cases isDirectory
          | link target => cases isDirectory
          | other => cases isDirectory
      | node inner =>
          have isChild : tree.get (place ++ [name]) = some (.node inner) := by
            rw [get_append_singleton isNode]
            exact lookup_of_mem distinct isEntry
          have leadsOn := realpath_child leads isNode isChild
          exact ⟨_, _, leadsOn,
            opendir_eq_ok.mpr ⟨_, inner, leadsOn, isChild, rfl⟩⟩

end Frameleaf.FileTrees
