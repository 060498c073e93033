import Frameleaf.Lib.Outcome
import Frameleaf.LibraryWalk.Walk

namespace Frameleaf.LibraryWalk

open Batching FileTrees PathTrees

/-!
# What one entry does

Each entry is entered, found, passed by, or a broken link that ends the walk.
-/

variable {storage : LibraryWalkStorage} {options : LibraryWalkOptions}

/-- A folder belongs to a root of its own. -/
def IsRoot
    (storage : LibraryWalkStorage)
    (options : LibraryWalkOptions)
    (folder : FilePath) : Prop :=
  folder ∈ rootsOf storage options

variable {folder file : FilePath} {entry : DirectoryEntry}

theorem visit_hidden
    (walk : Walk)
    (hidden : ¬IsVisible options entry) :
    walk.visit storage options folder entry = .ok walk := by
  unfold IsVisible at hidden
  rw [not_or, not_not] at hidden
  have isHidden : (!options.includeHidden &&
      entry.name.text.toList.head? = some '.') = true := by
    simp [hidden.1, hidden.2]
  unfold Walk.visit
  rw [if_pos isHidden]

theorem visit_visible
    (walk : Walk)
    (visible : IsVisible options entry) :
    walk.visit storage options folder entry =
      match entryKind storage (folder ++ [entry.name]) entry with
      | .error failure => .error failure
      | .ok none => .ok walk
      | .ok (some kind) =>
          walk.examine storage options (folder ++ [entry.name]) entry kind := by
  have isShown : ¬(!options.includeHidden &&
      entry.name.text.toList.head? = some '.') = true := by
    rcases visible with isIncluded | notDot
    · simp [isIncluded]
    · simp [notDot]
  unfold Walk.visit
  exact if_neg isShown

theorem leads_of_kind
    {kind : FileKind}
    (isKind : entryKind storage file entry = .ok (some kind))
    (isLink : entry.kind = .link) :
    stat storage.files file = .ok kind := by
  unfold entryKind at isKind
  rw [if_pos isLink] at isKind
  split at isKind
  · rename_i found isFound
    cases isKind
    exact isFound
  · cases isKind
  · cases isKind
  · cases isKind

variable {listing : List DirectoryEntry}

theorem opens_of_kind
    (isOpen : opendir storage.files folder = .ok listing)
    (member : entry ∈ listing)
    (isKind : entryKind storage (folder ++ [entry.name]) entry =
      .ok (some .directory)) :
    ∃ real inner,
      realpath storage.files (folder ++ [entry.name]) = .ok real ∧
        opendir storage.files (folder ++ [entry.name]) = .ok inner := by
  by_cases isLink : entry.kind = .link
  · exact opens_of_stat (leads_of_kind isKind isLink)
  · unfold entryKind at isKind
    rw [if_neg isLink] at isKind
    cases isKind' : entry.kind with
    | directory =>
        exact opens_of_entry storage.wellFormed isOpen member isKind'
    | _ =>
        rw [isKind'] at isKind
        cases isKind

theorem examine_listed
    (walk : Walk)
    (listed : Listed storage options file entry) :
    walk.examine storage options file entry .file =
      .ok { walk with found := walk.found.push options.take file } := by
  have included : excluded storage options file
      (decide (FileKind.file = .directory)) = false := listed.included
  unfold Walk.examine
  rw [included, if_neg nofun, if_neg nofun, listed.supported]
  change walk.list storage options file entry = _
  unfold Walk.list
  by_cases isLink : entry.kind = .link
  · obtain ⟨place, _, leads, _, _⟩ :=
      stat_eq_ok.mp (leads_of_kind listed.kind isLink)
    rw [if_pos isLink, leads]
    change (if isImmichPath storage place = true then _ else _) = _
    rw [listed.outside isLink place leads]
    rfl
  · rw [if_neg isLink]
    rfl

/-- A file that is not of the library is passed by. -/
theorem examine_file
    (walk : Walk)
    (isFile : entryKind storage file entry = .ok (some .file))
    (notListed : ¬Listed storage options file entry) :
    walk.examine storage options file entry .file = .ok walk := by
  unfold Walk.examine
  split
  · rfl
  · rename_i included
    rw [if_neg nofun]
    split
    · rename_i isSupported
      unfold Walk.list
      by_cases isLink : entry.kind = .link
      · obtain ⟨place, _, leads, _, _⟩ :=
          stat_eq_ok.mp (leads_of_kind isFile isLink)
        rw [if_pos isLink, leads]
        change (if isImmichPath storage place = true then _ else _) = _
        split
        · rfl
        · rename_i isOutside
          refine absurd ?_ notListed
          refine ⟨isFile, by simpa using included, by simpa using isSupported,
            ?_⟩
          intro _ real leadsTo
          rw [leads] at leadsTo
          cases leadsTo
          simpa using isOutside
      · refine absurd ?_ notListed
        exact ⟨isFile, by simpa using included, by simpa using isSupported,
          fun isLinked => absurd isLinked isLink⟩
    · rfl

/-- A folder is entered. -/
theorem examine_enters
    (walk : Walk)
    {real : FilePath}
    (enters : Enters storage options (IsRoot storage options) walk.ancestors
      folder entry real listing) :
    walk.examine storage options (folder ++ [entry.name]) entry .directory =
      .ok { walk with
        stack := {
          folder := folder ++ [entry.name]
          real
          directory := listing } :: walk.stack
        ancestors := real :: walk.ancestors } := by
  have included : excluded storage options (folder ++ [entry.name])
      (decide (FileKind.directory = .directory)) = false := enters.included
  have opened : walk.open storage (folder ++ [entry.name]) = .ok { walk with
      stack := {
        folder := folder ++ [entry.name]
        real
        directory := listing } :: walk.stack
      ancestors := real :: walk.ancestors } := by
    have goesOn : ¬(real ∈ walk.ancestors ∨
        isImmichPath storage real = true) := by
      rw [enters.opens.outside]
      simpa using enters.fresh
    unfold Walk.open
    rw [enters.opens.leads, Outcome.ok_bind, if_neg goesOn,
      enters.opens.isOpen]
    rfl
  have isFree : folder ++ [entry.name] ∉ rootsOf storage options := enters.free
  unfold Walk.examine Walk.enter
  rw [included, if_neg nofun, if_pos rfl, if_neg isFree, opened]

/-- A folder that is not entered is passed by. -/
theorem examine_folder
    (walk : Walk)
    (isOpen : opendir storage.files folder = .ok listing)
    (member : entry ∈ listing)
    (visible : IsVisible options entry)
    (isFolder : entryKind storage (folder ++ [entry.name]) entry =
      .ok (some .directory))
    (notEntered : ∀ real inner, ¬Enters storage options
      (IsRoot storage options) walk.ancestors folder entry real inner) :
    walk.examine storage options (folder ++ [entry.name]) entry .directory =
      .ok walk := by
  obtain ⟨real, inner, leads, opens⟩ :=
    opens_of_kind isOpen member isFolder
  unfold Walk.examine
  split
  · rfl
  · rename_i included
    rw [if_pos rfl]
    split
    · rfl
    · rename_i isFree
      have passedBy : real ∈ walk.ancestors ∨
          isImmichPath storage real = true := by
        by_contra goesOn
        rw [not_or] at goesOn
        exact notEntered real inner {
          visible
          kind := isFolder
          included := by simpa using included
          free := isFree
          opens := ⟨leads, by simpa using goesOn.2, opens⟩
          fresh := goesOn.1 }
      unfold Walk.enter Walk.open
      rw [leads, Outcome.ok_bind, if_pos passedBy]
      rfl

theorem examine_other
    (walk : Walk)
    {kind : FileKind}
    (notFolder : kind ≠ .directory)
    (notFile : kind ≠ .file) :
    walk.examine storage options file entry kind = .ok walk := by
  unfold Walk.examine
  rw [if_neg notFolder]
  split
  · rfl
  · split
    · rename_i isFile
      rw [Bool.and_eq_true, decide_eq_true_eq] at isFile
      exact absurd isFile.1 notFile
    · rfl

theorem entryKind_error
    {failure : FileError}
    (fails : entryKind storage file entry = .error failure) :
    failure = .notDirectory := by
  unfold entryKind at fails
  split at fails
  · split at fails
    · cases fails
    · cases fails
    · cases fails
    · rename_i notMissing notLoop _
      cases fails
      cases failure with
      | missing => exact absurd rfl notMissing
      | notDirectory => rfl
      | loop => exact absurd rfl notLoop
  · cases fails

end Frameleaf.LibraryWalk
