import Frameleaf.LibraryWalk.WalkLaws

namespace Frameleaf.LibraryWalk

open Batching FileTrees PathTrees

/-!
# The laws of a whole walk

A walk ends for every tree, links in circles included.  When each root is
available and no link on the way is broken, every eligible file is in exactly
one batch, whatever the order of the roots.  Otherwise the walk fails.
-/

theorem mem_foldl_new
    {Item : Type*}
    [BEq Item]
    [LawfulBEq Item]
    (items kept : List Item)
    {item : Item} :
    item ∈ items.foldl (fun kept item =>
        if item ∈ kept then kept else kept ++ [item]) kept ↔
      item ∈ kept ∨ item ∈ items := by
  induction items generalizing kept with
  | nil =>
      simp
  | cons first items inductionHypothesis =>
      rw [List.foldl_cons, inductionHypothesis]
      by_cases isOld : first ∈ kept
      · rw [if_pos isOld, List.mem_cons]
        constructor
        · rintro (isKept | isLater)
          · exact .inl isKept
          · exact .inr (.inr isLater)
        · rintro (isKept | rfl | isLater)
          · exact .inl isKept
          · exact .inl isOld
          · exact .inr isLater
      · rw [if_neg isOld, List.mem_append, List.mem_singleton, List.mem_cons,
          or_assoc]

theorem nodup_foldl_new
    {Item : Type*}
    [BEq Item]
    [LawfulBEq Item]
    (items : List Item)
    {kept : List Item}
    (distinct : kept.Nodup) :
    (items.foldl (fun kept item =>
      if item ∈ kept then kept else kept ++ [item]) kept).Nodup := by
  induction items generalizing kept with
  | nil =>
      exact distinct
  | cons first items inductionHypothesis =>
      rw [List.foldl_cons]
      split
      · exact inductionHypothesis distinct
      · rename_i isNew
        apply inductionHypothesis
        exact List.nodup_append.mpr ⟨distinct, List.nodup_singleton _, by
          rintro item isKept _ isFirst rfl
          rw [List.mem_singleton] at isFirst
          subst isFirst
          exact isNew isKept⟩

variable (storage : LibraryWalkStorage) (options : LibraryWalkOptions)

/-- Every root is available, and no link that is met leads through a file. -/
def Walkable : Prop :=
  ∀ root ∈ rootsOf storage options, Available storage root ∧
    ∀ file entry, MeetsFrom storage options (fun _ => False) root file entry →
      ¬Broken storage file entry

/-- A walk that handed out every eligible file once. -/
structure HandsOut
    (ending : Ending) : Prop where
  succeeds : ending.failure = none
  eligible : ∀ file, file ∈ ending.batches.flatten ↔
    ∃ root ∈ rootsOf storage options, Eligible storage options root file
  once : ending.batches.flatten.Nodup
  batches : AreBatches options.take ending.batches

variable {storage options}

variable {root file : FilePath}

theorem mem_rootsOf :
    root ∈ rootsOf storage options ↔ ∃ path ∈ options.pathsToCrawl,
      resolveText storage.currentDirectory path = root := by
  unfold rootsOf
  rw [mem_foldl_new, List.mem_map]
  simp

theorem walkable_iff :
    Walkable storage options ↔ ∀ root ∈ rootsOf storage options,
      Available storage root ∧ Unbroken storage options root := by
  constructor
  · intro walkable root isRoot
    obtain ⟨available, unbroken⟩ := walkable root isRoot
    refine ⟨available, ?_⟩
    rintro file entry ⟨real, listing, opens, meets⟩
    exact unbroken file entry ⟨real, listing, opens, meets.free⟩
  · intro usable root isRoot
    refine ⟨(usable root isRoot).1, ?_⟩
    intro file entry meets
    have isOwned : IsRoot storage options root := isRoot
    obtain ⟨owner, isOwner, fromOwner⟩ := meetsFrom_owner isOwned meets
    exact (usable owner isOwner).2 file entry fromOwner

theorem FindsFrom.eligible
    {files : List FilePath}
    (finds : FindsFrom storage options (rootsOf storage options) files) :
    file ∈ files ↔
      ∃ root ∈ rootsOf storage options, Eligible storage options root file := by
  rw [finds.mem]
  constructor
  · rintro ⟨root, isRoot, entry, ⟨real, listing, opens, meets⟩, listed⟩
    exact ⟨root, isRoot, entry, ⟨real, listing, opens, meets.free⟩, listed⟩
  · rintro ⟨root, isRoot, entry, meets, listed⟩
    have isOwned : IsRoot storage options root := isRoot
    obtain ⟨owner, isOwner, fromOwner⟩ := meetsFrom_owner isOwned meets
    exact ⟨owner, isOwner, entry, fromOwner, listed⟩

theorem walkLibraryPaths_accepted
    (positive : 1 ≤ options.take)
    (isSafe : options.take ≤ MAX_SAFE_INTEGER)
    (fuel : ℕ) :
    walkLibraryPaths storage options fuel =
      .ok (walkRoots storage options fuel .empty (rootsOf storage options)) := by
  unfold walkLibraryPaths
  rw [if_neg]
  omega

variable {fuel : ℕ}

theorem walkRoots_unique
    {more : ℕ}
    {found : Batches FilePath}
    {roots : List FilePath}
    {first second : Ending}
    (isFirst : walkRoots storage options fuel found roots = some first)
    (isSecond : walkRoots storage options more found roots = some second) :
    first = second := by
  have same := walkRoots_mono isFirst (Nat.le_max_left fuel more)
  rw [walkRoots_mono isSecond (Nat.le_max_right fuel more)] at same
  exact (Option.some.inj same).symm

variable (storage) in
/-- A whole walk ends with every eligible file, or it fails. -/
theorem roots_end
    (positive : 1 ≤ options.take) :
    ∃ fuel ending,
      walkRoots storage options fuel .empty (rootsOf storage options) =
          some ending ∧
        (Walkable storage options ∧ HandsOut storage options ending ∨
          ¬Walkable storage options ∧ ending.failure ≠ none) := by
  have distinct : (rootsOf storage options).Nodup :=
    nodup_foldl_new _ List.nodup_nil
  obtain ⟨fuel, ending, ends, rootsEnd⟩ :=
    roots_walked (fun _ isRoot => isRoot) distinct .empty
  refine ⟨fuel, ending, ends, ?_⟩
  cases rootsEnd with
  | @finds files finds usable isEnding =>
      left
      have flat : ending.batches.flatten = files := by
        rw [isEnding, Batches.flatten_finish, Batches.items_pushAll]
        rfl
      refine ⟨walkable_iff.mpr usable, ⟨?_, ?_, ?_, ?_⟩⟩
      · rw [isEnding]
      · intro file
        rw [flat]
        exact finds.eligible
      · rw [flat]
        exact finds.nodup
      · rw [isEnding]
        exact ((Batches.sized_empty positive).pushAll files).areBatches positive
  | fails member unusable isFailure =>
      right
      refine ⟨?_, isFailure⟩
      intro walkable
      exact unusable (walkable_iff.mp walkable _ member)

theorem Meets.relisted
    {owned : FilePath → Prop}
    {ancestors : List FilePath}
    {folder : FilePath}
    {listing : List DirectoryEntry}
    {entry : DirectoryEntry}
    (meets : Meets storage options owned ancestors folder listing file entry)
    (pathsToCrawl : List PathText) :
    Meets storage { options with pathsToCrawl } owned ancestors folder listing
      file entry := by
  induction meets with
  | here member visible =>
      exact .here member visible
  | inside member enters _ inductionHypothesis =>
      exact .inside member
        ⟨enters.visible, enters.kind, enters.included, enters.free,
          enters.opens, enters.fresh⟩ inductionHypothesis

theorem Eligible.relisted
    (eligible : Eligible storage options root file)
    (pathsToCrawl : List PathText) :
    Eligible storage { options with pathsToCrawl } root file := by
  obtain ⟨entry, ⟨real, listing, opens, meets⟩, listed⟩ := eligible
  exact ⟨entry, ⟨real, listing, opens, meets.relisted pathsToCrawl⟩,
    listed.kind, listed.included, listed.supported, listed.outside⟩

variable {pathsToCrawl : List PathText}

theorem mem_rootsOf_relisted
    (same : ∀ path, path ∈ pathsToCrawl ↔ path ∈ options.pathsToCrawl) :
    root ∈ rootsOf storage { options with pathsToCrawl } ↔
      root ∈ rootsOf storage options := by
  simp only [mem_rootsOf, same]

theorem Walkable.relisted
    (same : ∀ path, path ∈ pathsToCrawl ↔ path ∈ options.pathsToCrawl)
    (walkable : Walkable storage options) :
    Walkable storage { options with pathsToCrawl } := by
  intro root isRoot
  obtain ⟨available, unbroken⟩ :=
    walkable root ((mem_rootsOf_relisted same).mp isRoot)
  refine ⟨available, ?_⟩
  rintro file entry ⟨real, listing, opens, meets⟩
  exact unbroken file entry
    ⟨real, listing, opens, meets.relisted options.pathsToCrawl⟩

theorem eligible_relisted
    (same : ∀ path, path ∈ pathsToCrawl ↔ path ∈ options.pathsToCrawl) :
    (∃ root ∈ rootsOf storage { options with pathsToCrawl },
        Eligible storage { options with pathsToCrawl } root file) ↔
      ∃ root ∈ rootsOf storage options, Eligible storage options root file := by
  constructor
  · rintro ⟨root, isRoot, eligible⟩
    exact ⟨root, (mem_rootsOf_relisted same).mp isRoot,
      eligible.relisted options.pathsToCrawl⟩
  · rintro ⟨root, isRoot, eligible⟩
    exact ⟨root, (mem_rootsOf_relisted same).mpr isRoot,
      eligible.relisted pathsToCrawl⟩

/-- What a walk of the library does. -/
structure WalkLaws
    (storage : LibraryWalkStorage)
    (options : LibraryWalkOptions) : Prop where
  /-- Only a positive safe integer is a batch size. -/
  refuses : options.take < 1 ∨ MAX_SAFE_INTEGER < options.take →
    ∀ fuel, walkLibraryPaths storage options fuel = .error ()
  /-- The walk ends, and more turns would not change how. -/
  terminates : 1 ≤ options.take → options.take ≤ MAX_SAFE_INTEGER →
    ∃ enough ending, ∀ fuel, enough ≤ fuel →
      walkLibraryPaths storage options fuel = .ok (some ending)
  /-- Every eligible file is handed out once, in full batches but the last. -/
  handsOut : Walkable storage options → ∀ fuel ending,
    walkLibraryPaths storage options fuel = .ok (some ending) →
      HandsOut storage options ending
  /-- A root or a link that cannot be followed is not passed over. -/
  fails : ¬Walkable storage options → ∀ fuel ending,
    walkLibraryPaths storage options fuel = .ok (some ending) →
      ending.failure ≠ none
  /-- Roots in another order, or listed more often, give the same files. -/
  order : Walkable storage options → ∀ pathsToCrawl,
    (∀ path, path ∈ pathsToCrawl ↔ path ∈ options.pathsToCrawl) →
      ∀ fuel ending more other,
        walkLibraryPaths storage options fuel = .ok (some ending) →
        walkLibraryPaths storage { options with pathsToCrawl } more =
          .ok (some other) →
        other.failure = none ∧
          ∀ file, file ∈ other.batches.flatten ↔
            file ∈ ending.batches.flatten

variable {ending : Ending}

theorem accepted_of_ends
    (ends : walkLibraryPaths storage options fuel = .ok (some ending)) :
    1 ≤ options.take ∧
      walkRoots storage options fuel .empty (rootsOf storage options) =
        some ending := by
  unfold walkLibraryPaths at ends
  split at ends
  · cases ends
  · rename_i accepted
    refine ⟨by omega, ?_⟩
    injection ends

theorem ends_cases
    (ends : walkLibraryPaths storage options fuel = .ok (some ending)) :
    Walkable storage options ∧ HandsOut storage options ending ∨
      ¬Walkable storage options ∧ ending.failure ≠ none := by
  obtain ⟨positive, rootsEnd⟩ := accepted_of_ends ends
  obtain ⟨enough, other, otherEnds, cases⟩ :=
    roots_end storage positive
  rw [walkRoots_unique rootsEnd otherEnds]
  exact cases

theorem handsOut_of_ends
    (walkable : Walkable storage options)
    (ends : walkLibraryPaths storage options fuel = .ok (some ending)) :
    HandsOut storage options ending := by
  rcases ends_cases ends with ⟨_, handsOut⟩ | ⟨notWalkable, _⟩
  · exact handsOut
  · exact absurd walkable notWalkable

/-- A walk of a library keeps its laws. -/
theorem libraryWalkLaws
    (storage : LibraryWalkStorage)
    (options : LibraryWalkOptions) :
    WalkLaws storage options where
  refuses := by
    intro isRefused fuel
    unfold walkLibraryPaths
    rw [if_pos isRefused]
  terminates := by
    intro positive isSafe
    obtain ⟨enough, ending, ends, _⟩ := roots_end storage positive
    refine ⟨enough, ending, ?_⟩
    intro fuel isEnough
    rw [walkLibraryPaths_accepted positive isSafe,
      walkRoots_mono ends isEnough]
  handsOut := by
    intro walkable fuel ending ends
    exact handsOut_of_ends walkable ends
  fails := by
    intro notWalkable fuel ending ends
    rcases ends_cases ends with ⟨walkable, _⟩ | ⟨_, fails⟩
    · exact absurd walkable notWalkable
    · exact fails
  order := by
    intro walkable pathsToCrawl same fuel ending more other ends otherEnds
    have here := handsOut_of_ends walkable ends
    have there := handsOut_of_ends (walkable.relisted same) otherEnds
    refine ⟨there.succeeds, ?_⟩
    intro file
    rw [there.eligible, here.eligible, eligible_relisted same]

/-- The name of a folder of media. -/
def dataName : FileName where
  text := "data"
  valid := by decide

/-- The name of a link that leads through a picture. -/
def linkName : FileName where
  text := "b"
  valid := by decide

/-- The name of a picture. -/
def pictureName : FileName where
  text := "a.jpg"
  valid := by decide

/-- A name that is sought below the picture. -/
def innerName : FileName where
  text := "x"
  valid := by decide

/-- A folder with a picture, and a link that leads through the picture. -/
def brokenTree : FileTree :=
  .node [
    (linkName, .leaf (.link {
      absolute := false
      parts := [.name pictureName, .name innerName] })),
    (pictureName, .leaf .file)]

theorem brokenTree_wellFormed :
    brokenTree.WellFormed := by
  refine .node (by decide) ?_
  intro entry member
  rcases List.mem_pair.mp member with rfl | rfl
  · exact .leaf _
  · exact .leaf _

/-- A storage with that folder, where nothing is ignored. -/
def brokenStorage : LibraryWalkStorage where
  currentDirectory := []
  mediaLocation := [dataName]
  globs := {
    negative := fun _ => []
    isDynamicPattern := fun _ => true
    matcher := fun _ _ => false
    supported := fun _ text => ".jpg".toList.isSuffixOf text.toList }
  files := brokenTree
  wellFormed := brokenTree_wellFormed

/-- The whole folder is crawled. -/
def brokenOptions : LibraryWalkOptions where
  pathsToCrawl := [{ absolute := true, parts := [] }]
  includeHidden := false
  exclusionPatterns := []
  take := 10

theorem opens_brokenTree :
    Opens brokenStorage [] [] [
      { name := linkName, kind := .link },
      { name := pictureName, kind := .file }] where
  leads := by
    unfold realpath
    rw [List.map_nil, follow]
  outside := rfl
  isOpen := by
    unfold opendir realpath
    rw [List.map_nil, follow]
    rfl

theorem brokenLink_notDirectory :
    entryKind brokenStorage [linkName]
        { name := linkName, kind := .link } =
      .error .notDirectory := by
  have throughPicture : follow brokenTree 39 []
      [.name pictureName, .name innerName] = .error .notDirectory := by
    rw [follow]
    rfl
  have throughLink : realpath brokenTree [linkName] =
      .error .notDirectory := by
    unfold realpath maxLinks
    rw [List.map_singleton, follow]
    exact throughPicture
  have isStat : stat brokenStorage.files [linkName] = .error .notDirectory := by
    unfold stat
    exact throughLink ▸ rfl
  unfold entryKind
  rw [if_pos rfl, isStat]

/-- A link through a picture keeps the picture itself from being found. -/
theorem broken_link_stops :
    (∃ root ∈ rootsOf brokenStorage brokenOptions,
      Eligible brokenStorage brokenOptions root [pictureName]) ∧
      ∀ fuel ending,
        walkLibraryPaths brokenStorage brokenOptions fuel =
            .ok (some ending) →
          ending.batches.flatten = [] := by
  constructor
  · refine ⟨[], List.mem_singleton.mpr rfl,
      { name := pictureName, kind := .file }, ⟨[], _, opens_brokenTree, ?_⟩,
      ⟨rfl, rfl, by decide, nofun⟩⟩
    exact .here (List.mem_pair.mpr (.inr rfl)) (.inr (by decide))
  · intro fuel ending ends
    have isVisible : IsVisible brokenOptions
        { name := linkName, kind := .link } := .inr (by decide)
    have fails : Walk.turn brokenStorage brokenOptions
        (reading [] [[]] [] [] [
          { name := linkName, kind := .link },
          { name := pictureName, kind := .file }] .empty) =
        .error .notDirectory := by
      rw [turn_reading, visit_visible _ isVisible, List.nil_append,
        brokenLink_notDirectory]
    have stops : walkRoots brokenStorage brokenOptions 1 .empty [[]] =
        some { batches := [], failure := some .notDirectory } := by
      unfold walkRoots
      dsimp only
      rw [open_root .empty opens_brokenTree]
      dsimp only
      unfold walkFolders
      rw [fails]
      rfl
    obtain ⟨_, rootsEnd⟩ := accepted_of_ends ends
    rw [walkRoots_unique rootsEnd stops]
    rfl

end Frameleaf.LibraryWalk
