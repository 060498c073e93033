import Mathlib.Data.Finset.Card
import Mathlib.Logic.Relation
import Frameleaf.LibraryWalk.Visits

namespace Frameleaf.LibraryWalk

open Batching FileTrees PathTrees

/-!
# What the turns of the walk do to one folder

An open folder is read to its end in finitely many turns, since the folders that
are open at one time are different.  Meanwhile exactly the files that are met in
it are found, each once; only a broken link ends the walk before.
-/

variable (storage : LibraryWalkStorage) (options : LibraryWalkOptions)

/-- Exactly the files that are met are found, each once. -/
structure Finds
    (ancestors : List FilePath)
    (folder : FilePath)
    (listing : List DirectoryEntry)
    (files : List FilePath) : Prop where
  mem : ∀ file, file ∈ files ↔ ∃ entry,
    Meets storage options (IsRoot storage options) ancestors folder listing
      file entry ∧ Listed storage options file entry
  nodup : files.Nodup
  whole : ∀ file entry, Meets storage options (IsRoot storage options)
    ancestors folder listing file entry → ¬Broken storage file entry

/-- A broken link is met. -/
def MeetsBroken
    (ancestors : List FilePath)
    (folder : FilePath)
    (listing : List DirectoryEntry) : Prop :=
  ∃ file entry, Meets storage options (IsRoot storage options) ancestors folder
    listing file entry ∧ Broken storage file entry

/-- Turns of the loop. -/
def Turns : Walk → Walk → Prop :=
  Relation.ReflTransGen fun before after =>
    before.stack ≠ [] ∧ before.turn storage options = .ok after

/-- Turns of the loop that end in a failure. -/
def Stops
    (before : Walk) : Prop :=
  ∃ last, Turns storage options before last ∧ last.stack ≠ [] ∧
    last.turn storage options = .error .notDirectory

/-- The walk while a folder is read. -/
def reading
    (stack : List Frame)
    (ancestors : List FilePath)
    (folder real : FilePath)
    (directory : List DirectoryEntry)
    (found : Batches FilePath) : Walk where
  stack := { folder, real, directory } :: stack
  ancestors := ancestors
  found := found

/-- Reading entries finds what is met in them, or stops at a broken link. -/
def Reads
    (stack : List Frame)
    (ancestors : List FilePath)
    (folder real : FilePath)
    (listing : List DirectoryEntry) : Prop :=
  ∀ rest found,
    (∃ files, Finds storage options ancestors folder listing files ∧
        Turns storage options
          (reading stack ancestors folder real (listing ++ rest) found)
          (reading stack ancestors folder real rest
            (files.foldl (Batches.push options.take) found))) ∨
      MeetsBroken storage options ancestors folder listing ∧
        Stops storage options
          (reading stack ancestors folder real (listing ++ rest) found)

variable {storage options}
variable {stack : List Frame} {ancestors : List FilePath}
variable {folder real inner : FilePath}

theorem turn_reading
    (entry : DirectoryEntry)
    (rest : List DirectoryEntry)
    (found : Batches FilePath) :
    (reading stack ancestors folder real (entry :: rest) found).turn storage
        options =
      (reading stack ancestors folder real rest found).visit storage options
        folder entry :=
  rfl

variable {entry met : DirectoryEntry} {listing : List DirectoryEntry}
  {file : FilePath}

/-- What is met among entries is met in the first or in the others. -/
theorem meets_cons_iff
    {owned : FilePath → Prop} :
    Meets storage options owned ancestors folder (entry :: listing) file met ↔
      Meets storage options owned ancestors folder [entry] file met ∨
        Meets storage options owned ancestors folder listing file met := by
  constructor
  · intro meets
    cases meets with
    | here member visible =>
        rcases List.mem_cons.mp member with rfl | isLater
        · exact .inl (.here List.mem_cons_self visible)
        · exact .inr (.here isLater visible)
    | inside member enters below =>
        rcases List.mem_cons.mp member with rfl | isLater
        · exact .inl (.inside List.mem_cons_self enters below)
        · exact .inr (.inside isLater enters below)
  · rintro (meets | meets)
    · cases meets with
      | here member visible =>
          rw [List.mem_singleton] at member
          subst member
          exact .here List.mem_cons_self visible
      | inside member enters below =>
          rw [List.mem_singleton] at member
          subst member
          exact .inside List.mem_cons_self enters below
    · cases meets with
      | here member visible =>
          exact .here (List.mem_cons_of_mem _ member) visible
      | inside member enters below =>
          exact .inside (List.mem_cons_of_mem _ member) enters below

theorem Meets.named
    {owned : FilePath → Prop}
    (meets : Meets storage options owned ancestors folder listing file met) :
    ∃ entry ∈ listing, ∃ rest, file = folder ++ entry.name :: rest := by
  cases meets with
  | here member visible =>
      exact ⟨_, member, [], rfl⟩
  | @inside _ _ _ _ _ entry _ _ member enters below =>
      obtain ⟨⟨rest, _, isFile⟩, _⟩ := below.apart
      refine ⟨entry, member, rest, ?_⟩
      rw [isFile, List.append_assoc]
      rfl

theorem reads_nil :
    Reads storage options stack ancestors folder real [] := by
  intro rest found
  left
  have nothing : ∀ {file entry}, ¬Meets storage options
      (IsRoot storage options) ancestors folder [] file entry := by
    intro file entry meets
    obtain ⟨_, member, _⟩ := meets.named
    cases member
  refine ⟨[], ⟨?_, List.nodup_nil, ?_⟩, .refl⟩
  · intro file
    constructor
    · intro member
      cases member
    · rintro ⟨entry, meets, _⟩
      exact absurd meets nothing
  · intro file entry meets
    exact absurd meets nothing

/-- What is found in the first entry and in the others is found together. -/
theorem Finds.cons
    {first others : List FilePath}
    (findsFirst : Finds storage options ancestors folder [entry] first)
    (findsOthers : Finds storage options ancestors folder listing others)
    (isNew : entry.name ∉ listing.map DirectoryEntry.name) :
    Finds storage options ancestors folder (entry :: listing)
      (first ++ others) where
  mem := by
    intro file
    rw [List.mem_append, findsFirst.mem, findsOthers.mem]
    constructor
    · rintro (⟨met, meets, listed⟩ | ⟨met, meets, listed⟩)
      · exact ⟨met, meets_cons_iff.mpr (.inl meets), listed⟩
      · exact ⟨met, meets_cons_iff.mpr (.inr meets), listed⟩
    · rintro ⟨met, meets, listed⟩
      rcases meets_cons_iff.mp meets with isFirst | isOther
      · exact .inl ⟨met, isFirst, listed⟩
      · exact .inr ⟨met, isOther, listed⟩
  nodup := by
    apply List.nodup_append.mpr
    refine ⟨findsFirst.nodup, findsOthers.nodup, ?_⟩
    rintro file inFirst _ inOthers rfl
    obtain ⟨_, firstMeets, _⟩ := (findsFirst.mem file).mp inFirst
    obtain ⟨_, otherMeets, _⟩ := (findsOthers.mem file).mp inOthers
    obtain ⟨one, isOne, oneRest, isFile⟩ := firstMeets.named
    obtain ⟨other, isOther, otherRest, isOtherFile⟩ := otherMeets.named
    rw [isFile, List.append_cancel_left_eq, List.cons.injEq] at isOtherFile
    rw [List.mem_singleton] at isOne
    subst isOne
    apply isNew
    rw [isOtherFile.1]
    exact List.mem_map_of_mem isOther
  whole := by
    intro file met meets
    rcases meets_cons_iff.mp meets with isFirst | isOther
    · exact findsFirst.whole file met isFirst
    · exact findsOthers.whole file met isOther

theorem Reads.cons
    (readsFirst : Reads storage options stack ancestors folder real [entry])
    (readsOthers : Reads storage options stack ancestors folder real listing)
    (isNew : entry.name ∉ listing.map DirectoryEntry.name) :
    Reads storage options stack ancestors folder real (entry :: listing) := by
  intro rest found
  rcases readsFirst (listing ++ rest) found with
    ⟨first, findsFirst, turns⟩ | ⟨⟨file, met, meets, broken⟩, stops⟩
  · rcases readsOthers rest (first.foldl (Batches.push options.take) found) with
      ⟨others, findsOthers, turnsOn⟩ | ⟨⟨file, met, meets, broken⟩, last,
        turnsOn, isOpen, fails⟩
    · left
      refine ⟨first ++ others, findsFirst.cons findsOthers isNew, ?_⟩
      rw [List.foldl_append]
      exact Relation.ReflTransGen.trans turns turnsOn
    · right
      exact ⟨⟨file, met, meets_cons_iff.mpr (.inr meets), broken⟩, last,
        Relation.ReflTransGen.trans turns turnsOn, isOpen, fails⟩
  · right
    exact ⟨⟨file, met, meets_cons_iff.mpr (.inl meets), broken⟩, stops⟩

theorem reads_of_forall
    (distinct : (listing.map DirectoryEntry.name).Nodup)
    (each : ∀ entry ∈ listing,
      Reads storage options stack ancestors folder real [entry]) :
    Reads storage options stack ancestors folder real listing := by
  induction listing with
  | nil =>
      exact reads_nil
  | cons entry listing inductionHypothesis =>
      rw [List.map_cons, List.nodup_cons] at distinct
      apply (each entry List.mem_cons_self).cons _ distinct.1
      exact inductionHypothesis distinct.2 fun other member =>
        each other (List.mem_cons_of_mem _ member)

theorem reads_passed
    (passes : ∀ rest found,
      (reading stack ancestors folder real rest found).visit storage options
        folder entry = .ok (reading stack ancestors folder real rest found))
    (nothing : ∀ file met, Meets storage options (IsRoot storage options)
      ancestors folder [entry] file met →
        ¬Listed storage options file met ∧ ¬Broken storage file met) :
    Reads storage options stack ancestors folder real [entry] := by
  intro rest found
  left
  refine ⟨[], ⟨?_, List.nodup_nil, ?_⟩, .single ⟨nofun, ?_⟩⟩
  · intro file
    constructor
    · intro member
      cases member
    · rintro ⟨met, meets, listed⟩
      exact absurd listed (nothing file met meets).1
  · intro file met meets
    exact (nothing file met meets).2
  · exact (turn_reading entry rest found).trans (passes rest found)

theorem meets_singleton
    (notEntered : ∀ real inner, ¬Enters storage options
      (IsRoot storage options) ancestors folder entry real inner)
    (meets : Meets storage options (IsRoot storage options) ancestors folder
      [entry] file met) :
    file = folder ++ [entry.name] ∧ met = entry ∧ IsVisible options entry := by
  cases meets with
  | here member visible =>
      rw [List.mem_singleton] at member
      subst member
      exact ⟨rfl, rfl, visible⟩
  | inside member enters below =>
      rw [List.mem_singleton] at member
      subst member
      exact absurd enters (notEntered _ _)

/-- A file of the library is read. -/
theorem reads_listed
    (visible : IsVisible options entry)
    (listed : Listed storage options (folder ++ [entry.name]) entry) :
    Reads storage options stack ancestors folder real [entry] := by
  have notEntered : ∀ real inner, ¬Enters storage options
      (IsRoot storage options) ancestors folder entry real inner := by
    intro real inner enters
    have isKind := enters.kind
    rw [listed.kind] at isKind
    cases isKind
  intro rest found
  left
  refine ⟨[folder ++ [entry.name]], ⟨?_, List.nodup_singleton _, ?_⟩,
    .single ⟨nofun, ?_⟩⟩
  · intro file
    rw [List.mem_singleton]
    constructor
    · rintro rfl
      exact ⟨entry, .here List.mem_cons_self visible, listed⟩
    · rintro ⟨met, meets, _⟩
      exact (meets_singleton notEntered meets).1
  · intro file met meets broken
    obtain ⟨rfl, rfl, _⟩ := meets_singleton notEntered meets
    unfold Broken at broken
    rw [listed.kind] at broken
    cases broken
  · rw [List.singleton_append, turn_reading, visit_visible _ visible,
      listed.kind]
    exact examine_listed _ listed

theorem reads_broken
    (visible : IsVisible options entry)
    (broken : Broken storage (folder ++ [entry.name]) entry) :
    Reads storage options stack ancestors folder real [entry] := by
  intro rest found
  right
  refine ⟨⟨_, entry, .here List.mem_cons_self visible, broken⟩, _, .refl,
    nofun, ?_⟩
  rw [List.singleton_append, turn_reading, visit_visible _ visible, broken]

/-- A folder that is entered is read to its end. -/
theorem reads_entered
    (enters : Enters storage options (IsRoot storage options) ancestors folder
      entry inner listing)
    (readsInner : ∀ stack, Reads storage options stack (inner :: ancestors)
      (folder ++ [entry.name]) inner listing) :
    Reads storage options stack ancestors folder real [entry] := by
  have below : ∀ {file met}, Meets storage options (IsRoot storage options)
      (inner :: ancestors) (folder ++ [entry.name]) listing file met →
        Meets storage options (IsRoot storage options) ancestors folder
          [entry] file met :=
    fun meets => .inside List.mem_cons_self enters meets
  have above : ∀ {file met}, Meets storage options (IsRoot storage options)
      ancestors folder [entry] file met →
        file = folder ++ [entry.name] ∧ met = entry ∨
          Meets storage options (IsRoot storage options) (inner :: ancestors)
            (folder ++ [entry.name]) listing file met := by
    intro file met meets
    cases meets with
    | here member visible =>
        rw [List.mem_singleton] at member
        subst member
        exact .inl ⟨rfl, rfl⟩
    | inside member others isBelow =>
        rw [List.mem_singleton] at member
        subst member
        have samePlace := others.opens.leads
        have sameListing := others.opens.isOpen
        rw [enters.opens.leads] at samePlace
        rw [enters.opens.isOpen] at sameListing
        cases samePlace
        cases sameListing
        exact .inr isBelow
  intro rest found
  have entered : Turns storage options
      (reading stack ancestors folder real ([entry] ++ rest) found)
      (reading ({ folder, real, directory := rest } :: stack)
        (inner :: ancestors) (folder ++ [entry.name]) inner
        (listing ++ []) found) := by
    refine .single ⟨nofun, ?_⟩
    rw [List.singleton_append, turn_reading, visit_visible _ enters.visible,
      enters.kind, List.append_nil]
    exact examine_enters _ enters
  rcases readsInner ({ folder, real, directory := rest } :: stack) [] found with
    ⟨files, finds, turns⟩ | ⟨⟨file, met, meets, broken⟩, last, turns, isOpen,
      fails⟩
  · left
    refine ⟨files, ⟨?_, finds.nodup, ?_⟩, ?_⟩
    · intro file
      rw [finds.mem]
      constructor
      · rintro ⟨met, meets, listed⟩
        exact ⟨met, below meets, listed⟩
      · rintro ⟨met, meets, listed⟩
        rcases above meets with ⟨rfl, rfl⟩ | isBelow
        · have isKind := listed.kind
          rw [enters.kind] at isKind
          cases isKind
        · exact ⟨met, isBelow, listed⟩
    · intro file met meets broken
      rcases above meets with ⟨rfl, rfl⟩ | isBelow
      · unfold Broken at broken
        rw [enters.kind] at broken
        cases broken
      · exact finds.whole file met isBelow broken
    · refine (entered.trans turns).tail ⟨nofun, ?_⟩
      unfold Walk.turn reading
      dsimp only
      rw [List.erase_cons_head]
  · right
    exact ⟨⟨file, met, below meets, broken⟩, last, entered.trans turns, isOpen,
      fails⟩

/-- An entry that is not entered is read. -/
theorem reads_entry
    (isOpen : opendir storage.files folder = .ok listing)
    (member : entry ∈ listing)
    (notEntered : ∀ real inner, ¬Enters storage options
      (IsRoot storage options) ancestors folder entry real inner) :
    Reads storage options stack ancestors folder real [entry] := by
  by_cases visible : IsVisible options entry
  · cases isKind : entryKind storage (folder ++ [entry.name]) entry with
    | error failure =>
        have isBroken := entryKind_error isKind
        subst isBroken
        exact reads_broken visible isKind
    | ok found =>
        by_cases listed : Listed storage options (folder ++ [entry.name]) entry
        · exact reads_listed visible listed
        · apply reads_passed
          · intro rest batches
            rw [visit_visible _ visible, isKind]
            cases found with
            | none =>
                rfl
            | some kind =>
                cases kind with
                | file =>
                    exact examine_file _ isKind listed
                | directory =>
                    exact examine_folder _ isOpen member visible
                      isKind notEntered
                | link =>
                    exact examine_other _ nofun nofun
                | other =>
                    exact examine_other _ nofun nofun
          · intro file met meets
            obtain ⟨rfl, rfl, _⟩ := meets_singleton notEntered meets
            refine ⟨listed, ?_⟩
            intro broken
            unfold Broken at broken
            rw [isKind] at broken
            cases broken
  · apply reads_passed
    · intro rest batches
      exact visit_hidden _ visible
    · intro file met meets
      obtain ⟨_, rfl, isVisible⟩ := meets_singleton notEntered meets
      exact absurd isVisible visible

theorem Opens.mem_directories
    (opens : Opens storage folder inner listing) :
    inner ∈ directories storage.files := by
  obtain ⟨place, entries, leads, isNode, _⟩ := opendir_eq_ok.mp opens.isOpen
  rw [opens.leads] at leads
  cases leads
  exact FileTrees.mem_directories isNode

/-- An open folder is read to its end, since there are finitely many folders. -/
theorem reads_folder
    (isOpen : opendir storage.files folder = .ok listing) :
    Reads storage options stack ancestors folder real listing := by
  -- The folders that are not open yet are fewer in each folder that is entered.
  induction closed : ((directories storage.files).toFinset \
      ancestors.toFinset).card using Nat.strong_induction_on
    generalizing stack ancestors folder real listing with
  | _ closed inductionHypothesis =>
      apply reads_of_forall (nodup_opendir storage.wellFormed isOpen)
      intro entry member
      by_cases isEntered : ∃ inner content, Enters storage options
          (IsRoot storage options) ancestors folder entry inner content
      · obtain ⟨inner, content, enters⟩ := isEntered
        apply reads_entered enters
        intro stack
        apply inductionHypothesis _ _ enters.opens.isOpen rfl
        subst closed
        apply Finset.card_lt_card
        have fewer : (directories storage.files).toFinset \
            (inner :: ancestors).toFinset ⊆
              (directories storage.files).toFinset \ ancestors.toFinset := by
          apply Finset.sdiff_subset_sdiff le_rfl
          rw [List.toFinset_cons]
          exact Finset.subset_insert _ _
        apply (Finset.ssubset_iff_of_subset fewer).mpr
        refine ⟨inner, ?_, ?_⟩
        · rw [Finset.mem_sdiff, List.mem_toFinset, List.mem_toFinset]
          exact ⟨enters.opens.mem_directories, enters.fresh⟩
        · rw [Finset.mem_sdiff, List.mem_toFinset, List.mem_toFinset]
          rintro ⟨_, isFresh⟩
          exact isFresh List.mem_cons_self
      · push Not at isEntered
        exact reads_entry isOpen member isEntered

end Frameleaf.LibraryWalk
