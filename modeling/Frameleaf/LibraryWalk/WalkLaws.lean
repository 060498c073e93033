import Frameleaf.LibraryWalk.Turns

namespace Frameleaf.LibraryWalk

open Batching FileTrees PathTrees

/-!
# The walk of a library

The roots are walked one after the other.  The walk ends, and unless a root is
unavailable or a link is broken it hands out every eligible file once.
-/

variable {storage : LibraryWalkStorage} {options : LibraryWalkOptions}

theorem walkFolders_mono
    {fuel more : ℕ}
    {walk : Walk}
    {result : Except Ending Walk}
    (ends : walkFolders storage options fuel walk = some result)
    (enough : fuel ≤ more) :
    walkFolders storage options more walk = some result := by
  induction fuel generalizing more walk with
  | zero =>
      cases ends
  | succ fuel inductionHypothesis =>
      cases more with
      | zero =>
          cases enough
      | succ more =>
          unfold walkFolders at ends ⊢
          split at ends
          · exact ends
          · split at ends
            · exact inductionHypothesis ends (Nat.le_of_succ_le_succ enough)
            · exact ends

variable {roots : List FilePath}

/-- More fuel does not change how roots are walked. -/
theorem walkRoots_mono
    {fuel more : ℕ}
    {found : Batches FilePath}
    {ending : Ending}
    (ends : walkRoots storage options fuel found roots = some ending)
    (enough : fuel ≤ more) :
    walkRoots storage options more found roots = some ending := by
  induction roots generalizing found with
  | nil =>
      exact ends
  | cons root roots inductionHypothesis =>
      unfold walkRoots at ends ⊢
      dsimp only at ends ⊢
      cases isOpened : Walk.open storage
          { stack := [], ancestors := [], found } root with
      | error failure =>
          rw [isOpened] at ends
          exact ends
      | ok walk =>
          rw [isOpened] at ends
          dsimp only at ends ⊢
          cases isWalked : walkFolders storage options fuel walk with
          | none =>
              rw [isWalked] at ends
              cases ends
          | some result =>
              rw [isWalked] at ends
              rw [walkFolders_mono isWalked enough]
              cases result with
              | error ending =>
                  exact ends
              | ok next =>
                  exact inductionHypothesis ends

theorem walkFolders_of_turns
    {before after : Walk}
    (turns : Turns storage options before after)
    (isEnd : after.stack = []) :
    ∃ fuel, walkFolders storage options fuel before = some (.ok after) := by
  induction turns using Relation.ReflTransGen.head_induction_on with
  | refl =>
      refine ⟨1, ?_⟩
      unfold walkFolders
      rw [isEnd]
  | @head before next step _ inductionHypothesis =>
      obtain ⟨fuel, ends⟩ := inductionHypothesis
      refine ⟨fuel + 1, ?_⟩
      obtain ⟨isOpen, isNext⟩ := step
      unfold walkFolders
      split
      · rename_i isEmpty
        exact absurd isEmpty isOpen
      · rw [isNext]
        exact ends

theorem walkFolders_of_stops
    {before : Walk}
    (stops : Stops storage options before) :
    ∃ fuel ending, walkFolders storage options fuel before =
      some (.error ending) ∧ ending.failure = some .notDirectory := by
  obtain ⟨last, turns, isOpen, fails⟩ := stops
  induction turns using Relation.ReflTransGen.head_induction_on with
  | refl =>
      refine ⟨1, { batches := last.found.full, failure := some .notDirectory },
        ?_, rfl⟩
      unfold walkFolders
      split
      · rename_i isEmpty
        exact absurd isEmpty isOpen
      · rw [fails]
  | @head before next step _ inductionHypothesis =>
      obtain ⟨fuel, ending, ends, isFailure⟩ := inductionHypothesis
      refine ⟨fuel + 1, ending, ?_, isFailure⟩
      obtain ⟨isOpenHere, isNext⟩ := step
      unfold walkFolders
      split
      · rename_i isEmpty
        exact absurd isEmpty isOpenHere
      · rw [isNext]
        exact ends

variable (storage options)

/-- A root that can be opened, or that is media storage. -/
def Available
    (root : FilePath) : Prop :=
  ∃ real, realpath storage.files root = .ok real ∧
    (isImmichPath storage real = true ∨
      ∃ listing, opendir storage.files root = .ok listing)

/-- No link that is met from a root is broken. -/
def Unbroken
    (root : FilePath) : Prop :=
  ∀ file entry, MeetsFrom storage options (IsRoot storage options) root file
    entry → ¬Broken storage file entry

/-- Exactly the files that a root owns are found, each once. -/
structure FindsFrom
    (roots files : List FilePath) : Prop where
  mem : ∀ file, file ∈ files ↔ ∃ root ∈ roots, ∃ entry,
    MeetsFrom storage options (IsRoot storage options) root file entry ∧
      Listed storage options file entry
  nodup : files.Nodup

variable {storage options}

variable {root real file : FilePath}

theorem open_immich
    (walk : Walk)
    (leads : realpath storage.files root = .ok real)
    (isImmich : isImmichPath storage real = true) :
    walk.open storage root = .ok walk := by
  unfold Walk.open
  rw [leads, Outcome.ok_bind, if_pos (.inr isImmich)]
  rfl

variable {listing : List DirectoryEntry}

theorem open_root
    (found : Batches FilePath)
    (opens : Opens storage root real listing) :
    Walk.open storage { stack := [], ancestors := [], found } root =
      .ok (reading [] [real] root real listing found) := by
  have goesOn : ¬(real ∈ ([] : List FilePath) ∨
      isImmichPath storage real = true) := by
    rw [opens.outside]
    simp
  unfold Walk.open
  rw [opens.leads, Outcome.ok_bind, if_neg goesOn, opens.isOpen]
  rfl

theorem meetsFrom_iff
    {owned : FilePath → Prop}
    (opens : Opens storage root real listing)
    {entry : DirectoryEntry} :
    MeetsFrom storage options owned root file entry ↔
      Meets storage options owned [real] root listing file entry := by
  constructor
  · rintro ⟨otherReal, otherListing, others, meets⟩
    have samePlace := others.leads
    have sameListing := others.isOpen
    rw [opens.leads] at samePlace
    rw [opens.isOpen] at sameListing
    cases samePlace
    cases sameListing
    exact meets
  · intro meets
    exact ⟨real, listing, opens, meets⟩

theorem not_meetsFrom_immich
    {owned : FilePath → Prop}
    {entry : DirectoryEntry}
    (leads : realpath storage.files root = .ok real)
    (isImmich : isImmichPath storage real = true) :
    ¬MeetsFrom storage options owned root file entry := by
  rintro ⟨other, _, opens, _⟩
  have outside := opens.outside
  have samePlace := opens.leads
  rw [leads] at samePlace
  cases samePlace
  rw [isImmich] at outside
  cases outside

/-- How walking one root ends. -/
inductive RootEnds
    (storage : LibraryWalkStorage)
    (options : LibraryWalkOptions)
    (root : FilePath)
    (found : Batches FilePath)
    (walk : Walk) : Prop
  | finds
      {files : List FilePath}
      {fuel : ℕ}
      {next : Walk}
      (finds : FindsFrom storage options [root] files)
      (unbroken : Unbroken storage options root)
      (ends : walkFolders storage options fuel walk = some (.ok next))
      (hasFound : next.found = files.foldl (Batches.push options.take) found) :
      RootEnds storage options root found walk
  | fails
      {fuel : ℕ}
      {ending : Ending}
      (broken : ¬Unbroken storage options root)
      (ends : walkFolders storage options fuel walk = some (.error ending))
      (isFailure : ending.failure = some .notDirectory) :
      RootEnds storage options root found walk

/-- A root that is read finds its files or stops at a broken link. -/
theorem rootEnds_of_reads
    (opens : Opens storage root real listing)
    (found : Batches FilePath)
    (reads : Reads storage options [] [real] root real listing) :
    RootEnds storage options root found
      (reading [] [real] root real listing found) := by
  have fromRoot := reads [] found
  rw [List.append_nil] at fromRoot
  rcases fromRoot with ⟨files, finds, turns⟩ | ⟨⟨file, entry, meets, broken⟩,
    stops⟩
  · have closed : Turns storage options
        (reading [] [real] root real listing found)
        { stack := []
          ancestors := []
          found := files.foldl (Batches.push options.take) found } := by
      refine Relation.ReflTransGen.tail turns ⟨nofun, ?_⟩
      unfold Walk.turn reading
      dsimp only
      rw [List.erase_cons_head]
    obtain ⟨fuel, ends⟩ := walkFolders_of_turns closed rfl
    refine .finds ⟨?_, finds.nodup⟩ ?_ ends rfl
    · intro file
      simp only [List.mem_singleton, exists_eq_left]
      rw [finds.mem]
      simp only [meetsFrom_iff opens]
    · intro file entry meets
      exact finds.whole file entry ((meetsFrom_iff opens).mp meets)
  · obtain ⟨fuel, ending, ends, isFailure⟩ := walkFolders_of_stops stops
    refine .fails ?_ ends isFailure
    intro unbroken
    exact unbroken file entry ((meetsFrom_iff opens).mpr meets) broken

/-- A root is walked to its end, or a broken link ends the walk. -/
theorem root_walked
    (available : Available storage root)
    (found : Batches FilePath) :
    ∃ walk, Walk.open storage { stack := [], ancestors := [], found } root =
        .ok walk ∧ RootEnds storage options root found walk := by
  obtain ⟨real, leads, isUsable⟩ := available
  cases isImmich : isImmichPath storage real with
  | true =>
      have ends : walkFolders storage options 1
          { stack := [], ancestors := [], found } = some (.ok
            { stack := [], ancestors := [], found }) := rfl
      refine ⟨_, open_immich _ leads isImmich, .finds ⟨?_, List.nodup_nil⟩ ?_
        ends rfl⟩
      · intro file
        constructor
        · intro member
          cases member
        · rintro ⟨other, member, entry, meets, _⟩
          rw [List.mem_singleton] at member
          subst member
          exact absurd meets (not_meetsFrom_immich leads isImmich)
      · intro file entry meets
        exact absurd meets (not_meetsFrom_immich leads isImmich)
  | false =>
      rw [isImmich] at isUsable
      obtain ⟨listing, isOpen⟩ := isUsable.resolve_left nofun
      have opens : Opens storage root real listing := ⟨leads, isImmich, isOpen⟩
      exact ⟨_, open_root found opens,
        rootEnds_of_reads opens found (reads_folder isOpen)⟩

theorem open_unavailable
    (found : Batches FilePath)
    (unavailable : ¬Available storage root) :
    ∃ failure, Walk.open storage { stack := [], ancestors := [], found } root =
      .error failure := by
  cases isOpened : Walk.open storage
      { stack := [], ancestors := [], found } root with
  | error failure =>
      exact ⟨failure, rfl⟩
  | ok walk =>
      refine absurd ?_ unavailable
      unfold Walk.open at isOpened
      cases leads : realpath storage.files root with
      | error failure =>
          rw [leads] at isOpened
          cases isOpened
      | ok real =>
          rw [leads, Outcome.ok_bind] at isOpened
          refine ⟨real, leads, ?_⟩
          split at isOpened
          · rename_i isKept
            exact .inl (isKept.resolve_left List.not_mem_nil)
          · obtain ⟨listing, isOpen, _⟩ := Outcome.bind_eq_ok.mp isOpened
            exact .inr ⟨listing, isOpen⟩

/-- How walking some roots ends. -/
inductive RootsEnd
    (storage : LibraryWalkStorage)
    (options : LibraryWalkOptions)
    (roots : List FilePath)
    (found : Batches FilePath)
    (ending : Ending) : Prop
  | finds
      {files : List FilePath}
      (finds : FindsFrom storage options roots files)
      (usable : ∀ root ∈ roots, Available storage root ∧
        Unbroken storage options root)
      (isEnding : ending = {
        batches := (files.foldl (Batches.push options.take) found).finish
        failure := none })
  | fails
      {root : FilePath}
      (member : root ∈ roots)
      (unusable : ¬(Available storage root ∧ Unbroken storage options root))
      (isFailure : ending.failure ≠ none)

/-- The roots find their files one after the other. -/
theorem FindsFrom.cons
    {first others : List FilePath}
    (findsFirst : FindsFrom storage options [root] first)
    (findsOthers : FindsFrom storage options roots others)
    (areRoots : ∀ other ∈ root :: roots, IsRoot storage options other)
    (isNew : root ∉ roots) :
    FindsFrom storage options (root :: roots) (first ++ others) where
  mem := by
    intro file
    rw [List.mem_append, findsFirst.mem, findsOthers.mem]
    constructor
    · rintro (⟨other, member, meets⟩ | ⟨other, member, meets⟩)
      · rw [List.mem_singleton] at member
        subst member
        exact ⟨other, List.mem_cons_self, meets⟩
      · exact ⟨other, List.mem_cons_of_mem _ member, meets⟩
    · rintro ⟨other, member, meets⟩
      rcases List.mem_cons.mp member with rfl | isLater
      · exact .inl ⟨other, List.mem_cons_self, meets⟩
      · exact .inr ⟨other, isLater, meets⟩
  nodup := by
    apply List.nodup_append.mpr
    refine ⟨findsFirst.nodup, findsOthers.nodup, ?_⟩
    rintro file inFirst _ inOthers rfl
    obtain ⟨one, isOne, entry, meets, _⟩ := (findsFirst.mem file).mp inFirst
    obtain ⟨other, isOther, otherEntry, otherMeets, _⟩ :=
      (findsOthers.mem file).mp inOthers
    rw [List.mem_singleton] at isOne
    subst isOne
    have same := root_unique (areRoots _ List.mem_cons_self)
      (areRoots _ (List.mem_cons_of_mem _ isOther)) meets otherMeets
    rw [same] at isNew
    exact isNew isOther

/-- The roots are walked to the end, or one of them ends the walk. -/
theorem roots_walked
    (areRoots : ∀ root ∈ roots, IsRoot storage options root)
    (distinct : roots.Nodup)
    (found : Batches FilePath) :
    ∃ fuel ending, walkRoots storage options fuel found roots = some ending ∧
      RootsEnd storage options roots found ending := by
  induction roots generalizing found with
  | nil =>
      refine ⟨0, _, rfl, .finds ⟨?_, List.nodup_nil⟩ nofun rfl⟩
      intro file
      simp
  | cons root roots inductionHypothesis =>
      rw [List.nodup_cons] at distinct
      have others : ∀ other ∈ roots, IsRoot storage options other :=
        fun other member => areRoots other (List.mem_cons_of_mem _ member)
      by_cases available : Available storage root
      · obtain ⟨walk, isOpened, rootEnds⟩ := root_walked available found
        cases rootEnds with
        | @finds files fuel next finds unbroken ends hasFound =>
            obtain ⟨more, ending, endsOn, rootsEnd⟩ :=
              inductionHypothesis others distinct.2 next.found
            refine ⟨max fuel more, ending, ?_, ?_⟩
            · unfold walkRoots
              dsimp only
              rw [isOpened]
              dsimp only
              rw [walkFolders_mono ends (le_max_left fuel more)]
              exact walkRoots_mono endsOn (le_max_right fuel more)
            · cases rootsEnd with
              | @finds later findsLater usable isEnding =>
                  refine .finds (finds.cons findsLater areRoots distinct.1) ?_ ?_
                  · intro other member
                    rcases List.mem_cons.mp member with rfl | isLater
                    · exact ⟨available, unbroken⟩
                    · exact usable other isLater
                  · rw [isEnding, hasFound, List.foldl_append]
              | fails member unusable isFailure =>
                  exact .fails (List.mem_cons_of_mem _ member) unusable
                    isFailure
        | @fails fuel ending broken ends isFailure =>
            refine ⟨fuel, ending, ?_, .fails List.mem_cons_self
              (fun usable => broken usable.2) ?_⟩
            · unfold walkRoots
              dsimp only
              rw [isOpened]
              dsimp only
              rw [ends]
            · rw [isFailure]
              nofun
      · obtain ⟨failure, isOpened⟩ := open_unavailable found available
        refine ⟨0, { batches := found.full, failure := some failure }, ?_,
          .fails List.mem_cons_self (fun usable => available usable.1) nofun⟩
        unfold walkRoots
        dsimp only
        rw [isOpened]

end Frameleaf.LibraryWalk
