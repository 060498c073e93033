import Frameleaf.StudioVector.Closure
import Frameleaf.StudioVector.ScannerLaws
import Mathlib.Algebra.BigOperators.Group.List.Basic
import Mathlib.Data.List.Dedup
import Mathlib.Data.List.Induction
import Mathlib.Data.List.Perm.Subperm
import Mathlib.Data.Option.Basic

namespace Frameleaf.StudioVector

open Json JsonDocument Utf8

/-!
# What an accepted closure holds

What was verified stays verified while the check goes on, and no file is read
twice.  The references of one graphic are told by their places alone, so that
as many declared places as parsed ones, all among them, are all of them.
-/

/-! ## Runs that keep what they have found -/

section Runs

variable {State Item : Type}

theorem foldlM_grows
    {step : State → Item → Option State}
    {Sound : State → Prop}
    {Later : State → State → Prop}
    {Good : State → Item → Prop}
    (refl : ∀ state, Later state state)
    (trans : ∀ first second third, Later first second → Later second third →
      Later first third)
    (keeps : ∀ state later item, Later state later → Good state item →
      Good later item)
    {items : List Item}
    (steps : ∀ item ∈ items, ∀ state after, Sound state →
      step state item = some after →
        Sound after ∧ Later state after ∧ Good after item)
    {start final : State}
    (sound : Sound start)
    (runs : items.foldlM step start = some final) :
    Sound final ∧ Later start final ∧ ∀ item ∈ items, Good final item := by
  induction items generalizing start with
  | nil =>
      cases runs
      exact ⟨sound, refl _, List.forall_mem_nil _⟩
  | cons item items inductionHypothesis =>
      rw [List.foldlM_cons] at runs
      obtain ⟨after, isStep, goesOn⟩ := Option.bind_eq_some_iff.mp runs
      rw [List.forall_mem_cons] at steps
      obtain ⟨soundAfter, later, good⟩ := steps.1 start after sound isStep
      obtain ⟨soundFinal, laterFinal, others⟩ :=
        inductionHypothesis steps.2 soundAfter goesOn
      exact ⟨soundFinal, trans _ _ _ later laterFinal,
        List.forall_mem_cons.mpr ⟨keeps _ _ _ laterFinal good, others⟩⟩

end Runs

/-! ## Keys -/

theorem withKind_injective
    {first second : SourceKind}
    {text other : List ℕ}
    (alike : withKind first text = withKind second other) :
    first = second ∧ text = other := by
  rw [withKind, withKind] at alike
  cases first <;> cases second <;>
    simp [SourceKind.text, unitsOfText] at alike ⊢ <;> exact alike

theorem Source.eq_of_key
    {first second : Source}
    (alike : first.key = second.key) :
    first.kind = second.kind ∧ first.id = second.id :=
  withKind_injective alike

theorem Role.text_injective :
    Function.Injective Role.text := by
  intro first second
  cases first <;> cases second <;> decide

theorem entryPart_injective :
    Function.Injective fun entry : Option (List ℕ) =>
      (entry.map KeyPart.text).getD .null := by
  intro first second alike
  cases first with
  | none =>
      cases second with
      | none => rfl
      | some _ => nomatch alike
  | some _ =>
      cases second with
      | none => nomatch alike
      | some _ =>
          cases alike
          rfl

theorem studioVectorLocationKey_injective :
    Function.Injective studioVectorLocationKey := by
  intro first second alike
  cases first with
  | lottieJson entry pointer role =>
      cases second with
      | lottieJson otherEntry otherPointer otherRole =>
          simp only [studioVectorLocationKey, List.cons.injEq, true_and,
            KeyPart.text.injEq, and_true] at alike
          obtain ⟨sameEntry, rfl, sameRole⟩ := alike
          rw [entryPart_injective sameEntry, Role.text_injective sameRole]
      | svg _ _ _ _ =>
          have lengths := congrArg List.length alike
          nomatch lengths
  | svg elementPath spaceName localName role =>
      cases second with
      | lottieJson _ _ _ =>
          have lengths := congrArg List.length alike
          nomatch lengths
      | svg otherPath otherSpace otherName otherRole =>
          simp only [studioVectorLocationKey, List.cons.injEq, true_and,
            KeyPart.text.injEq, KeyPart.numbers.injEq, and_true] at alike
          obtain ⟨rfl, rfl, rfl, sameRole⟩ := alike
          rw [Role.text_injective sameRole]

/-! ## Declarations -/

/-- What is known of references that do not contradict each other. -/
structure Seen.Knows
    (seen : Seen)
    (bindings : List StudioVectorBinding) : Prop where
  parents : ∀ binding ∈ bindings,
    (seen.parents.find? (·.1 = binding.parent.id)).map Prod.snd =
      some (withKind binding.parent.kind binding.parent.checksum)
  keys : seen.keys = (bindings.map bindingKey).reverse
  distinct : (bindings.map bindingKey).Nodup

variable {bindings group : List StudioVectorBinding}
  {binding : StudioVectorBinding}

theorem Seen.Knows.add
    {seen after : Seen}
    (knows : seen.Knows bindings)
    (adds : seen.add binding = some after) :
    after.Knows (bindings ++ [binding]) := by
  unfold Seen.add at adds
  dsimp only at adds
  split at adds
  · nomatch adds
  rename_i noContradiction
  split at adds
  · nomatch adds
  rename_i isNew
  cases adds
  constructor
  · intro other isOther
    rw [List.find?_cons]
    by_cases sameId : binding.parent.id = other.parent.id
    · rw [decide_eq_true sameId]
      rcases List.mem_append.mp isOther with isOld | isLast
      · have known := knows.parents other isOld
        rw [← sameId] at known
        rw [known, Option.any_some, decide_eq_true_eq, not_not]
          at noContradiction
        exact congrArg some noContradiction.symm
      · rw [List.mem_singleton.mp isLast]
        rfl
    · rw [decide_eq_false sameId]
      rcases List.mem_append.mp isOther with isOld | isLast
      · exact knows.parents other isOld
      · exact absurd (congrArg (·.parent.id) (List.mem_singleton.mp isLast).symm)
          sameId
  · dsimp only
    rw [knows.keys, List.map_append, List.reverse_append]
    rfl
  · rw [knows.keys, List.mem_reverse] at isNew
    rw [List.map_append, List.map_singleton]
    exact knows.distinct.append (List.nodup_singleton _)
      (List.disjoint_singleton.mpr isNew)

theorem knows_of_foldlM
    {seen : Seen}
    (runs : bindings.foldlM Seen.add {} = some seen) :
    seen.Knows bindings := by
  induction bindings using List.reverseRecOn generalizing seen with
  | nil =>
      cases runs
      exact ⟨List.forall_mem_nil _, rfl, List.nodup_nil⟩
  | append_singleton bindings binding inductionHypothesis =>
      rw [List.foldlM_append] at runs
      obtain ⟨middle, earlier, last⟩ := Option.bind_eq_some_iff.mp runs
      rw [List.foldlM_cons] at last
      obtain ⟨after, adds, ends⟩ := Option.bind_eq_some_iff.mp last
      cases ends
      exact (inductionHypothesis earlier).add adds

/-- What is declared without a contradiction. -/
structure Consistent
    (bindings : List StudioVectorBinding) : Prop where
  parents : ∀ first ∈ bindings, ∀ second ∈ bindings,
    first.parent.id = second.parent.id → first.parent = second.parent
  places : ∀ parent, ((bindings.filter fun binding =>
    binding.parent = parent).map StudioVectorBinding.location).Nodup

theorem consistent_of_read
    {graph : Document}
    (reads : readStudioVectorBindings graph = some bindings) :
    Consistent bindings := by
  rw [readStudioVectorBindings] at reads
  split at reads
  · cases reads
    exact ⟨List.forall_mem_nil _, fun _ => List.nodup_nil⟩
  · obtain ⟨declared, -, checks⟩ := Option.bind_eq_some_iff.mp reads
    obtain ⟨seen, runs, isRead⟩ := Option.bind_eq_some_iff.mp checks
    cases isRead
    have knows := knows_of_foldlM runs
    constructor
    · intro first isFirst second isSecond sameId
      have known := knows.parents first isFirst
      rw [sameId, knows.parents second isSecond, Option.some.injEq] at known
      obtain ⟨sameKind, sameChecksum⟩ := withKind_injective known
      cases first with
      | mk firstParent _ _ =>
      cases firstParent
      cases second with
      | mk secondParent _ _ =>
      cases secondParent
      cases sameId
      cases sameKind
      cases sameChecksum
      rfl
    · intro parent
      refine List.Nodup.of_map
        (fun location => (parent.kind.text, parent.id, parent.checksum,
          studioVectorLocationKey location)) ?_
      have ofParent := knows.distinct.sublist
        ((List.filter_sublist (p := fun binding =>
          binding.parent = parent)).map bindingKey)
      rw [List.map_map]
      refine (List.map_congr_left fun binding member => ?_) ▸ ofParent
      have isParent := of_decide_eq_true (List.mem_filter.mp member).2
      rw [Function.comp_apply, bindingKey, isParent]

/-! ## Groups -/

variable {groups : Groups}

theorem addToGroup_of_not_mem
    (isNew : binding.parent.key ∉ groups.map Prod.fst) :
    addToGroup binding groups =
      groups ++ [(binding.parent.key, [binding])] := by
  induction groups with
  | nil =>
      rfl
  | cons group rest inductionHypothesis =>
      rw [List.map_cons, List.mem_cons, not_or] at isNew
      rw [addToGroup, if_neg (Ne.symm isNew.1), inductionHypothesis isNew.2,
        List.cons_append]

theorem addToGroup_of_mem
    (distinct : (groups.map Prod.fst).Nodup)
    (isKnown : binding.parent.key ∈ groups.map Prod.fst) :
    addToGroup binding groups = groups.map fun group =>
      if group.1 = binding.parent.key then (group.1, group.2 ++ [binding])
      else group := by
  induction groups with
  | nil =>
      nomatch isKnown
  | cons group rest inductionHypothesis =>
      rw [List.map_cons, List.nodup_cons] at distinct
      by_cases isHere : group.1 = binding.parent.key
      · have others : ∀ other ∈ rest, other.1 ≠ binding.parent.key := by
          intro other isOther same
          refine distinct.1 (isHere ▸ same ▸ List.mem_map_of_mem isOther)
        rw [addToGroup, if_pos isHere, List.map_cons, if_pos isHere]
        refine congrArg (_ :: ·) ((List.map_id rest).symm.trans ?_)
        exact List.map_congr_left fun other isOther =>
          (if_neg (others other isOther)).symm
      · rw [List.map_cons, List.mem_cons] at isKnown
        rw [addToGroup, if_neg isHere, List.map_cons, if_neg isHere,
          inductionHypothesis distinct.2
            (isKnown.resolve_left (Ne.symm isHere))]

/-- References in groups: each group holds those of one graphic. -/
structure Grouped
    (bindings : List StudioVectorBinding)
    (groups : Groups) : Prop where
  distinct : (groups.map Prod.fst).Nodup
  members : ∀ group ∈ groups, group.2 =
    bindings.filter fun binding => binding.parent.key = group.1
  covers : ∀ binding ∈ bindings, binding.parent.key ∈ groups.map Prod.fst

/-- One more reference is put to its group. -/
theorem Grouped.add
    (grouped : Grouped bindings groups)
    (binding : StudioVectorBinding) :
    Grouped (bindings ++ [binding]) (addToGroup binding groups) := by
  by_cases isKnown : binding.parent.key ∈ groups.map Prod.fst
  · rw [addToGroup_of_mem grouped.distinct isKnown]
    have sameKeys : (groups.map fun group =>
        if group.1 = binding.parent.key then (group.1, group.2 ++ [binding])
        else group).map Prod.fst = groups.map Prod.fst := by
      rw [List.map_map]
      refine List.map_congr_left fun group _ => ?_
      rw [Function.comp_apply]
      split <;> rfl
    refine ⟨sameKeys ▸ grouped.distinct, ?_, ?_⟩
    · intro group isGroup
      obtain ⟨old, isOld, rfl⟩ := List.mem_map.mp isGroup
      have members := grouped.members old isOld
      rw [List.filter_append]
      by_cases isHere : old.1 = binding.parent.key
      · rw [if_pos isHere, List.filter_cons, decide_eq_true isHere.symm,
          if_pos rfl, List.filter_nil, ← members]
      · rw [if_neg isHere, List.filter_cons,
          decide_eq_false (Ne.symm isHere), if_neg Bool.false_ne_true,
          List.filter_nil, List.append_nil, ← members]
    · intro other isOther
      rw [sameKeys]
      rcases List.mem_append.mp isOther with isOld | isLast
      · exact grouped.covers other isOld
      · rw [List.mem_singleton.mp isLast]
        exact isKnown
  · rw [addToGroup_of_not_mem isKnown]
    refine ⟨?_, ?_, ?_⟩
    · rw [List.map_append, List.map_singleton]
      exact grouped.distinct.append (List.nodup_singleton _)
        (List.disjoint_singleton.mpr isKnown)
    · intro group isGroup
      rw [List.filter_append]
      rcases List.mem_append.mp isGroup with isOld | isLast
      · have notHere : binding.parent.key ≠ group.1 :=
          fun same => isKnown (same ▸ List.mem_map_of_mem isOld)
        rw [List.filter_cons, decide_eq_false notHere,
          if_neg Bool.false_ne_true, List.filter_nil, List.append_nil]
        exact grouped.members group isOld
      · rw [List.mem_singleton.mp isLast]
        have noneBefore : (bindings.filter fun other =>
            other.parent.key = binding.parent.key) = [] := by
          refine List.filter_eq_nil_iff.mpr fun other isOther same => ?_
          exact isKnown (of_decide_eq_true same ▸ grouped.covers other isOther)
        rw [noneBefore, List.filter_cons, decide_eq_true rfl, if_pos rfl]
        rfl
    · intro other isOther
      rw [List.map_append, List.mem_append]
      rcases List.mem_append.mp isOther with isOld | isLast
      · exact .inl (grouped.covers other isOld)
      · rw [List.mem_singleton.mp isLast]
        exact .inr (List.mem_singleton_self _)

theorem grouped_groupsOf
    (bindings : List StudioVectorBinding) :
    Grouped bindings (groupsOf bindings) := by
  induction bindings using List.reverseRecOn with
  | nil =>
      exact ⟨List.nodup_nil, List.forall_mem_nil _, List.forall_mem_nil _⟩
  | append_singleton bindings binding inductionHypothesis =>
      rw [groupsOf, List.foldl_append]
      exact inductionHypothesis.add binding

/-! ## Files -/

/-- The entry of a key. -/
def Surroundings.entryAt
    (surroundings : Surroundings)
    (key : List ℕ) : Option StudioVectorAuthorizedInput :=
  surroundings.entries.reverse.find? (·.key = key)

/-- What was read is of the entries of its keys and within the limit, each file
once. -/
structure Allocation.Sound
    (surroundings : Surroundings)
    (allocation : Allocation) : Prop where
  origin : ∀ file ∈ allocation.verified, ∃ entry count maximum,
    surroundings.entryAt file.1 = some entry ∧
      surroundings.read count entry maximum = some file.2
  counted : allocation.allocated =
    (allocation.verified.map fun file => file.2.length).sum
  bounded : allocation.allocated ≤ MAX_ALLOCATED
  once : (allocation.verified.map Prod.fst).Nodup

/-- What was read stays. -/
def Allocation.Later (allocation later : Allocation) : Prop :=
  allocation.verified ⊆ later.verified

/-- The bytes of a declared file: they were read of an authorized entry of its
kind, and they are the declared ones. -/
structure Verified
    (surroundings : Surroundings)
    (allocation : Allocation)
    (source : Source)
    (bytes : Bytes) : Prop where
  authorized : ∃ entry ∈ surroundings.entries,
    entry.kind = source.kind.text ∧ entry.id = source.id ∧
      ∃ count maximum, surroundings.read count entry maximum = some bytes
  read : (source.key, bytes) ∈ allocation.verified
  unchanged : surroundings.sha256 bytes = source.checksum

variable {allocation after : Allocation} {bytes : Bytes}

theorem Verified.later
    {surroundings : Surroundings}
    {source : Source}
    (verified : Verified surroundings allocation source bytes)
    (later : allocation.Later after) :
    Verified surroundings after source bytes :=
  { verified with read := later verified.read }

variable {surroundings : Surroundings}

theorem Allocation.Sound.empty :
    Allocation.Sound surroundings {} where
  origin := List.forall_mem_nil _
  counted := rfl
  bounded := Nat.zero_le _
  once := List.nodup_nil

/-- An entry is read once and within the limit. -/
theorem readOnce_spec
    {entry : StudioVectorAuthorizedInput}
    {key : List ℕ}
    (sound : allocation.Sound surroundings)
    (isEntry : surroundings.entryAt key = some entry)
    (reads : readOnce surroundings entry key allocation =
      some (bytes, after)) :
    after.Sound surroundings ∧ allocation.Later after ∧
      (key, bytes) ∈ after.verified := by
  rw [readOnce] at reads
  split at reads
  · rename_i found
    cases reads
    have isKey := List.find?_some found
    rw [decide_eq_true_eq] at isKey
    have member := List.mem_of_find?_eq_some found
    refine ⟨sound, List.Subset.refl _, ?_⟩
    rwa [← isKey]
  · rename_i missing
    obtain ⟨fresh, isFresh, others⟩ := Option.bind_eq_some_iff.mp reads
    dsimp only at others
    split at others
    · nomatch others
    · rename_i small
      cases others
      rw [Bool.not_eq_true, Bool.or_eq_false_iff, decide_eq_false_iff_not,
        decide_eq_false_iff_not] at small
      refine ⟨⟨?_, ?_, Nat.not_lt.mp small.2, ?_⟩,
        List.subset_append_left _ _,
        List.mem_append_right _ (List.mem_singleton_self _)⟩
      · intro file isFile
        rcases List.mem_append.mp isFile with isOld | isLast
        · exact sound.origin file isOld
        · rw [List.mem_singleton.mp isLast]
          exact ⟨entry, _, _, isEntry, isFresh⟩
      · rw [List.map_append, List.sum_append, ← sound.counted]
        rfl
      · rw [List.map_append]
        refine sound.once.append (List.nodup_singleton _)
          (List.disjoint_singleton.mpr fun isOld => ?_)
        obtain ⟨file, isFile, sameKey⟩ := List.mem_map.mp isOld
        exact List.find?_eq_none.mp missing file isFile
          (decide_eq_true sameKey)

theorem bytesFor_spec
    {source : Source}
    (sound : allocation.Sound surroundings)
    (reads : bytesFor surroundings source allocation = some (bytes, after)) :
    after.Sound surroundings ∧ allocation.Later after ∧
      Verified surroundings after source bytes := by
  rw [bytesFor] at reads
  split at reads
  · nomatch reads
  rename_i entry found
  split at reads
  · nomatch reads
  rename_i isAuthorized
  split at reads
  · nomatch reads
  obtain ⟨⟨fresh, middle⟩, readsOnce, others⟩ :=
    Option.bind_eq_some_iff.mp reads
  dsimp only at others
  split at others
  · rename_i unchanged
    cases others
    obtain ⟨soundAfter, later, isRead⟩ := readOnce_spec sound found readsOnce
    obtain ⟨origin, count, maximum, isOrigin, readsBytes⟩ :=
      soundAfter.origin _ isRead
    cases found.symm.trans isOrigin
    rw [not_or, not_not, not_not] at isAuthorized
    exact ⟨soundAfter, later,
      ⟨entry, List.mem_reverse.mp (List.mem_of_find?_eq_some found),
        isAuthorized.1, isAuthorized.2, count, maximum, readsBytes⟩,
      isRead, unchanged⟩
  · nomatch others

theorem checkChild_spec
    (sound : allocation.Sound surroundings)
    (checks : checkChild surroundings allocation binding = some after) :
    after.Sound surroundings ∧ allocation.Later after ∧
      ∃ bytes, Verified surroundings after binding.child bytes := by
  obtain ⟨⟨bytes, middle⟩, reads, others⟩ := Option.bind_eq_some_iff.mp checks
  dsimp only at others
  split at others
  · nomatch others
  · cases others
    obtain ⟨soundAfter, later, verified⟩ := bytesFor_spec sound reads
    exact ⟨soundAfter, later, bytes, verified⟩

theorem children_spec
    (sound : allocation.Sound surroundings)
    (checks : group.foldlM (checkChild surroundings) allocation = some after) :
    after.Sound surroundings ∧ allocation.Later after ∧
      ∀ binding ∈ group, ∃ bytes,
        Verified surroundings after binding.child bytes :=
  @foldlM_grows _ _ (checkChild surroundings)
    (fun state => state.Sound surroundings) Allocation.Later
    (fun state binding => ∃ bytes,
      Verified surroundings state binding.child bytes)
    (fun _ => List.Subset.refl _)
    (fun _ _ _ => List.Subset.trans)
    (fun _ _ _ later ⟨bytes, verified⟩ => ⟨bytes, verified.later later⟩)
    _ (fun _ _ _ _ => checkChild_spec)
    _ _ sound checks

/-! ## The places of a graphic -/

theorem unitsOfText_injective :
    Function.Injective unitsOfText := by
  intro first second alike
  have sameList := List.map_injective_iff.mpr
    (fun _ _ => Char.toNat_inj.mp) alike
  rw [← String.ofList_toList (s := first), sameList, String.ofList_toList]

theorem indexed_injective
    (before after : List ℕ) :
    Function.Injective fun index : ℕ =>
      before ++ unitsOfText index.repr ++ after := by
  intro first second alike
  have sameText := unitsOfText_injective
    (List.append_cancel_left (List.append_cancel_right alike))
  exact ofNat_injective (congrArg Json.number sameText)

variable {found dependencies : List Location}

theorem nodup_of_references
    {reference : ℕ → Document → Option (List Location)}
    {place : ℕ → Location}
    (injective : Function.Injective place)
    (ofIndex : ∀ index item found, reference index item = some found →
      found.Sublist [place index])
    {items : List Document}
    (reads : references reference items = some found) :
    found.Nodup ∧ ∀ location ∈ found, ∃ index, location = place index := by
  obtain ⟨lists, areLists, rfl⟩ := Option.map_eq_some_iff.mp reads
  have sublist : ∀ (items : List Document) (start : ℕ)
      (lists : List (List Location)),
      (items.zipIdx start).mapM (fun entry => reference entry.2 entry.1) =
          some lists →
        lists.flatten.Sublist
          ((List.range' start items.length).map place) := by
    intro items
    induction items with
    | nil =>
        intro start lists areLists
        cases areLists
        exact List.Sublist.refl _
    | cons item rest inductionHypothesis =>
        intro start lists areLists
        rw [List.zipIdx_cons, List.mapM_cons] at areLists
        obtain ⟨head, isHead, others⟩ := Option.bind_eq_some_iff.mp areLists
        obtain ⟨tail, isTail, isLists⟩ := Option.bind_eq_some_iff.mp others
        cases isLists
        rw [List.flatten_cons, List.length_cons, List.range'_succ,
          List.map_cons]
        exact (ofIndex start item head isHead).append
          (inductionHypothesis (start + 1) tail isTail)
  have ofPlaces := sublist items 0 lists areLists
  constructor
  · exact (List.Nodup.map injective List.nodup_range').sublist ofPlaces
  · intro location isFound
    obtain ⟨index, -, isPlace⟩ := List.mem_map.mp (ofPlaces.subset isFound)
    exact ⟨index, isPlace.symm⟩

/-- The place of an image. -/
def imageAt (index : ℕ) : Location :=
  .lottieJson none
    (unitsOfText "/assets/" ++ unitsOfText index.repr ++ unitsOfText "/p")
    .image

/-- The place of a font. -/
def fontAt (index : ℕ) : Location :=
  .lottieJson none
    (unitsOfText "/fonts/list/" ++ unitsOfText index.repr ++
      unitsOfText "/fPath")
    .font

theorem assetReference_sublist
    {index : ℕ}
    {asset : Document}
    (reads : assetReference index asset = some found) :
    found.Sublist [imageAt index] := by
  unfold assetReference at reads
  split at reads
  · nomatch reads
  split at reads
  · cases reads
    exact List.nil_sublist _
  · split at reads
    · split at reads
      · split at reads
        · cases reads
          exact List.nil_sublist _
        · nomatch reads
      · cases reads
        exact List.Sublist.refl _
    · nomatch reads
  · nomatch reads

theorem fontReference_sublist
    {index : ℕ}
    {font : Document}
    (reads : fontReference index font = some found) :
    found.Sublist [fontAt index] := by
  unfold fontReference at reads
  split at reads
  · cases reads
    exact List.Sublist.refl _
  · nomatch reads

theorem nodup_dependenciesOf
    {document : Document}
    (reads : dependenciesOf document = some dependencies) :
    dependencies.Nodup := by
  unfold dependenciesOf at reads
  obtain ⟨-, -, reads⟩ := Option.bind_eq_some_iff.mp reads
  obtain ⟨-, -, reads⟩ := Option.bind_eq_some_iff.mp reads
  obtain ⟨-, -, reads⟩ := Option.bind_eq_some_iff.mp reads
  obtain ⟨images, areImages, reads⟩ := Option.bind_eq_some_iff.mp reads
  obtain ⟨-, -, reads⟩ := Option.bind_eq_some_iff.mp reads
  obtain ⟨fonts, areFonts, reads⟩ := Option.bind_eq_some_iff.mp reads
  cases reads
  have imagesInjective : Function.Injective imageAt := fun first second alike =>
    indexed_injective _ _ (Location.lottieJson.inj alike).2.1
  have fontsInjective : Function.Injective fontAt := fun first second alike =>
    indexed_injective _ _ (Location.lottieJson.inj alike).2.1
  obtain ⟨imagesNodup, ofImages⟩ := nodup_of_references imagesInjective
    (fun _ _ _ => assetReference_sublist) areImages
  obtain ⟨fontsNodup, ofFonts⟩ := nodup_of_references fontsInjective
    (fun _ _ _ => fontReference_sublist) areFonts
  refine imagesNodup.append fontsNodup fun location isImage isFont => ?_
  obtain ⟨index, rfl⟩ := ofImages location isImage
  obtain ⟨other, alike⟩ := ofFonts _ isFont
  nomatch (Location.lottieJson.inj alike).2.2

theorem perm_of_areComplete
    (nodup : dependencies.Nodup)
    (places : (group.map StudioVectorBinding.location).Nodup)
    (complete : areComplete dependencies group = true) :
    (group.map StudioVectorBinding.location).Perm dependencies := by
  have keysNodup : (dependencies.map studioVectorLocationKey).Nodup :=
    nodup.map studioVectorLocationKey_injective
  rw [areComplete, keysNodup.dedup, Bool.and_eq_true, decide_eq_true_eq,
    List.length_map, List.all_eq_true] at complete
  obtain ⟨sameLength, areParsed⟩ := complete
  have subset : group.map StudioVectorBinding.location ⊆ dependencies := by
    intro location isDeclared
    obtain ⟨binding, isBinding, rfl⟩ := List.mem_map.mp isDeclared
    have isParsed := of_decide_eq_true (areParsed binding isBinding)
    exact (List.mem_map_of_injective
      studioVectorLocationKey_injective).mp isParsed
  refine (List.subperm_of_subset places subset).perm_of_length_le ?_
  rw [List.length_map, sameLength]

/-! ## Accepted graphs -/

/-- A graphic is accepted with its references. -/
structure Accepted
    (surroundings : Surroundings)
    (allocation : Allocation)
    (parent : Source)
    (group : List StudioVectorBinding) : Prop where
  complete : ∃ bytes type dependencies,
    Verified surroundings allocation parent bytes ∧
      sniffStudioImport (bytes.take 1024) = some type ∧
        assertStudioVectorParent bytes type.contentType = some dependencies ∧
          dependencies.Nodup ∧
            (group.map StudioVectorBinding.location).Perm dependencies
  children : ∀ binding ∈ group, ∃ bytes,
    Verified surroundings allocation binding.child bytes

theorem Accepted.later
    {parent : Source}
    (accepted : Accepted surroundings allocation parent group)
    (later : allocation.Later after) :
    Accepted surroundings after parent group := by
  constructor
  · obtain ⟨bytes, type, dependencies, verified, others⟩ := accepted.complete
    exact ⟨bytes, type, dependencies, verified.later later, others⟩
  · intro binding isBinding
    obtain ⟨bytes, verified⟩ := accepted.children binding isBinding
    exact ⟨bytes, verified.later later⟩

theorem exists_of_assertStudioVectorParent
    {contentType : String}
    (parses : assertStudioVectorParent bytes contentType =
      some dependencies) :
    ∃ text document, decodeStrictly bytes = some text ∧
      parseJson text = some document ∧
        assertUnambiguousJson text = some true ∧
          dependenciesOf document = some dependencies := by
  unfold assertStudioVectorParent parseStudioLottieDependencies at parses
  obtain ⟨text, decodes, parses⟩ := Option.bind_eq_some_iff.mp parses
  obtain ⟨-, -, parses⟩ := Option.bind_eq_some_iff.mp parses
  obtain ⟨-, -, parses⟩ := Option.bind_eq_some_iff.mp parses
  obtain ⟨document, isRead, parses⟩ := Option.bind_eq_some_iff.mp parses
  obtain ⟨-, -, parses⟩ := Option.bind_eq_some_iff.mp parses
  obtain ⟨_, isScanned, parses⟩ := Option.bind_eq_some_iff.mp parses
  exact ⟨text, document, decodes, isRead,
    (Option.guard_eq_some' _).mp isScanned, parses⟩

theorem checkGroup_spec
    {parent : Source}
    {group : List ℕ × List StudioVectorBinding}
    (ofParent : ∀ binding ∈ group.2, binding.parent = parent)
    (places : (group.2.map StudioVectorBinding.location).Nodup)
    (sound : allocation.Sound surroundings)
    (checks : checkGroup surroundings allocation group = some after) :
    after.Sound surroundings ∧ allocation.Later after ∧
      Accepted surroundings after parent group.2 := by
  rw [checkGroup] at checks
  split at checks
  · nomatch checks
  rename_i first rest isGroup
  have isParent : first.parent = parent :=
    ofParent first (isGroup ▸ List.mem_cons_self)
  split at checks
  · nomatch checks
  obtain ⟨⟨bytes, middle⟩, reads, checks⟩ := Option.bind_eq_some_iff.mp checks
  obtain ⟨type, hasType, checks⟩ := Option.bind_eq_some_iff.mp checks
  obtain ⟨-, -, checks⟩ := Option.bind_eq_some_iff.mp checks
  obtain ⟨dependencies, parses, checks⟩ := Option.bind_eq_some_iff.mp checks
  obtain ⟨_, isComplete, checks⟩ := Option.bind_eq_some_iff.mp checks
  obtain ⟨soundMiddle, laterMiddle, verified⟩ := bytesFor_spec sound reads
  obtain ⟨soundAfter, laterAfter, children⟩ := children_spec soundMiddle checks
  have complete := (Option.guard_eq_some' _).mp isComplete
  obtain ⟨_, _, -, -, -, holds⟩ := exists_of_assertStudioVectorParent parses
  have nodup := nodup_dependenciesOf holds
  exact ⟨soundAfter, List.Subset.trans laterMiddle laterAfter,
    ⟨bytes, type, dependencies, isParent ▸ verified.later laterAfter, hasType,
      parses, nodup, perm_of_areComplete nodup places complete⟩, children⟩

/-- What an accepted closure is: each graphic is accepted with its references,
and the files are within the limit. -/
structure Closed
    (surroundings : Surroundings)
    (bindings : List StudioVectorBinding)
    (allocation : Allocation) : Prop where
  /-- The declared places of a graphic are those that its bytes name, one for
  one, and its files are the declared ones. -/
  graphics : ∀ binding ∈ bindings,
    Accepted surroundings allocation binding.parent
      (bindings.filter fun other => other.parent = binding.parent)
  /-- Each file is read once. -/
  once : (allocation.verified.map Prod.fst).Nodup
  /-- All files together are within the limit. -/
  bounded : (allocation.verified.map fun file => file.2.length).sum ≤
    MAX_ALLOCATED

theorem filter_key_eq
    (consistent : Consistent bindings)
    (isBinding : binding ∈ bindings) :
    (bindings.filter fun other => other.parent.key = binding.parent.key) =
      bindings.filter fun other => other.parent = binding.parent := by
  refine List.filter_congr fun other isOther => ?_
  rw [decide_eq_decide]
  constructor
  · intro sameKey
    exact consistent.parents other isOther binding isBinding
      (Source.eq_of_key sameKey).2
  · intro same
    rw [same]

/-- Whether the group of a graphic is accepted. -/
def GroupAccepted
    (surroundings : Surroundings)
    (allocation : Allocation)
    (group : List ℕ × List StudioVectorBinding) : Prop :=
  ∀ first ∈ group.2, Accepted surroundings allocation first.parent group.2

theorem groupAccepted_of_check
    (consistent : Consistent bindings)
    {group : List ℕ × List StudioVectorBinding}
    (isGroup : group ∈ groupsOf bindings)
    (sound : allocation.Sound surroundings)
    (checks : checkGroup surroundings allocation group = some after) :
    after.Sound surroundings ∧ allocation.Later after ∧
      GroupAccepted surroundings after group := by
  have members := (grouped_groupsOf bindings).members group isGroup
  have ofParent : ∀ first ∈ group.2, group.2 =
      bindings.filter fun other => other.parent = first.parent := by
    intro first isFirst
    rw [members] at isFirst ⊢
    obtain ⟨isBinding, hasKey⟩ := List.mem_filter.mp isFirst
    rw [← of_decide_eq_true hasKey, filter_key_eq consistent isBinding]
  have spec : ∀ first ∈ group.2, after.Sound surroundings ∧
      allocation.Later after ∧
        Accepted surroundings after first.parent group.2 := by
    intro first isFirst
    refine checkGroup_spec ?_ ?_ sound checks
    · rw [ofParent first isFirst]
      exact fun binding member => of_decide_eq_true (List.mem_filter.mp member).2
    · rw [ofParent first isFirst]
      exact consistent.places first.parent
  cases begins : group.2 with
  | nil =>
      rw [checkGroup, begins] at checks
      nomatch checks
  | cons first rest =>
      obtain ⟨soundAfter, later, -⟩ :=
        spec first (begins ▸ List.mem_cons_self)
      exact ⟨soundAfter, later, fun first isFirst => (spec first isFirst).2.2⟩

theorem closed_of_validate
    {graph : Document}
    (accepts : validateStudioVectorClosure surroundings graph =
      some allocation) :
    ∃ bindings, readStudioVectorBindings graph = some bindings ∧
      Closed surroundings bindings allocation := by
  obtain ⟨bindings, reads, runs⟩ := Option.bind_eq_some_iff.mp accepts
  have consistent := consistent_of_read reads
  obtain ⟨sound, -, groups⟩ := @foldlM_grows _ _ (checkGroup surroundings)
    (fun state => state.Sound surroundings) Allocation.Later
    (GroupAccepted surroundings)
    (fun _ => List.Subset.refl _)
    (fun _ _ _ => List.Subset.trans)
    (fun _ _ _ later accepted first isFirst =>
      (accepted first isFirst).later later)
    _ (fun _ isGroup _ _ => groupAccepted_of_check consistent isGroup)
    _ _ Allocation.Sound.empty runs
  refine ⟨bindings, reads, ?_, sound.once, sound.counted ▸ sound.bounded⟩
  intro binding isBinding
  have grouped := grouped_groupsOf bindings
  obtain ⟨group, isGroup, hasKey⟩ :=
    List.mem_map.mp (grouped.covers binding isBinding)
  have members : group.2 =
      bindings.filter fun other => other.parent = binding.parent := by
    rw [grouped.members group isGroup, hasKey,
      filter_key_eq consistent isBinding]
  have isMember : binding ∈ group.2 := by
    rw [members]
    exact List.mem_filter.mpr ⟨isBinding, decide_eq_true rfl⟩
  exact members ▸ groups group isGroup binding isMember

/-- What holds of the closures of graphs and of the texts of their graphics. -/
structure ClosureLaws : Prop where
  /-- An accepted graph is closed. -/
  closed : ∀ (surroundings : Surroundings) (graph : Document)
    (allocation : Allocation),
      validateStudioVectorClosure surroundings graph = some allocation →
        ∃ bindings, readStudioVectorBindings graph = some bindings ∧
          Closed surroundings bindings allocation
  /-- The scanner refuses the valid texts that are too deep or that hold a name
  twice in one object. -/
  refuses : ∀ text document, JsonDocument.read text = some document →
    (assertUnambiguousJson text = some false ↔
      MAX_DEPTH < nesting document ∨ isUnambiguous document = false)
  /-- Every reader finds the same references in an accepted graphic. -/
  readers : ∀ bytes contentType dependencies,
    assertStudioVectorParent bytes contentType = some dependencies →
      ∃ text document, decodeStrictly bytes = some text ∧
        JsonDocument.read text = some document ∧
          ∀ reader : Reader,
            dependenciesOf (reader.resolved document) = some dependencies

/-- The closures of graphs are what they are declared to be. -/
theorem closureLaws :
    ClosureLaws where
  closed _ _ _ := closed_of_validate
  refuses text document reads := by
    rw [assertUnambiguousJson_of_read reads, Option.some.injEq, fits,
      Bool.and_eq_false_iff, decide_eq_false_iff_not, Nat.zero_add,
      Nat.not_le]
  readers bytes contentType dependencies parses := by
    obtain ⟨text, document, decodes, isParsed, isScanned, holds⟩ :=
      exists_of_assertStudioVectorParent parses
    obtain ⟨found, reads, rfl⟩ := Option.map_eq_some_iff.mp isParsed
    rw [assertUnambiguousJson_of_read reads, Option.some.injEq, fits,
      Bool.and_eq_true] at isScanned
    refine ⟨text, found, decodes, reads, fun reader => ?_⟩
    rw [reader.resolved_eq found isScanned.2]
    rwa [lastEntry.resolved_eq found isScanned.2] at holds

end Frameleaf.StudioVector
