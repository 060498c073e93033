import Mathlib.Data.Finset.Card
import Mathlib.Data.Finset.Max

namespace Frameleaf.Representatives

/-!
# The highest item of each of the first classes

Items carry a rank and fall into classes.  A rule with a count selects the
highest item of each of its first `count` classes, where classes are ordered by
their highest items.  The selection depends only on which items are present,
and deleting items that no rule selects never changes what is selected later.
-/

variable {Item Rank Class : Type*} [LinearOrder Rank] [DecidableEq Class]

/-- The classes of the items ranked above one item. -/
def higherClasses
    (rank : Item → Rank)
    (classOf : Item → Class)
    (items : List Item)
    (item : Item) : Finset Class :=
  ((items.filter fun other => rank item < rank other).map classOf).toFinset

/-- The highest item of one of the first `count` classes. -/
structure IsRepresentative
    (rank : Item → Rank)
    (classOf : Item → Class)
    (count : ℕ)
    (items : List Item)
    (item : Item) : Prop where
  present : item ∈ items
  highest :
    ∀ other ∈ items, classOf other = classOf item → rank other ≤ rank item
  early : (higherClasses rank classOf items item).card < count

/-- One selection rule: how items are classed and how many classes it keeps. -/
structure Rule (Item Class : Type*) where
  count : ℕ
  classOf : Item → Class

/-- An item that at least one of the rules selects. -/
def Retained
    (rank : Item → Rank)
    (rules : List (Rule Item Class))
    (items : List Item)
    (item : Item) : Prop :=
  ∃ rule ∈ rules, IsRepresentative rank rule.classOf rule.count items item

variable {rank : Item → Rank} {classOf : Item → Class} {count : ℕ}
variable {rules : List (Rule Item Class)} {items fewer rest : List Item}
variable {item : Item}

theorem mem_higherClasses
    {kind : Class} :
    kind ∈ higherClasses rank classOf items item ↔
      ∃ other ∈ items, rank item < rank other ∧ classOf other = kind := by
  simp [higherClasses, and_assoc]

theorem higherClasses_mono
    (subset : fewer ⊆ items) :
    higherClasses rank classOf fewer item ⊆
      higherClasses rank classOf items item := by
  intro kind
  rw [mem_higherClasses, mem_higherClasses]
  rintro ⟨other, member, higher, sameKind⟩
  exact ⟨other, subset member, higher, sameKind⟩

theorem IsRepresentative.of_subset
    (representative : IsRepresentative rank classOf count items item)
    (subset : fewer ⊆ items)
    (member : item ∈ fewer) :
    IsRepresentative rank classOf count fewer item where
  present := member
  highest := fun other otherMember =>
    representative.highest other (subset otherMember)
  early :=
    (Finset.card_le_card (higherClasses_mono subset)).trans_lt
      representative.early

/--
Deleting non-representatives hides no higher class from an item that looks
early afterwards: the highest item of a hidden class would be a representative.
-/
theorem higherClasses_subset_of_early
    (complete : ∀ other,
      IsRepresentative rank classOf count items other → other ∈ fewer)
    (early : (higherClasses rank classOf fewer item).card < count) :
    higherClasses rank classOf items item ⊆
      higherClasses rank classOf fewer item := by
  classical
  by_contra notSubset
  obtain ⟨kind, kindHigher, kindHidden⟩ := Finset.not_subset.mp notSubset
  obtain ⟨witness, witnessMember, witnessHigher, rfl⟩ :=
    mem_higherClasses.mp kindHigher
  -- Among the items of hidden classes, the highest one is a representative.
  let hidden := items.toFinset.filter fun other =>
    rank item < rank other ∧
      classOf other ∉ higherClasses rank classOf fewer item
  have hiddenNonempty : hidden.Nonempty :=
    ⟨witness, by simp [hidden, witnessMember, witnessHigher, kindHidden]⟩
  obtain ⟨top, topHidden, topHighest⟩ :=
    hidden.exists_max_image rank hiddenNonempty
  obtain ⟨topMember, topHigher, topKind⟩ :
      top ∈ items ∧ rank item < rank top ∧
        classOf top ∉ higherClasses rank classOf fewer item := by
    simpa [hidden] using topHidden
  have aboveTop :
      ∀ other ∈ items, rank top < rank other →
        classOf other ∈ higherClasses rank classOf fewer item := by
    intro other otherMember otherHigher
    by_contra otherHidden
    have otherBelow : rank other ≤ rank top :=
      topHighest other (by
        simp [hidden, otherMember, otherHidden, topHigher.trans otherHigher])
    exact absurd otherHigher otherBelow.not_gt
  have topRepresentative :
      IsRepresentative rank classOf count items top :=
    { present := topMember
      highest := by
        intro other otherMember sameKind
        by_contra notBelow
        have inFewer := aboveTop other otherMember (not_le.mp notBelow)
        rw [sameKind] at inFewer
        exact topKind inFewer
      early := by
        refine (Finset.card_le_card ?_).trans_lt early
        intro kind kindAbove
        obtain ⟨other, otherMember, otherHigher, rfl⟩ :=
          mem_higherClasses.mp kindAbove
        exact aboveTop other otherMember otherHigher }
  exact topKind (mem_higherClasses.mpr
    ⟨top, complete top topRepresentative, topHigher, rfl⟩)

theorem isRepresentative_iff_of_complete
    (subset : fewer ⊆ items)
    (complete : ∀ other,
      IsRepresentative rank classOf count items other → other ∈ fewer) :
    IsRepresentative rank classOf count fewer item ↔
      IsRepresentative rank classOf count items item := by
  constructor
  · intro representative
    have visible :=
      higherClasses_subset_of_early complete representative.early
    refine
      { present := subset representative.present
        highest := ?_
        early :=
          (Finset.card_le_card visible).trans_lt representative.early }
    intro other otherMember sameKind
    by_contra notBelow
    have higher : classOf item ∈ higherClasses rank classOf fewer item :=
      visible (mem_higherClasses.mpr
        ⟨other, otherMember, not_le.mp notBelow, sameKind⟩)
    obtain ⟨seen, seenMember, seenHigher, seenKind⟩ :=
      mem_higherClasses.mp higher
    exact absurd seenHigher
      (representative.highest seen seenMember seenKind).not_gt
  · intro representative
    exact representative.of_subset subset (complete item representative)

theorem Retained.of_subset
    (retained : Retained rank rules items item)
    (subset : fewer ⊆ items)
    (member : item ∈ fewer) :
    Retained rank rules fewer item := by
  obtain ⟨rule, ruleMember, representative⟩ := retained
  exact ⟨rule, ruleMember, representative.of_subset subset member⟩

theorem retained_iff_of_complete
    (subset : fewer ⊆ items)
    (complete : ∀ other, Retained rank rules items other → other ∈ fewer) :
    Retained rank rules fewer item ↔ Retained rank rules items item := by
  constructor
  · rintro ⟨rule, ruleMember, representative⟩
    refine ⟨rule, ruleMember, ?_⟩
    rw [← isRepresentative_iff_of_complete subset]
    · exact representative
    · intro other otherRepresentative
      exact complete other ⟨rule, ruleMember, otherRepresentative⟩
  · intro retained
    exact retained.of_subset subset (complete item retained)

theorem isRepresentative_const_iff
    (kind : Class) :
    IsRepresentative rank (fun _ => kind) 1 items item ↔
      item ∈ items ∧ ∀ other ∈ items, rank other ≤ rank item := by
  constructor
  · intro representative
    refine ⟨representative.present, fun other member => ?_⟩
    exact representative.highest other member rfl
  · rintro ⟨member, highest⟩
    refine ⟨member, fun other otherMember _ => highest other otherMember, ?_⟩
    have noneHigher :
        higherClasses rank (fun _ => kind) items item = ∅ := by
      ext other
      simp only [mem_higherClasses, Finset.notMem_empty, iff_false,
        not_exists, not_and]
      intro above aboveMember higher
      exact absurd higher (highest above aboveMember).not_gt
    simp [noneHigher]

/-! ## Selecting by one scan of a descending list -/

/-- Scan a list, taking the first item of each class until `count` are seen. -/
def scan
    (classOf : Item → Class)
    (count : ℕ) :
    Finset Class → List Item → List Item
  | _, [] => []
  | seen, item :: rest =>
      if count ≤ seen.card then
        []
      else if classOf item ∈ seen then
        scan classOf count seen rest
      else
        item :: scan classOf count (insert (classOf item) seen) rest

/-- A list from the highest rank to the lowest, without ties. -/
def Descending
    (rank : Item → Rank)
    (items : List Item) : Prop :=
  items.Pairwise fun higher lower => rank lower < rank higher

theorem higherClasses_head
    (descending : Descending rank (item :: rest)) :
    higherClasses rank classOf (item :: rest) item = ∅ := by
  ext kind
  simp only [mem_higherClasses, Finset.notMem_empty, iff_false,
    not_exists, not_and]
  rintro other member higher
  rcases List.mem_cons.mp member with rfl | inRest
  · exact absurd higher (lt_irrefl _)
  · have lower := List.rel_of_pairwise_cons descending inRest
    exact absurd higher lower.asymm

theorem higherClasses_tail
    {head : Item}
    (descending : Descending rank (head :: rest))
    (member : item ∈ rest) :
    higherClasses rank classOf (head :: rest) item =
      insert (classOf head) (higherClasses rank classOf rest item) := by
  have headHigher := List.rel_of_pairwise_cons descending member
  simp [higherClasses, headHigher]

variable {seen : Finset Class}

/-- What a scan takes from a descending list, for any classes seen before. -/
theorem mem_scan_iff
    (descending : Descending rank items) :
    item ∈ scan classOf count seen items ↔
      item ∈ items ∧ classOf item ∉ seen ∧
        (∀ other ∈ items, classOf other = classOf item →
          rank other ≤ rank item) ∧
        (seen ∪ higherClasses rank classOf items item).card < count := by
  induction items generalizing seen with
  | nil =>
      simp [scan]
  | cons head rest inductionHypothesis =>
      have tailDescending : Descending rank rest :=
        List.Pairwise.of_cons descending
      have headHigher :
          ∀ other ∈ rest, rank other < rank head := fun other member =>
        List.rel_of_pairwise_cons descending member
      have headOut : head ∉ rest := fun member =>
        lt_irrefl _ (headHigher head member)
      unfold scan
      by_cases full : count ≤ seen.card
      · rw [if_pos full]
        simp only [List.not_mem_nil, false_iff, not_and, not_lt]
        intro _ _ _
        exact full.trans (Finset.card_le_card Finset.subset_union_left)
      · rw [if_neg full]
        by_cases sawHead : classOf head ∈ seen
        · rw [if_pos sawHead, inductionHypothesis tailDescending]
          constructor
          · rintro ⟨member, unseen, highest, early⟩
            refine ⟨List.mem_cons_of_mem _ member, unseen, ?_, ?_⟩
            · intro other otherMember sameKind
              rcases List.mem_cons.mp otherMember with rfl | inRest
              · rw [sameKind] at sawHead
                exact absurd sawHead unseen
              · exact highest other inRest sameKind
            · rw [higherClasses_tail descending member,
                Finset.union_insert, ← Finset.insert_union,
                Finset.insert_eq_of_mem sawHead]
              exact early
          · rintro ⟨member, unseen, highest, early⟩
            rcases List.mem_cons.mp member with rfl | inRest
            · exact absurd sawHead unseen
            · refine ⟨inRest, unseen, fun other otherMember =>
                highest other (List.mem_cons_of_mem _ otherMember), ?_⟩
              rw [higherClasses_tail descending inRest,
                Finset.union_insert, ← Finset.insert_union,
                Finset.insert_eq_of_mem sawHead] at early
              exact early
        · rw [if_neg sawHead, List.mem_cons,
            inductionHypothesis tailDescending]
          constructor
          · rintro (rfl | ⟨member, unseen, highest, early⟩)
            · refine ⟨List.mem_cons_self, sawHead, ?_, ?_⟩
              · intro other otherMember _
                rcases List.mem_cons.mp otherMember with rfl | inRest
                · exact le_rfl
                · exact (headHigher other inRest).le
              · rw [higherClasses_head descending, Finset.union_empty]
                exact not_le.mp full
            · rw [Finset.mem_insert, not_or] at unseen
              refine ⟨List.mem_cons_of_mem _ member, unseen.2, ?_, ?_⟩
              · intro other otherMember sameKind
                rcases List.mem_cons.mp otherMember with rfl | inRest
                · exact absurd sameKind.symm unseen.1
                · exact highest other inRest sameKind
              · rw [higherClasses_tail descending member,
                  Finset.union_insert, ← Finset.insert_union]
                exact early
          · rintro ⟨member, unseen, highest, early⟩
            rcases List.mem_cons.mp member with rfl | inRest
            · exact Or.inl rfl
            · refine Or.inr ⟨inRest, ?_, fun other otherMember =>
                highest other (List.mem_cons_of_mem _ otherMember), ?_⟩
              · rw [Finset.mem_insert, not_or]
                refine ⟨fun sameKind => ?_, unseen⟩
                have below :=
                  highest head List.mem_cons_self sameKind.symm
                exact absurd (headHigher item inRest) below.not_gt
              · rw [higherClasses_tail descending inRest,
                  Finset.union_insert, ← Finset.insert_union] at early
                exact early

theorem mem_scan_empty_iff
    (descending : Descending rank items) :
    item ∈ scan classOf count ∅ items ↔
      IsRepresentative rank classOf count items item := by
  rw [mem_scan_iff descending, Finset.empty_union]
  constructor
  · rintro ⟨member, _, highest, early⟩
    exact ⟨member, highest, early⟩
  · rintro ⟨member, highest, early⟩
    exact ⟨member, Finset.notMem_empty _, highest, early⟩

theorem length_scan :
    (scan classOf count seen items).length =
      min (count - seen.card) ((items.map classOf).toFinset \ seen).card := by
  induction items generalizing seen with
  | nil =>
      simp [scan]
  | cons head rest inductionHypothesis =>
      unfold scan
      by_cases full : count ≤ seen.card
      · simp [full]
      · rw [if_neg full]
        by_cases sawHead : classOf head ∈ seen
        · rw [if_pos sawHead, inductionHypothesis, List.map_cons,
            List.toFinset_cons, Finset.insert_sdiff_of_mem _ sawHead]
        · rw [if_neg sawHead, List.length_cons, inductionHypothesis,
            List.map_cons, List.toFinset_cons,
            Finset.insert_sdiff_of_notMem _ sawHead,
            Finset.card_insert_of_notMem sawHead]
          have headApart :
              insert (classOf head) ((rest.map classOf).toFinset \ seen) =
                insert (classOf head) ((rest.map classOf).toFinset \
                  insert (classOf head) seen) := by
            ext kind
            simp only [Finset.mem_insert, Finset.mem_sdiff]
            tauto
          rw [headApart, Finset.card_insert_of_notMem (by simp)]
          omega

theorem scan_sublist :
    (scan classOf count seen items).Sublist items := by
  induction items generalizing seen with
  | nil =>
      exact List.Sublist.refl _
  | cons head rest inductionHypothesis =>
      unfold scan
      split
      · exact List.nil_sublist _
      · split
        · exact inductionHypothesis.cons head
        · exact inductionHypothesis.cons_cons head

theorem nodup_scan_classes
    (descending : Descending rank items) :
    ((scan classOf count ∅ items).map classOf).Nodup := by
  rw [List.Nodup, List.pairwise_map]
  have taken : Descending rank (scan classOf count ∅ items) :=
    List.Pairwise.sublist scan_sublist descending
  refine taken.imp_of_mem fun {higher lower} higherTaken lowerTaken below => ?_
  intro sameClass
  have lowerHighest := ((mem_scan_empty_iff descending).mp lowerTaken).highest
  have higherMember := scan_sublist.subset higherTaken
  exact absurd below (lowerHighest higher higherMember sameClass).not_gt

omit [DecidableEq Class] in
theorem Descending.eq_of_mem_iff
    {first second : List Item}
    (firstDescending : Descending rank first)
    (secondDescending : Descending rank second)
    (sameItems : ∀ item, item ∈ first ↔ item ∈ second) :
    first = second := by
  have distinct :
      ∀ {list : List Item}, Descending rank list → list.Nodup :=
    fun descending =>
      descending.imp fun {higher lower} below same => by
        rw [same] at below
        exact lt_irrefl _ below
  have permuted : first.Perm second :=
    (List.perm_ext_iff_of_nodup (distinct firstDescending)
      (distinct secondDescending)).mpr sameItems
  exact List.Perm.eq_of_pairwise
    (fun higher lower _ _ below above => absurd below above.asymm)
    firstDescending secondDescending permuted

theorem card_classes_eq
    {Kind : Type*}
    [DecidableEq Kind]
    {kindOf : Item → Kind}
    (same : ∀ first ∈ items, ∀ second ∈ items,
      classOf first = classOf second ↔ kindOf first = kindOf second) :
    (items.map classOf).toFinset.card = (items.map kindOf).toFinset.card := by
  induction items with
  | nil =>
      rfl
  | cons item rest inductionHypothesis =>
      have known : classOf item ∈ (rest.map classOf).toFinset ↔
          kindOf item ∈ (rest.map kindOf).toFinset := by
        rw [List.mem_toFinset, List.mem_toFinset, List.mem_map, List.mem_map]
        exact exists_congr fun other => and_congr_right fun isOther =>
          same _ (List.mem_cons_of_mem _ isOther) _ List.mem_cons_self
      rw [List.map_cons, List.map_cons, List.toFinset_cons, List.toFinset_cons,
        Finset.card_insert_eq_ite, Finset.card_insert_eq_ite,
        inductionHypothesis fun first isFirst second isSecond =>
          same _ (List.mem_cons_of_mem _ isFirst) _
            (List.mem_cons_of_mem _ isSecond)]
      simp only [known]

theorem IsRepresentative.congr
    {Kind : Type*}
    [DecidableEq Kind]
    {kindOf : Item → Kind}
    (same : ∀ first ∈ items, ∀ second ∈ items,
      classOf first = classOf second ↔ kindOf first = kindOf second) :
    IsRepresentative rank classOf count items item ↔
      IsRepresentative rank kindOf count items item := by
  have sameCard : (higherClasses rank classOf items item).card =
      (higherClasses rank kindOf items item).card :=
    card_classes_eq fun first isFirst second isSecond =>
      same _ (List.mem_of_mem_filter isFirst) _ (List.mem_of_mem_filter isSecond)
  constructor
  · rintro ⟨present, highest, early⟩
    exact ⟨present, fun other isOther isKind => highest other isOther
      ((same _ isOther _ present).mpr isKind), sameCard ▸ early⟩
  · rintro ⟨present, highest, early⟩
    exact ⟨present, fun other isOther isClass => highest other isOther
      ((same _ isOther _ present).mp isClass), sameCard ▸ early⟩

theorem IsRepresentative.of_le
    {more : ℕ}
    (representative : IsRepresentative rank classOf count items item)
    (isMore : count ≤ more) :
    IsRepresentative rank classOf more items item where
  present := representative.present
  highest := representative.highest
  early := representative.early.trans_le isMore

end Frameleaf.Representatives
