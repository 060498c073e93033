import Frameleaf.Lib.ParentGraph
import Mathlib.Data.Finset.Card
import Mathlib.Data.List.Forall2

namespace Frameleaf.ParentGraph

/-!
# The forest of a parent graph

Where every climb ends, the items form a forest: a root for each item without a
parent, and below each item those that name it.  The forest is grown from its
roots; every item stands in it exactly once.
-/

variable {Item Result : Type*}

/-- An item and the trees below it. -/
inductive ItemTree (Item : Type*) where
  | node (item : Item) (children : List (ItemTree Item))

/-- The item at the top of a tree. -/
def ItemTree.item : ItemTree Item → Item
  | .node item _ =>
      item

mutual

/-- The items of a tree. -/
def ItemTree.items : ItemTree Item → List Item
  | .node item children =>
      item :: itemsOf children

/-- The items of some trees. -/
def itemsOf : List (ItemTree Item) → List Item
  | [] =>
      []
  | tree :: rest =>
      tree.items ++ itemsOf rest

end

mutual

/-- In a tree every item stands right below one that it names. -/
def ItemTree.Hangs
    (names : Item → Item → Prop) : ItemTree Item → Prop
  | .node item children =>
      HangBelow names item children

/-- Some trees stand right below an item that their tops name. -/
def HangBelow
    (names : Item → Item → Prop)
    (above : Item) : List (ItemTree Item) → Prop
  | [] =>
      True
  | tree :: rest =>
      names tree.item above ∧ tree.Hangs names ∧ HangBelow names above rest

end

/-- Grow the tree of an item, as far as the fuel lasts. -/
def grow
    (children : Item → List Item) : ℕ → Item → Option (ItemTree Item)
  | 0, _ =>
      none
  | fuel + 1, item =>
      ((children item).mapM (grow children fuel)).map (ItemTree.node item)

theorem mapM_of_forall
    {attempt : Item → Option Result}
    {items : List Item}
    {Good : Item → Result → Prop}
    (each : ∀ item ∈ items, ∃ result,
      attempt item = some result ∧ Good item result) :
    ∃ results, items.mapM attempt = some results ∧
      List.Forall₂ Good items results := by
  induction items with
  | nil =>
      exact ⟨[], rfl, .nil⟩
  | cons item rest inductionHypothesis =>
      obtain ⟨result, attempted, good⟩ := each item List.mem_cons_self
      obtain ⟨results, restAttempted, restGood⟩ := inductionHypothesis
        fun other member => each other (List.mem_cons_of_mem _ member)
      refine ⟨result :: results, ?_, .cons good restGood⟩
      rw [List.mapM_cons, attempted, restAttempted]
      rfl

theorem exists_of_forall₂
    {Good : Item → Result → Prop}
    {items : List Item}
    {results : List Result}
    (each : List.Forall₂ Good items results)
    (result : Result)
    (member : result ∈ results) :
    ∃ item ∈ items, Good item result := by
  induction each with
  | nil =>
      cases member
  | cons good _ inductionHypothesis =>
      rcases List.mem_cons.mp member with rfl | inRest
      · exact ⟨_, List.mem_cons_self, good⟩
      · obtain ⟨item, inItems, isGood⟩ := inductionHypothesis inRest
        exact ⟨item, List.mem_cons_of_mem _ inItems, isGood⟩

mutual

theorem ItemTree.Hangs.mono
    {names other : Item → Item → Prop}
    (follows : ∀ item above, names item above → other item above) :
    (tree : ItemTree Item) → tree.Hangs names → tree.Hangs other
  | .node item children, hangs => by
      rw [ItemTree.Hangs] at hangs ⊢
      exact HangBelow.mono follows item children hangs

theorem HangBelow.mono
    {names other : Item → Item → Prop}
    (follows : ∀ item above, names item above → other item above)
    (above : Item) :
    (trees : List (ItemTree Item)) → HangBelow names above trees →
      HangBelow other above trees
  | [], _ => by
      rw [HangBelow]
      trivial
  | tree :: rest, hang => by
      rw [HangBelow] at hang ⊢
      exact ⟨follows _ _ hang.1, ItemTree.Hangs.mono follows tree hang.2.1,
        HangBelow.mono follows above rest hang.2.2⟩

end

variable {parent : Item → Option Item} {items tops : List Item}

theorem Reaches.total
    {item first second : Item}
    (toFirst : Reaches parent item first)
    (toSecond : Reaches parent item second) :
    Reaches parent first second ∨ Reaches parent second first :=
  Relation.ReflTransGen.total_of_right_unique
    (fun _ _ _ => Names.unique) toFirst toSecond

variable {above top : Item}

theorem eq_of_siblings
    {first second : Item}
    (grounded : Grounded parent above)
    (namesFirst : parent first = some above)
    (namesSecond : parent second = some above)
    (reaches : Reaches parent first second) :
    first = second := by
  rcases Relation.ReflTransGen.cases_head reaches with
    same | ⟨named, names, rest⟩
  · exact same
  · obtain rfl := Names.unique namesFirst names
    exact absurd (Relation.TransGen.tail' rest namesSecond)
      grounded.not_onCycle

/-- What the children of each item are. -/
structure AreChildren
    (parent : Item → Option Item)
    (items : List Item)
    (children : Item → List Item) : Prop where
  mem : ∀ above ∈ items, ∀ item, item ∈ children above ↔
    item ∈ items ∧ parent item = some above
  nodup : ∀ above, (children above).Nodup

/-- The parents of items are items. -/
def IsClosedUp
    (parent : Item → Option Item)
    (items : List Item) : Prop :=
  ∀ item ∈ items, ∀ named, parent item = some named → named ∈ items

theorem IsClosedUp.mem_of_reaches
    {item : Item}
    (isClosed : IsClosedUp parent items)
    (reaches : Reaches parent item above)
    (member : item ∈ items) :
    above ∈ items := by
  induction reaches with
  | refl =>
      exact member
  | tail _ names inductionHypothesis =>
      exact isClosed _ inductionHypothesis _ names

/-- The tree of an item: everything that climbs to it, each once. -/
structure IsTreeOf
    (parent : Item → Option Item)
    (items : List Item)
    (top : Item)
    (tree : ItemTree Item) : Prop where
  item : tree.item = top
  hangs : tree.Hangs (Names parent)
  nodup : tree.items.Nodup
  mem : ∀ item, item ∈ tree.items ↔ item ∈ items ∧ Reaches parent item top

variable {trees : List (ItemTree Item)}

theorem mem_itemsOf_of_tree
    {tree : ItemTree Item}
    (member : tree ∈ trees)
    (isTree : IsTreeOf parent items top tree) :
    top ∈ itemsOf trees := by
  have inTree : top ∈ tree.items := by
    rw [← isTree.item]
    cases tree with
    | node item children =>
        rw [ItemTree.items]
        exact List.mem_cons_self
  induction trees with
  | nil =>
      cases member
  | cons first rest inductionHypothesis =>
      rw [itemsOf, List.mem_append]
      rcases List.mem_cons.mp member with rfl | inRest
      · exact .inl inTree
      · exact .inr (inductionHypothesis inRest)

/-- The items of trees of different tops, none of which climbs to another. -/
theorem itemsOf_trees
    (nodup : tops.Nodup)
    (apart : ∀ first ∈ tops, ∀ second ∈ tops,
      Reaches parent first second → first = second)
    (areTrees : List.Forall₂ (IsTreeOf parent items) tops trees) :
    (itemsOf trees).Nodup ∧
      ∀ item, item ∈ itemsOf trees ↔
        item ∈ items ∧ ∃ top ∈ tops, Reaches parent item top := by
  induction areTrees with
  | nil =>
      simp [itemsOf]
  | @cons top tree tops trees isTree _ inductionHypothesis =>
      obtain ⟨notInRest, restNodup⟩ := List.nodup_cons.mp nodup
      obtain ⟨restItems, restMem⟩ := inductionHypothesis restNodup
        fun first inFirst second inSecond =>
          apart first (List.mem_cons_of_mem _ inFirst) second
            (List.mem_cons_of_mem _ inSecond)
      refine ⟨?_, fun item => ?_⟩
      · rw [itemsOf]
        refine List.nodup_append.mpr
          ⟨isTree.nodup, restItems, fun first inTree second inRest => ?_⟩
        rintro rfl
        obtain ⟨_, toTop⟩ := (isTree.mem first).mp inTree
        obtain ⟨_, other, inTops, toOther⟩ := (restMem first).mp inRest
        have same : top = other := by
          rcases Reaches.total toTop toOther with forth | back
          · exact apart top List.mem_cons_self other
              (List.mem_cons_of_mem _ inTops) forth
          · exact (apart other (List.mem_cons_of_mem _ inTops) top
              List.mem_cons_self back).symm
        exact notInRest (same ▸ inTops)
      · rw [itemsOf, List.mem_append, isTree.mem, restMem]
        simp only [List.mem_cons, exists_eq_or_imp]
        tauto

theorem hangBelow_of_trees
    (name : ∀ top ∈ tops, parent top = some above)
    (areTrees : List.Forall₂ (IsTreeOf parent items) tops trees) :
    HangBelow (Names parent) above trees := by
  induction areTrees with
  | nil =>
      rw [HangBelow]
      trivial
  | cons isTree _ inductionHypothesis =>
      rw [HangBelow]
      refine ⟨?_, isTree.hangs, inductionHypothesis
        fun top member => name top (List.mem_cons_of_mem _ member)⟩
      rw [isTree.item]
      exact name _ List.mem_cons_self

open Classical in
/-- How many items climb to an item. -/
noncomputable def climbing
    (parent : Item → Option Item)
    (items : List Item)
    (top : Item) : Finset Item :=
  items.toFinset.filter fun item => Reaches parent item top

theorem climbing_le
    (top : Item) :
    (climbing parent items top).card ≤ items.length := by
  classical
  exact (Finset.card_filter_le _ _).trans (List.toFinset_card_le items)

theorem climbing_lt
    {child : Item}
    (grounded : Grounded parent top)
    (inItems : top ∈ items)
    (names : parent child = some top) :
    (climbing parent items child).card < (climbing parent items top).card := by
  refine Finset.card_lt_card (Finset.ssubset_iff_of_subset ?_ |>.mpr ?_)
  · intro item member
    simp only [climbing, Finset.mem_filter] at member ⊢
    exact ⟨member.1, member.2.tail names⟩
  · refine ⟨top, ?_, ?_⟩
    · simp [climbing, inItems, Relation.ReflTransGen.refl]
    · intro member
      simp only [climbing, Finset.mem_filter] at member
      exact grounded.not_onCycle (Relation.TransGen.tail' member.2 names)

/-- With fuel for everything that climbs to it, the tree of an item grows. -/
theorem grow_spec
    {children : Item → List Item}
    (areChildren : AreChildren parent items children)
    (isClosed : IsClosedUp parent items)
    (allGrounded : ∀ item ∈ items, Grounded parent item)
    (fuel : ℕ)
    (inItems : top ∈ items)
    (enough : (climbing parent items top).card ≤ fuel) :
    ∃ tree, grow children fuel top = some tree ∧
      IsTreeOf parent items top tree := by
  induction fuel generalizing top with
  | zero =>
      have isThere : top ∈ climbing parent items top := by
        simp [climbing, inItems, Relation.ReflTransGen.refl]
      have := Finset.card_pos.mpr ⟨top, isThere⟩
      omega
  | succ fuel inductionHypothesis =>
      have grounded := allGrounded top inItems
      have each : ∀ child ∈ children top, ∃ tree,
          grow children fuel child = some tree ∧
            IsTreeOf parent items child tree := by
        intro child member
        obtain ⟨childIn, names⟩ := (areChildren.mem top inItems child).mp member
        have fewer := climbing_lt grounded inItems names
        exact inductionHypothesis childIn (by omega)
      obtain ⟨trees, grown, areTrees⟩ := mapM_of_forall each
      have apart : ∀ first ∈ children top, ∀ second ∈ children top,
          Reaches parent first second → first = second := by
        intro first inFirst second inSecond
        exact eq_of_siblings grounded
          ((areChildren.mem top inItems first).mp inFirst).2
          ((areChildren.mem top inItems second).mp inSecond).2
      obtain ⟨nodup, mem⟩ :=
        itemsOf_trees (areChildren.nodup top) apart areTrees
      refine ⟨.node top trees, by rw [grow, grown]; rfl, rfl, ?_, ?_, ?_⟩
      · rw [ItemTree.Hangs]
        exact hangBelow_of_trees
          (fun child member => ((areChildren.mem top inItems child).mp member).2)
          areTrees
      · rw [ItemTree.items]
        refine List.nodup_cons.mpr ⟨fun member => ?_, nodup⟩
        obtain ⟨_, child, inChildren, reaches⟩ := (mem top).mp member
        have names := ((areChildren.mem top inItems child).mp inChildren).2
        exact grounded.not_onCycle (Relation.TransGen.tail' reaches names)
      · intro item
        rw [ItemTree.items, List.mem_cons, mem]
        constructor
        · rintro (rfl | ⟨itemIn, child, inChildren, reaches⟩)
          · exact ⟨inItems, Relation.ReflTransGen.refl⟩
          · have names := ((areChildren.mem top inItems child).mp inChildren).2
            exact ⟨itemIn, reaches.tail names⟩
        · rintro ⟨itemIn, reaches⟩
          rcases Relation.ReflTransGen.cases_tail reaches with
            same | ⟨child, toChild, names⟩
          · exact .inl same.symm
          · have childIn := isClosed.mem_of_reaches toChild itemIn
            exact .inr ⟨itemIn, child,
              (areChildren.mem top inItems child).mpr ⟨childIn, names⟩, toChild⟩

theorem Grounded.exists_root
    {item : Item}
    (grounded : Grounded parent item) :
    ∃ root, parent root = none ∧ Reaches parent item root := by
  induction grounded with
  | intro item _ inductionHypothesis =>
      cases link : parent item with
      | none =>
          exact ⟨item, link, Relation.ReflTransGen.refl⟩
      | some named =>
          obtain ⟨root, isRoot, reaches⟩ := inductionHypothesis named link
          exact ⟨root, isRoot, reaches.head link⟩

theorem eq_of_root
    {root : Item}
    (isRoot : parent root = none)
    (reaches : Reaches parent root above) :
    root = above := by
  rcases Relation.ReflTransGen.cases_head reaches with same | ⟨_, names, _⟩
  · exact same
  · cases isRoot.symm.trans names

/-- The forest grown from the roots: everything stands in it once. -/
theorem forest_spec
    {children : Item → List Item}
    {roots : List Item}
    (areChildren : AreChildren parent items children)
    (isClosed : IsClosedUp parent items)
    (allGrounded : ∀ item ∈ items, Grounded parent item)
    (rootsMem : ∀ item, item ∈ roots ↔ item ∈ items ∧ parent item = none)
    (rootsNodup : roots.Nodup) :
    ∃ forest, roots.mapM (grow children items.length) = some forest ∧
      (∀ tree ∈ forest, ∃ root ∈ roots, IsTreeOf parent items root tree) ∧
      (itemsOf forest).Nodup ∧ ∀ item, item ∈ itemsOf forest ↔ item ∈ items := by
  have each : ∀ root ∈ roots, ∃ tree,
      grow children items.length root = some tree ∧
        IsTreeOf parent items root tree := by
    intro root member
    exact grow_spec areChildren isClosed allGrounded _
      ((rootsMem root).mp member).1 (climbing_le root)
  obtain ⟨forest, grown, areTrees⟩ := mapM_of_forall each
  have apart : ∀ first ∈ roots, ∀ second ∈ roots,
      Reaches parent first second → first = second := by
    intro first inFirst second _ reaches
    exact eq_of_root ((rootsMem first).mp inFirst).2 reaches
  obtain ⟨nodup, mem⟩ := itemsOf_trees rootsNodup apart areTrees
  refine ⟨forest, grown, exists_of_forall₂ areTrees, nodup, fun item => ?_⟩
  rw [mem]
  constructor
  · exact And.left
  · intro member
    obtain ⟨root, isRoot, reaches⟩ := (allGrounded item member).exists_root
    have rootIn := isClosed.mem_of_reaches reaches member
    exact ⟨member, root, (rootsMem root).mpr ⟨rootIn, isRoot⟩, reaches⟩

end Frameleaf.ParentGraph
