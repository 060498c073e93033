import Frameleaf.Lib.ParentForest
import Mathlib.Data.List.Forall2

namespace Frameleaf.TagTree

open ParentGraph

/-!
# The tree of tags

Tags name parents that may be absent or below the tag itself.  Each tag is put
under the parent that it names, unless a climb from it meets a tag twice; the
others are roots, and every tag is given the path and the depth of its place.
-/

/-- A tag as the server lists it. -/
structure Tag where
  id : String
  name : String
  value : String
  color : Option String
  parentId : Option String
  deriving DecidableEq

/-- What is counted of a tag. -/
structure Statistics where
  id : String
  count : ℕ
  total : ℕ
  coverAssetIds : List String
  startDate : Option String
  endDate : Option String

/-- What is shown of a tag, without its place. -/
structure TagNode where
  id : String
  name : String
  value : String
  color : Option String
  count : ℕ
  total : ℕ
  covers : List String
  startDate : Option String
  endDate : Option String
  deriving DecidableEq

/-- A tag at its place. -/
structure Placed where
  node : TagNode
  path : List String
  depth : ℕ
  deriving DecidableEq

/-- The entry of a key in a map to which entries were set one after another. -/
def lookup
    {Entry : Type}
    (key : Entry → String)
    (entries : List Entry)
    (id : String) : Option Entry :=
  entries.reverse.find? fun entry => key entry = id

/-- The ids of tags. -/
def ids (tags : List Tag) : List String :=
  tags.map Tag.id

/-- The node of a tag. -/
def toNode
    (statistics : List Statistics)
    (tag : Tag) : TagNode :=
  let row := lookup Statistics.id statistics tag.id
  { id := tag.id
    name := tag.name
    value := tag.value
    color := tag.color
    count := (row.map Statistics.count).getD 0
    total := (row.map Statistics.total).getD 0
    covers := ((row.map Statistics.coverAssetIds).getD []).take 4
    startDate := row.bind Statistics.startDate
    endDate := row.bind Statistics.endDate }

/-- The parent that a tag names; an empty name is none. -/
def Tag.named (tag : Tag) : Option String :=
  tag.parentId.filter (· ≠ "")

/-- Whether a climb meets an id twice.  There is no result when it goes on. -/
def meetsAgain
    (tags : List Tag) :
    ℕ → List String → Tag → Option Bool
  | 0, _, _ =>
      none
  | fuel + 1, seen, current =>
      match current.named with
      | none =>
          some false
      | some parentId =>
          if parentId ∈ seen then
            some true
          else
            match lookup Tag.id tags parentId with
            | none =>
                some false
            | some next =>
                meetsAgain tags fuel (parentId :: seen) next

/-- The parent under which a tag is put, if there is one. -/
def resolveParentId
    (tags : List Tag)
    (tagId : String) : Option (Option String) :=
  match lookup Tag.id tags tagId with
  | none =>
      some none
  | some tag =>
      match tag.named with
      | none =>
          some none
      | some parentId =>
          if (lookup Tag.id tags parentId).isNone then
            some none
          else
            (meetsAgain tags (tags.length + 1) [tagId] tag).map fun again =>
              if again then none else some parentId

/-- Busiest first, then by name. -/
def compareNodes
    (localeCompare : String → String → Ordering)
    (first second : TagNode) : Ordering :=
  (compare second.total first.total).then
    ((localeCompare first.name second.name).then
      (localeCompare first.id second.id))

/-- A node with the node under which it is put. -/
abbrev Linked := TagNode × Option TagNode

/-- Put every tag under its parent, if it has one. -/
def link
    (statistics : List Statistics)
    (tags : List Tag) : Option (List Linked) :=
  tags.mapM fun tag =>
    (resolveParentId tags tag.id).map fun parentId =>
      let parent := parentId.bind (lookup Tag.id tags)
      (toNode statistics tag, parent.map (toNode statistics))

/-- The nodes that are pushed to the children of a node. -/
def childrenOf
    (linked : List Linked)
    (above : TagNode) : List TagNode :=
  (linked.filter fun entry => entry.2 = some above).map Prod.fst

/-- The nodes that are pushed to the roots. -/
def rootsOf (linked : List Linked) : List TagNode :=
  (linked.filter fun entry => entry.2 = none).map Prod.fst

/-- Give a node and all that is below it the path and the depth of its place.
There is no result when the fuel does not last. -/
def assignPath
    (children : TagNode → List TagNode) :
    ℕ → List String → ℕ → TagNode → Option (ItemTree Placed)
  | 0, _, _, _ =>
      none
  | fuel + 1, ancestors, depth, node =>
      let path := ancestors ++ [node.name]
      ((children node).mapM (assignPath children fuel path (depth + 1))).map
        (ItemTree.node ⟨node, path, depth⟩)

/-- Build the tree of tags. -/
def buildTagTree
    (localeCompare : String → String → Ordering)
    (tags : List Tag)
    (statistics : List Statistics) : Option (List (ItemTree Placed)) := do
  let linked ← link statistics tags
  let sorted (nodes : List TagNode) : List TagNode :=
    nodes.mergeSort fun first second =>
      (compareNodes localeCompare first second).isLE
  (sorted (rootsOf linked)).mapM
    (assignPath (fun node => sorted (childrenOf linked node)) tags.length [] 0)

open ParentGraph

/-!
# Where the tags stand

A climb that meets no tag twice ends, and the links of tags whose climbs end
make a forest.  A climb that meets a tag twice has come to a cycle, which the
tag that it began with need not lie on.
-/

/-- Tags of different ids. -/
structure Tags where
  list : List Tag
  /-- No id is there twice. -/
  distinct : (ids list).Nodup

/-- The parent that the tag of an id names, if it is there. -/
def storedParent
    (tags : List Tag)
    (id : String) : Option String :=
  ((lookup Tag.id tags id).bind Tag.named).filter fun parentId =>
    (lookup Tag.id tags parentId).isSome

mutual

/-- Every node of a tree has the path and the depth of its place. -/
def IsPlaced
    (ancestors : List String)
    (depth : ℕ) : ItemTree Placed → Prop
  | .node item children =>
      item.path = ancestors ++ [item.node.name] ∧ item.depth = depth ∧
        ArePlaced item.path (depth + 1) children

/-- Every node of some trees has the path and the depth of its place. -/
def ArePlaced
    (ancestors : List String)
    (depth : ℕ) : List (ItemTree Placed) → Prop
  | [] =>
      True
  | tree :: rest =>
      IsPlaced ancestors depth tree ∧ ArePlaced ancestors depth rest

end

/-- A forest shows every tag once, at its place. -/
structure IsForest
    (tags : List Tag)
    (statistics : List Statistics)
    (forest : List (ItemTree Placed)) : Prop where
  /-- Every tag is there exactly once. -/
  once : ((itemsOf forest).map Placed.node).Perm
    (tags.map (toNode statistics))
  /-- The paths and the depths are those of the places. -/
  places : ArePlaced [] 0 forest
  /-- What is no root stands right below its stored parent. -/
  hangs : ∀ tree ∈ forest, tree.Hangs fun child above =>
    storedParent tags child.node.id = some above.node.id
  /-- A root has no parent that is there, or a cycle is above it. -/
  tops : ∀ tree ∈ forest, storedParent tags tree.item.node.id = none ∨
    ∃ above, Reaches (storedParent tags) tree.item.node.id above ∧
      OnCycle (storedParent tags) above

/-- What building the tree promises: only tags without a parent, and those on a
cycle, are roots. -/
def TreeLaws
    (localeCompare : String → String → Ordering)
    (tags : List Tag)
    (statistics : List Statistics) : Prop :=
  ∃ forest, buildTagTree localeCompare tags statistics = some forest ∧
    IsForest tags statistics forest ∧
      ∀ tree ∈ forest, storedParent tags tree.item.node.id = none ∨
        OnCycle (storedParent tags) tree.item.node.id

section Lookup

variable {Entry : Type} {key : Entry → String} {entries : List Entry}

theorem lookup_eq_some
    (distinct : (entries.map key).Nodup)
    {id : String}
    {entry : Entry} :
    lookup key entries id = some entry ↔ entry ∈ entries ∧ key entry = id := by
  constructor
  · intro found
    exact ⟨List.mem_reverse.mp (List.mem_of_find?_eq_some found),
      by simpa using List.find?_some found⟩
  · rintro ⟨member, rfl⟩
    cases search : lookup key entries (key entry) with
    | none =>
        have absent := List.find?_eq_none.mp search entry
          (List.mem_reverse.mpr member)
        simp at absent
    | some other =>
        have otherIn := List.mem_reverse.mp (List.mem_of_find?_eq_some search)
        have sameKey : key other = key entry := by
          simpa using List.find?_some search
        rw [List.inj_on_of_nodup_map distinct otherIn member sameKey]

end Lookup

variable {tags : List Tag} {statistics : List Statistics}

theorem storedParent_eq_some
    (distinct : (ids tags).Nodup)
    {tag : Tag}
    (member : tag ∈ tags)
    {parentId : String} :
    storedParent tags tag.id = some parentId ↔
      tag.named = some parentId ∧ ∃ parent ∈ tags, parent.id = parentId := by
  have found := (lookup_eq_some distinct).mpr ⟨member, rfl⟩
  rw [storedParent, found, Option.bind_some, Option.filter_eq_some_iff]
  refine and_congr_right fun _ => ?_
  rw [Option.isSome_iff_exists]
  exact exists_congr fun parent => lookup_eq_some distinct

theorem exists_of_storedParent
    (distinct : (ids tags).Nodup)
    {id parentId : String}
    (stored : storedParent tags id = some parentId) :
    ∃ tag ∈ tags, tag.id = id ∧ tag.named = some parentId ∧
      ∃ parent ∈ tags, parent.id = parentId := by
  obtain ⟨named, isThere⟩ := Option.filter_eq_some_iff.mp stored
  obtain ⟨tag, found, namedBy⟩ := Option.bind_eq_some_iff.mp named
  obtain ⟨member, rfl⟩ := (lookup_eq_some distinct).mp found
  obtain ⟨parent, foundParent⟩ := Option.isSome_iff_exists.mp isThere
  exact ⟨tag, member, rfl, namedBy, parent,
    (lookup_eq_some distinct).mp foundParent⟩

/-- A cycle is above an id, or the id is on one. -/
def LeadsIntoCycle
    (tags : List Tag)
    (id : String) : Prop :=
  ∃ above, Reaches (storedParent tags) id above ∧
    OnCycle (storedParent tags) above

/-- A climb ends: it meets an id twice if it leads into a cycle, and otherwise
comes to a root. -/
theorem meetsAgain_spec
    (distinct : (ids tags).Nodup)
    (fuel : ℕ)
    {path : List String}
    {tag : Tag}
    (member : tag ∈ tags)
    (climb : Climb (storedParent tags) path tag.id)
    (nodup : (tag.id :: path).Nodup)
    (known : tag.id :: path ⊆ ids tags)
    (enough : tags.length < path.length + fuel) :
    ∃ again, meetsAgain tags fuel (tag.id :: path) tag = some again ∧
      (again = true → LeadsIntoCycle tags tag.id) ∧
        (again = false → Grounded (storedParent tags) tag.id) := by
  induction fuel generalizing path tag with
  | zero =>
      have short := (List.subperm_of_subset nodup known).length_le
      rw [List.length_cons, ids, List.length_map] at short
      omega
  | succ fuel inductionHypothesis =>
      rw [meetsAgain]
      cases named : tag.named with
      | none =>
          refine ⟨false, rfl, (nomatch ·), fun _ => ?_⟩
          refine Grounded.of_parent fun parentId names => ?_
          have stored := ((storedParent_eq_some distinct member).mp names).1
          rw [named] at stored
          nomatch stored
      | some parentId =>
          dsimp only
          by_cases isSeen : parentId ∈ tag.id :: path
          · rw [if_pos isSeen]
            refine ⟨true, rfl, fun _ => ⟨tag.id, .refl, ?_⟩, (nomatch ·)⟩
            have isThere := List.mem_map.mp (known isSeen)
            have names : storedParent tags tag.id = some parentId :=
              (storedParent_eq_some distinct member).mpr ⟨named, isThere⟩
            rcases List.mem_cons.mp isSeen with isSelf | inPath
            · exact .single (isSelf ▸ names)
            · exact .head names (climb.climbs inPath)
          · rw [if_neg isSeen]
            cases found : lookup Tag.id tags parentId with
            | none =>
                refine ⟨false, rfl, (nomatch ·), fun _ => ?_⟩
                refine Grounded.of_parent fun other names => ?_
                obtain ⟨sameName, isThere⟩ :=
                  (storedParent_eq_some distinct member).mp names
                obtain ⟨parent, parentIn, rfl⟩ := isThere
                rw [named, Option.some.injEq] at sameName
                rw [sameName, (lookup_eq_some distinct).mpr
                  ⟨parentIn, rfl⟩] at found
                nomatch found
            | some parent =>
                obtain ⟨parentIn, rfl⟩ := (lookup_eq_some distinct).mp found
                have names : storedParent tags tag.id = some parent.id :=
                  (storedParent_eq_some distinct member).mpr
                    ⟨named, parent, parentIn, rfl⟩
                have further :
                    Climb (storedParent tags) (tag.id :: path) parent.id :=
                  ⟨names, climb⟩
                obtain ⟨again, climbs, leads, grounded⟩ :=
                  inductionHypothesis parentIn further
                    (List.nodup_cons.mpr ⟨isSeen, nodup⟩)
                    (List.cons_subset.mpr
                      ⟨List.mem_map_of_mem parentIn, known⟩)
                    (by rw [List.length_cons]; omega)
                refine ⟨again, climbs, fun isAgain => ?_, fun isEnd => ?_⟩
                · obtain ⟨above, reaches, onCycle⟩ := leads isAgain
                  exact ⟨above, .head names reaches, onCycle⟩
                · refine Grounded.of_parent fun other namesOther => ?_
                  rw [← Names.unique names namesOther]
                  exact grounded isEnd

/-- A tag is put under its stored parent if its climb ends, and is a root if it
leads into a cycle. -/
theorem resolveParentId_spec
    (distinct : (ids tags).Nodup)
    {tag : Tag}
    (member : tag ∈ tags) :
    ∃ parentId, resolveParentId tags tag.id = some parentId ∧
      (parentId = storedParent tags tag.id ∧
          Grounded (storedParent tags) tag.id ∨
        parentId = none ∧ LeadsIntoCycle tags tag.id) := by
  have found := (lookup_eq_some distinct).mpr ⟨member, rfl⟩
  have stored := fun parentId => @storedParent_eq_some _ distinct _ member parentId
  have rootless : storedParent tags tag.id = none →
      ∃ parentId, some none = some parentId ∧
        (parentId = storedParent tags tag.id ∧
            Grounded (storedParent tags) tag.id ∨
          parentId = none ∧ LeadsIntoCycle tags tag.id) := by
    intro isRoot
    refine ⟨none, rfl, .inl ⟨isRoot.symm, Grounded.of_parent ?_⟩⟩
    intro named names
    rw [Names, isRoot] at names
    cases names
  rw [resolveParentId, found]
  dsimp only
  cases named : tag.named with
  | none =>
      refine rootless (Option.eq_none_iff_forall_ne_some.mpr ?_)
      intro parentId isStored
      rw [((stored parentId).mp isStored).1] at named
      cases named
  | some parentId =>
      dsimp only
      cases foundParent : lookup Tag.id tags parentId with
      | none =>
          refine rootless (Option.eq_none_iff_forall_ne_some.mpr ?_)
          intro other isStored
          obtain ⟨sameName, parent, parentIn, rfl⟩ := (stored other).mp isStored
          rw [named, Option.some.injEq] at sameName
          rw [sameName, (lookup_eq_some distinct).mpr ⟨parentIn, rfl⟩]
            at foundParent
          cases foundParent
      | some parent =>
          have isStored := (stored parentId).mpr ⟨named, parent,
            (lookup_eq_some distinct).mp foundParent⟩
          obtain ⟨again, climbs, leads, grounded⟩ :=
            @meetsAgain_spec _ distinct (tags.length + 1) [] tag member trivial
              (List.nodup_singleton _) (List.cons_subset.mpr
                ⟨List.mem_map_of_mem member, List.nil_subset _⟩)
              (by rw [List.length_nil]; omega)
          rw [Option.isNone_some, if_neg Bool.false_ne_true, climbs,
            Option.map_some]
          cases again with
          | true => exact ⟨none, rfl, .inr ⟨rfl, leads rfl⟩⟩
          | false =>
              exact ⟨some parentId, rfl, .inl ⟨isStored.symm, grounded rfl⟩⟩

/-! ## The nodes and their parents -/

/-- The nodes of tags. -/
abbrev nodesOf
    (statistics : List Statistics)
    (tags : List Tag) : List TagNode :=
  tags.map (toNode statistics)

/-- The node under which a node is put. -/
def parentNode
    (tags : List Tag)
    (statistics : List Statistics)
    (node : TagNode) : Option TagNode :=
  (((resolveParentId tags node.id).getD none).bind
    (lookup Tag.id tags)).map (toNode statistics)

theorem nodup_nodesOf
    (distinct : (ids tags).Nodup) :
    (nodesOf statistics tags).Nodup := by
  refine List.Nodup.of_map TagNode.id ?_
  rwa [List.map_map]

theorem mapM_eq_map
    {Entry Result : Type}
    {attempt : Entry → Option Result}
    {result : Entry → Result}
    {entries : List Entry}
    (each : ∀ entry ∈ entries, attempt entry = some (result entry)) :
    entries.mapM attempt = some (entries.map result) := by
  induction entries with
  | nil =>
      rfl
  | cons entry entries inductionHypothesis =>
      obtain ⟨here, others⟩ := List.forall_mem_cons.mp each
      rw [List.mapM_cons, here, inductionHypothesis others]
      rfl

theorem link_eq
    (distinct : (ids tags).Nodup) :
    link statistics tags = some ((nodesOf statistics tags).map fun node =>
      (node, parentNode tags statistics node)) := by
  have each : ∀ tag ∈ tags,
      ((resolveParentId tags tag.id).map fun parentId =>
        (toNode statistics tag, (parentId.bind (lookup Tag.id tags)).map
          (toNode statistics))) =
      some (toNode statistics tag,
        parentNode tags statistics (toNode statistics tag)) := by
    intro tag member
    obtain ⟨parentId, resolved, -⟩ := resolveParentId_spec distinct member
    rw [resolved, parentNode, show (toNode statistics tag).id = tag.id from rfl,
      resolved]
    rfl
  rw [link, mapM_eq_map each, List.map_map]
  rfl

variable {above node : TagNode}

theorem parentNode_eq_some
    (distinct : (ids tags).Nodup)
    {tag : Tag}
    (member : tag ∈ tags) :
    parentNode tags statistics (toNode statistics tag) = some above ↔
      Grounded (storedParent tags) tag.id ∧
        ∃ parent ∈ tags, toNode statistics parent = above ∧
          storedParent tags tag.id = some parent.id := by
  obtain ⟨parentId, resolved, place⟩ := resolveParentId_spec distinct member
  rw [parentNode, show (toNode statistics tag).id = tag.id from rfl, resolved,
    Option.getD_some, Option.map_eq_some_iff]
  rcases place with ⟨rfl, grounded⟩ | ⟨rfl, leads⟩
  · constructor
    · rintro ⟨parent, found, rfl⟩
      obtain ⟨id, stored, found⟩ := Option.bind_eq_some_iff.mp found
      obtain ⟨parentIn, rfl⟩ := (lookup_eq_some distinct).mp found
      exact ⟨grounded, parent, parentIn, rfl, stored⟩
    · rintro ⟨-, parent, parentIn, rfl, stored⟩
      refine ⟨parent, ?_, rfl⟩
      rw [stored, Option.bind_some]
      exact (lookup_eq_some distinct).mpr ⟨parentIn, rfl⟩
  · constructor
    · rintro ⟨parent, found, -⟩
      nomatch found
    · rintro ⟨grounded, -⟩
      obtain ⟨above, reaches, onCycle⟩ := leads
      exact absurd onCycle (grounded.above reaches).not_onCycle

theorem parentNode_eq_none
    (distinct : (ids tags).Nodup)
    {tag : Tag}
    (member : tag ∈ tags) :
    parentNode tags statistics (toNode statistics tag) = none ↔
      storedParent tags tag.id = none ∨ LeadsIntoCycle tags tag.id := by
  obtain ⟨parentId, resolved, place⟩ := resolveParentId_spec distinct member
  rw [Option.eq_none_iff_forall_ne_some]
  constructor
  · intro noParent
    rcases place with ⟨-, grounded⟩ | ⟨-, leads⟩
    · refine .inl (Option.eq_none_iff_forall_ne_some.mpr ?_)
      intro id stored
      obtain ⟨-, parent, parentIn, rfl⟩ :=
        (storedParent_eq_some distinct member).mp stored
      exact noParent _ ((parentNode_eq_some distinct member).mpr
        ⟨grounded, parent, parentIn, rfl, stored⟩)
    · exact .inr leads
  · rintro isRoot above isParent
    obtain ⟨grounded, parent, -, -, stored⟩ :=
      (parentNode_eq_some distinct member).mp isParent
    rcases isRoot with noParent | ⟨above, reaches, onCycle⟩
    · rw [noParent] at stored
      nomatch stored
    · exact (grounded.above reaches).not_onCycle onCycle

theorem grounded_parentNode
    (distinct : (ids tags).Nodup)
    (member : node ∈ nodesOf statistics tags) :
    Grounded (parentNode tags statistics) node := by
  refine Grounded.of_parent fun above names => ?_
  obtain ⟨tag, tagIn, rfl⟩ := List.mem_map.mp member
  obtain ⟨grounded, parent, parentIn, rfl, stored⟩ :=
    (parentNode_eq_some distinct tagIn).mp names
  refine Grounded.comap TagNode.id (nodesOf statistics tags) ?_
    (List.mem_map_of_mem parentIn)
    (grounded.above (Relation.ReflTransGen.single stored))
  intro other otherIn named namesNamed
  obtain ⟨otherTag, otherTagIn, rfl⟩ := List.mem_map.mp otherIn
  obtain ⟨-, namedTag, namedTagIn, rfl, storedOther⟩ :=
    (parentNode_eq_some distinct otherTagIn).mp namesNamed
  exact ⟨List.mem_map_of_mem namedTagIn, storedOther⟩

/-! ## Places -/

mutual

/-- A tree with the paths and the depths of its places. -/
def place
    (ancestors : List String)
    (depth : ℕ) : ItemTree TagNode → ItemTree Placed
  | .node item children =>
      .node ⟨item, ancestors ++ [item.name], depth⟩
        (placeAll (ancestors ++ [item.name]) (depth + 1) children)

/-- Trees with the paths and the depths of their places. -/
def placeAll
    (ancestors : List String)
    (depth : ℕ) : List (ItemTree TagNode) → List (ItemTree Placed)
  | [] =>
      []
  | tree :: rest =>
      place ancestors depth tree :: placeAll ancestors depth rest

end

theorem placeAll_eq_map
    (ancestors : List String)
    (depth : ℕ)
    (trees : List (ItemTree TagNode)) :
    placeAll ancestors depth trees = trees.map (place ancestors depth) := by
  induction trees with
  | nil =>
      rw [placeAll, List.map_nil]
  | cons tree rest inductionHypothesis =>
      rw [placeAll, inductionHypothesis, List.map_cons]

theorem mapM_map
    {Entry Middle Result : Type}
    (attempt : Entry → Option Middle)
    (make : Middle → Result)
    (entries : List Entry) :
    (entries.mapM fun entry => (attempt entry).map make) =
      (entries.mapM attempt).map (List.map make) := by
  induction entries with
  | nil =>
      rfl
  | cons entry entries inductionHypothesis =>
      rw [List.mapM_cons, List.mapM_cons, inductionHypothesis]
      cases attempt entry with
      | none => rfl
      | some middle =>
          cases entries.mapM attempt <;> rfl

theorem assignPath_eq
    (children : TagNode → List TagNode)
    (fuel : ℕ)
    (ancestors : List String)
    (depth : ℕ) :
    assignPath children fuel ancestors depth = fun node =>
      (grow children fuel node).map (place ancestors depth) := by
  induction fuel generalizing ancestors depth with
  | zero =>
      rfl
  | succ fuel inductionHypothesis =>
      funext node
      rw [assignPath, grow, inductionHypothesis, mapM_map, Option.map_map,
        Option.map_map]
      refine congrArg (Option.map · _) (funext fun trees => ?_)
      rw [Function.comp_apply, Function.comp_apply, place, placeAll_eq_map]

theorem item_place
    (ancestors : List String)
    (depth : ℕ)
    (tree : ItemTree TagNode) :
    (place ancestors depth tree).item.node = tree.item := by
  cases tree
  rw [place]
  rfl

mutual

theorem items_place
    (ancestors : List String)
    (depth : ℕ) : (tree : ItemTree TagNode) →
      (place ancestors depth tree).items.map Placed.node = tree.items
  | .node item children => by
      rw [place, ItemTree.items, ItemTree.items, List.map_cons,
        itemsOf_placeAll]

theorem itemsOf_placeAll
    (ancestors : List String)
    (depth : ℕ) : (trees : List (ItemTree TagNode)) →
      (itemsOf (placeAll ancestors depth trees)).map Placed.node =
        itemsOf trees
  | [] => by
      rw [placeAll, itemsOf, itemsOf, List.map_nil]
  | tree :: rest => by
      rw [placeAll, itemsOf, itemsOf, List.map_append, items_place,
        itemsOf_placeAll]

end

mutual

theorem isPlaced_place
    (ancestors : List String)
    (depth : ℕ) : (tree : ItemTree TagNode) →
      IsPlaced ancestors depth (place ancestors depth tree)
  | .node item children => by
      rw [place, IsPlaced]
      exact ⟨rfl, rfl, arePlaced_placeAll _ _ children⟩

theorem arePlaced_placeAll
    (ancestors : List String)
    (depth : ℕ) : (trees : List (ItemTree TagNode)) →
      ArePlaced ancestors depth (placeAll ancestors depth trees)
  | [] => by
      rw [placeAll, ArePlaced]
      trivial
  | tree :: rest => by
      rw [placeAll, ArePlaced]
      exact ⟨isPlaced_place _ _ tree, arePlaced_placeAll _ _ rest⟩

end

mutual

theorem hangs_place
    {names : TagNode → TagNode → Prop}
    (ancestors : List String)
    (depth : ℕ) : (tree : ItemTree TagNode) → tree.Hangs names →
      (place ancestors depth tree).Hangs fun child above =>
        names child.node above.node
  | .node item children, hangs => by
      rw [ItemTree.Hangs] at hangs
      rw [place, ItemTree.Hangs]
      exact hangBelow_placeAll _ _ ⟨item, _, _⟩ children hangs

theorem hangBelow_placeAll
    {names : TagNode → TagNode → Prop}
    (ancestors : List String)
    (depth : ℕ)
    (above : Placed) : (trees : List (ItemTree TagNode)) →
      HangBelow names above.node trees →
        HangBelow (fun child above => names child.node above.node) above
          (placeAll ancestors depth trees)
  | [], _ => by
      rw [placeAll, HangBelow]
      trivial
  | tree :: rest, hang => by
      rw [HangBelow] at hang
      rw [placeAll, HangBelow]
      refine ⟨?_, hangs_place _ _ tree hang.2.1,
        hangBelow_placeAll _ _ above rest hang.2.2⟩
      rw [item_place]
      exact hang.1

end

/-! ## The forest -/

variable {nodes : List TagNode}

theorem mem_childrenOf
    {parent : TagNode → Option TagNode} :
    node ∈ childrenOf (nodes.map fun node => (node, parent node)) above ↔
      node ∈ nodes ∧ parent node = some above := by
  rw [childrenOf, List.filter_map, List.map_map, List.mem_map]
  constructor
  · rintro ⟨other, isChild, rfl⟩
    obtain ⟨member, named⟩ := List.mem_filter.mp isChild
    exact ⟨member, of_decide_eq_true named⟩
  · rintro ⟨member, named⟩
    exact ⟨node, List.mem_filter.mpr ⟨member, decide_eq_true named⟩, rfl⟩

theorem mem_rootsOf
    {parent : TagNode → Option TagNode} :
    node ∈ rootsOf (nodes.map fun node => (node, parent node)) ↔
      node ∈ nodes ∧ parent node = none := by
  rw [rootsOf, List.filter_map, List.map_map, List.mem_map]
  constructor
  · rintro ⟨other, isRoot, rfl⟩
    obtain ⟨member, noParent⟩ := List.mem_filter.mp isRoot
    exact ⟨member, of_decide_eq_true noParent⟩
  · rintro ⟨member, noParent⟩
    exact ⟨node, List.mem_filter.mpr ⟨member, decide_eq_true noParent⟩, rfl⟩

theorem nodup_linked
    (nodup : nodes.Nodup)
    (parent : TagNode → Option TagNode)
    (holds : Linked → Bool) :
    (((nodes.map fun node => (node, parent node)).filter holds).map
      Prod.fst).Nodup := by
  rw [List.filter_map, List.map_map]
  exact (nodup.filter _).map fun _ _ same => same

theorem storedParent_of_parentNode
    (distinct : (ids tags).Nodup)
    (names : parentNode tags statistics node = some above) :
    storedParent tags node.id = some above.id := by
  cases found : lookup Tag.id tags node.id with
  | none =>
      rw [parentNode, resolveParentId, found] at names
      nomatch names
  | some tag =>
      obtain ⟨member, sameId⟩ := (lookup_eq_some distinct).mp found
      have sameNames : parentNode tags statistics (toNode statistics tag) =
          some above := by
        rw [← names, parentNode, parentNode, ← sameId]
        rfl
      obtain ⟨-, parent, -, rfl, stored⟩ :=
        (parentNode_eq_some distinct member).mp sameNames
      rw [← sameId]
      exact stored

theorem exists_of_mapM
    {Entry Result : Type}
    {attempt : Entry → Option Result}
    {entries : List Entry}
    {results : List Result}
    (succeeds : entries.mapM attempt = some results)
    {entry : Entry}
    (member : entry ∈ entries) :
    ∃ result ∈ results, attempt entry = some result := by
  induction entries generalizing results with
  | nil =>
      exact nomatch member
  | cons first entries inductionHypothesis =>
      rw [List.mapM_cons] at succeeds
      obtain ⟨result, here, others⟩ := Option.bind_eq_some_iff.mp succeeds
      obtain ⟨rest, succeedsLater, isResult⟩ :=
        Option.bind_eq_some_iff.mp others
      cases isResult
      rcases List.mem_cons.mp member with rfl | isLater
      · exact ⟨result, List.mem_cons_self, here⟩
      · obtain ⟨found, isFound, hasResult⟩ :=
          inductionHypothesis succeedsLater isLater
        exact ⟨found, List.mem_cons_of_mem _ isFound, hasResult⟩

theorem item_of_grow
    {children : TagNode → List TagNode}
    {fuel : ℕ}
    {tree : ItemTree TagNode}
    (grown : grow children fuel node = some tree) :
    tree.item = node := by
  cases fuel with
  | zero =>
      nomatch grown
  | succ fuel =>
      obtain ⟨trees, -, rfl⟩ := Option.map_eq_some_iff.mp grown
      rfl

/-- The forest of tags with different ids, and which of them are its roots. -/
theorem buildTagTree_spec
    (localeCompare : String → String → Ordering)
    (distinct : (ids tags).Nodup)
    (statistics : List Statistics) :
    ∃ forest, buildTagTree localeCompare tags statistics = some forest ∧
      IsForest tags statistics forest ∧
        ∀ tag ∈ tags, LeadsIntoCycle tags tag.id →
          ∃ tree ∈ forest, tree.item.node.id = tag.id := by
  let nodes := nodesOf statistics tags
  let parent := parentNode tags statistics
  let linked : List Linked := nodes.map fun node => (node, parent node)
  let sorted (nodes : List TagNode) : List TagNode :=
    nodes.mergeSort fun first second =>
      (compareNodes localeCompare first second).isLE
  have permutes : ∀ nodes, (sorted nodes).Perm nodes :=
    fun nodes => List.mergeSort_perm nodes _
  have nodup : nodes.Nodup := nodup_nodesOf distinct
  have areChildren : AreChildren parent nodes
      fun node => sorted (childrenOf linked node) :=
    { mem := fun above _ node =>
        (permutes _).mem_iff.trans mem_childrenOf
      nodup := fun above =>
        (permutes _).nodup_iff.mpr (nodup_linked nodup parent _) }
  have isClosed : IsClosedUp parent nodes := by
    intro node member above names
    obtain ⟨tag, tagIn, rfl⟩ := List.mem_map.mp member
    obtain ⟨-, other, otherIn, rfl, -⟩ :=
      (parentNode_eq_some distinct tagIn).mp names
    exact List.mem_map_of_mem otherIn
  have isRoot : ∀ node, node ∈ sorted (rootsOf linked) ↔
      node ∈ nodes ∧ parent node = none :=
    fun node => (permutes _).mem_iff.trans mem_rootsOf
  obtain ⟨trees, grows, areTrees, once, mem⟩ := forest_spec areChildren
    isClosed (fun node => grounded_parentNode distinct) isRoot
    ((permutes _).nodup_iff.mpr (nodup_linked nodup parent _))
  have topOf : ∀ tree ∈ placeAll [] 0 trees, ∃ tag ∈ tags,
      tree.item.node = toNode statistics tag ∧
        (storedParent tags tag.id = none ∨ LeadsIntoCycle tags tag.id) := by
    intro tree member
    rw [placeAll_eq_map] at member
    obtain ⟨grown, isGrown, rfl⟩ := List.mem_map.mp member
    obtain ⟨root, rootIn, isTree⟩ := areTrees grown isGrown
    obtain ⟨isNode, noParent⟩ := (isRoot root).mp rootIn
    obtain ⟨tag, tagIn, rfl⟩ := List.mem_map.mp isNode
    exact ⟨tag, tagIn, (item_place _ _ _).trans isTree.item,
      (parentNode_eq_none distinct tagIn).mp noParent⟩
  refine ⟨placeAll [] 0 trees, ?_, ⟨?_, arePlaced_placeAll _ _ _, ?_, ?_⟩, ?_⟩
  · rw [buildTagTree, link_eq distinct]
    change (sorted (rootsOf linked)).mapM (assignPath _ tags.length [] 0) = _
    rw [assignPath_eq, mapM_map, placeAll_eq_map]
    have enough : nodes.length = tags.length := List.length_map _
    rw [enough] at grows
    rw [grows, Option.map_some]
  · rw [itemsOf_placeAll]
    exact (List.perm_ext_iff_of_nodup once nodup).mpr mem
  · intro tree member
    rw [placeAll_eq_map] at member
    obtain ⟨grown, isGrown, rfl⟩ := List.mem_map.mp member
    obtain ⟨root, rootIn, isTree⟩ := areTrees grown isGrown
    refine ItemTree.Hangs.mono (fun child above names => ?_) _
      (hangs_place _ _ grown isTree.hangs)
    exact storedParent_of_parentNode distinct names
  · intro tree member
    obtain ⟨tag, tagIn, isTop, isRooted⟩ := topOf tree member
    rw [isTop]
    exact isRooted
  · intro tag member leads
    have noParent := (@parentNode_eq_none _ statistics distinct _
      member).mpr (.inr leads)
    have rootIn := (isRoot (toNode statistics tag)).mpr
      ⟨List.mem_map_of_mem member, noParent⟩
    obtain ⟨tree, isTree, grown⟩ := exists_of_mapM grows rootIn
    refine ⟨place [] 0 tree, ?_, ?_⟩
    · rw [placeAll_eq_map]
      exact List.mem_map_of_mem isTree
    · rw [item_place, item_of_grow grown]
      rfl

/-- No tag leads into a cycle without being on it. -/
def CyclesStandAlone (tags : List Tag) : Prop :=
  ∀ tag ∈ tags, LeadsIntoCycle tags tag.id →
    OnCycle (storedParent tags) tag.id

theorem LeadsIntoCycle.exists_tag
    (distinct : (ids tags).Nodup)
    {id : String}
    (leads : LeadsIntoCycle tags id) :
    ∃ tag ∈ tags, tag.id = id := by
  obtain ⟨above, reaches, onCycle⟩ := leads
  cases stored : storedParent tags id with
  | none =>
      obtain rfl := eq_of_root stored reaches
      obtain ⟨named, names, -⟩ := Relation.TransGen.head'_iff.mp onCycle
      nomatch stored.symm.trans names
  | some parentId =>
      obtain ⟨tag, member, isTag, -⟩ := exists_of_storedParent distinct stored
      exact ⟨tag, member, isTag⟩

/-- Only tags without a parent and those on a cycle are roots exactly if no
other tag leads into a cycle. -/
theorem treeLaws_iff
    (localeCompare : String → String → Ordering)
    (tags : Tags)
    (statistics : List Statistics) :
    TreeLaws localeCompare tags.list statistics ↔
      CyclesStandAlone tags.list := by
  obtain ⟨forest, builds, isForest, rooted⟩ :=
    buildTagTree_spec localeCompare tags.distinct statistics
  refine ⟨?_, fun standAlone => ?_⟩
  · rintro ⟨other, buildsOther, -, tops⟩ tag member leads
    obtain rfl := Option.some.inj (builds.symm.trans buildsOther)
    obtain ⟨tree, isTree, isTag⟩ := rooted tag member leads
    rcases tops tree isTree with noParent | onCycle
    · obtain ⟨above, reaches, onCycle⟩ := leads
      rw [isTag] at noParent
      rwa [eq_of_root noParent reaches]
    · rwa [← isTag]
  · refine ⟨forest, builds, isForest, fun tree isTree => ?_⟩
    rcases isForest.tops tree isTree with noParent | leads
    · exact .inl noParent
    · obtain ⟨tag, member, isTag⟩ :=
        LeadsIntoCycle.exists_tag tags.distinct leads
      rw [← isTag] at leads ⊢
      exact .inr (standAlone tag member leads)

/-- Two tags that name each other as parents, and one below them. -/
def besideCycle : List Tag :=
  [⟨"a", "A", "A", none, some "b"⟩, ⟨"b", "B", "B", none, some "a"⟩,
    ⟨"c", "C", "C", none, some "a"⟩]

/-- A tag below a cycle becomes a root though its parent is there and it is on
no cycle. -/
theorem below_cycle_is_root :
    ¬ TreeLaws compare besideCycle [] := by
  rintro ⟨forest, builds, -, tops⟩
  have distinct : (ids besideCycle).Nodup := by decide
  obtain ⟨other, buildsOther, -, rooted⟩ :=
    buildTagTree_spec compare distinct []
  obtain rfl := Option.some.inj (builds.symm.trans buildsOther)
  have toSecond : storedParent besideCycle "a" = some "b" := by decide
  have toFirst : storedParent besideCycle "b" = some "a" := by decide
  have stored : storedParent besideCycle "c" = some "a" := by decide
  have onCycle : OnCycle (storedParent besideCycle) "a" :=
    .head toSecond (.single toFirst)
  obtain ⟨tree, isTree, isTag⟩ := rooted
    ⟨"c", "C", "C", none, some "a"⟩ (by decide) ⟨"a", .single stored, onCycle⟩
  rcases tops tree isTree with noParent | onCycle
  · rw [isTag, stored] at noParent
    nomatch noParent
  · rw [isTag] at onCycle
    obtain ⟨below, -, names⟩ := Relation.TransGen.tail'_iff.mp onCycle
    obtain ⟨tag, member, -, named, -⟩ := exists_of_storedParent distinct names
    revert tag
    decide

end Frameleaf.TagTree
