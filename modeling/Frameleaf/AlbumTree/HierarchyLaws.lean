import Frameleaf.Lib.ParentForest
import Mathlib.Algebra.Group.Int.Defs
import Mathlib.Data.List.Sort

namespace Frameleaf.AlbumTree

open ParentGraph

/-!
# The recursive view of albums

Albums name parents that may be absent, spaces, or below the album itself.  A
link that cannot be shown is dropped, one link of each cycle is cut where a
climb meets itself, and what is left is grown into a forest.
-/

/-- What an album is. -/
inductive AlbumKind where
  | album
  | collection
  | space
  deriving DecidableEq

/-- An album, with whatever else is shown of it. -/
structure Album (Content : Type) where
  id : String
  parentId : Option String
  kind : AlbumKind
  content : Content

variable {Content : Type}

/-- The ids of albums. -/
def ids
    (albums : List (Album Content)) : List String :=
  albums.map Album.id

/-- Albums of different ids. -/
structure Albums (Content : Type) where
  list : List (Album Content)
  /-- No id is there twice. -/
  distinct : (ids list).Nodup

/-- The node of an id. -/
def nodeOf
    (nodes : List (Album Content))
    (id : String) : Option (Album Content) :=
  nodes.find? (·.id = id)

/-- The node that an album names as its parent; an empty name is none. -/
def parentNode
    (nodes : List (Album Content))
    (album : Album Content) : Option (Album Content) :=
  (album.parentId.filter (· ≠ "")).bind (nodeOf nodes)

/-- An album without its parent, unless the parent is there and neither of
them is a space. -/
def detach
    (nodes : List (Album Content))
    (album : Album Content) : Album Content :=
  match parentNode nodes album with
  | none =>
      { album with parentId := none }
  | some parent =>
      if album.kind = .space ∨ parent.kind = .space then
        { album with parentId := none }
      else
        album

/-- The id that the node of an id names as its parent. -/
def parentOf
    (nodes : List (Album Content))
    (id : String) : Option String :=
  (nodeOf nodes id).bind Album.parentId

/-- Nodes in which one does not name a parent any more. -/
def cut
    (nodes : List (Album Content))
    (id : String) : List (Album Content) :=
  nodes.map fun node =>
    if node.id = id then { node with parentId := none } else node

/-- Climb from each id that was not checked, and cut the link of the node in
which a climb meets itself.  There is no result when a climb goes on, or when a
node is missing on its way. -/
def breakCycles :
    List (Album Content) → List String → List String →
      Option (List (Album Content))
  | nodes, _, [] =>
      some nodes
  | nodes, checked, id :: rest =>
      match climbFrom (parentOf nodes) (ids nodes) checked
          (nodes.length + 1) [] id with
      | none | some (_, .unknown _) =>
          none
      | some (path, .cycle met) =>
          breakCycles (cut nodes met) (path ++ checked) rest
      | some (path, .root) | some (path, .settled) =>
          breakCycles nodes (path ++ checked) rest

/-- The greatest integer that a number holds exactly with its neighbours. -/
def MAX_SAFE_INTEGER : ℤ := 2 ^ 53 - 1

/-- The place of an album among others. -/
def position
    (positions : String → Option ℤ)
    (album : Album Content) : ℤ :=
  (positions album.id).getD MAX_SAFE_INTEGER

/-- The nodes that are pushed to the children of a node. -/
def childrenOf
    (nodes ordered : List (Album Content))
    (above : Album Content) : List (Album Content) :=
  ordered.filter fun node =>
    (parentNode nodes node).map Album.id = some above.id

/-- The nodes that are pushed to the roots. -/
def rootsOf
    (nodes ordered : List (Album Content)) : List (Album Content) :=
  ordered.filter fun node => (parentNode nodes node).isNone

/-- Build the recursive view. -/
def buildAlbumHierarchy
    (albums : List (Album Content))
    (positions : String → Option ℤ) : Option (List (ItemTree (Album Content))) := do
  let nodes ← breakCycles (albums.map (detach albums)) [] (ids albums)
  let ordered := nodes.insertionSort fun first second =>
    position positions first ≤ position positions second
  (rootsOf nodes ordered).mapM (grow (childrenOf nodes ordered) nodes.length)

open ParentGraph

/-!
# The view shows every album once

Cutting keeps what was checked grounded, so that at the end every climb ends.
A cut lies on a cycle of the links that can be shown, two cuts never lie on the
same one, and a cycle without a cut would still be there.
-/

variable {Content : Type}

/-- A stored link that can be shown: the parent is there and neither end is a
space. -/
structure CanBeShown
    (albums : List (Album Content))
    (album : Album Content)
    (parentId : String) : Prop where
  stored : album.parentId = some parentId
  nonempty : parentId ≠ ""
  noSpace : album.kind ≠ .space
  present : ∃ parent ∈ albums, parent.id = parentId ∧ parent.kind ≠ .space

/-- The links that can be shown, by the ids of the albums. -/
def linkOf
    (albums : List (Album Content)) : String → Option String :=
  parentOf (albums.map (detach albums))

/-- An album as it is shown when the links of some albums are cut. -/
def shown
    (albums : List (Album Content))
    (cuts : List String)
    (album : Album Content) : Album Content :=
  { album with
    parentId := if album.id ∈ cuts then none else linkOf albums album.id }

/-- A forest shows albums with the links of some of them cut. -/
structure IsView
    (albums : List (Album Content))
    (cuts : List String)
    (forest : List (ItemTree (Album Content))) : Prop where
  /-- Every album is there exactly once. -/
  once : (itemsOf forest).Perm (albums.map (shown albums cuts))
  /-- Each stands right below the album that it names. -/
  hangs : ∀ tree ∈ forest,
    tree.Hangs fun child above => child.parentId = some above.id
  /-- Those at the top name no parent. -/
  tops : ∀ tree ∈ forest, tree.item.parentId = none
  /-- Only links of cycles are cut. -/
  cutOnCycle : ∀ id ∈ cuts, OnCycle (linkOf albums) id
  /-- Of each cycle exactly one link is cut. -/
  cutOnce : ∀ id, OnCycle (linkOf albums) id →
    ∃! place, place ∈ cuts ∧ Reaches (linkOf albums) id place

/-- What building the view does. -/
structure HierarchyLaws
    (albums : Albums Content)
    (positions : String → Option ℤ) : Prop where
  /-- The links are the stored ones that can be shown. -/
  links : ∀ id parentId, linkOf albums.list id = some parentId ↔
    ∃ album ∈ albums.list, album.id = id ∧
      CanBeShown albums.list album parentId
  /-- There is a result, and it is a view of the albums. -/
  view : ∃ forest cuts,
    buildAlbumHierarchy albums.list positions = some forest ∧
      IsView albums.list cuts forest

variable {nodes ordered : List (Album Content)}

variable {id : String}

theorem nodeOf_eq_some
    (distinct : (ids nodes).Nodup)
    {node : Album Content} :
    nodeOf nodes id = some node ↔ node ∈ nodes ∧ node.id = id := by
  constructor
  · intro found
    exact ⟨List.mem_of_find?_eq_some found, by simpa using List.find?_some found⟩
  · rintro ⟨member, rfl⟩
    cases search : nodeOf nodes node.id with
    | none =>
        have absent := List.find?_eq_none.mp search node member
        simp at absent
    | some other =>
        have otherIn := List.mem_of_find?_eq_some search
        have sameId : other.id = node.id := by
          simpa using List.find?_some search
        rw [List.inj_on_of_nodup_map distinct otherIn member sameId]

theorem parentNode_eq_some
    (distinct : (ids nodes).Nodup)
    {node parent : Album Content} :
    parentNode nodes node = some parent ↔
      node.parentId = some parent.id ∧ parent.id ≠ "" ∧ parent ∈ nodes := by
  rw [parentNode, Option.bind_eq_some_iff]
  constructor
  · rintro ⟨id, named, found⟩
    obtain ⟨namedId, nonempty⟩ := Option.filter_eq_some_iff.mp named
    obtain ⟨member, rfl⟩ := (nodeOf_eq_some distinct).mp found
    exact ⟨namedId, by simpa using nonempty, member⟩
  · rintro ⟨named, nonempty, member⟩
    exact ⟨parent.id, Option.filter_eq_some_iff.mpr ⟨named, by simpa⟩,
      (nodeOf_eq_some distinct).mpr ⟨member, rfl⟩⟩

theorem ids_detach
    (albums : List (Album Content)) :
    ids (albums.map (detach albums)) = ids albums := by
  rw [ids, List.map_map]
  refine List.map_congr_left fun album _ => ?_
  rw [Function.comp_apply, detach]
  split
  · rfl
  · split <;> rfl

variable {albums : List (Album Content)}

theorem detach_parentId
    (distinct : (ids albums).Nodup)
    (album : Album Content)
    (parentId : String) :
    (detach albums album).parentId = some parentId ↔
      CanBeShown albums album parentId := by
  unfold detach
  cases found : parentNode albums album with
  | none =>
      refine ⟨by rintro ⟨⟩, fun shows => ?_⟩
      obtain ⟨parent, member, rfl, _⟩ := shows.present
      have named := (parentNode_eq_some distinct).mpr
        ⟨shows.stored, shows.nonempty, member⟩
      rw [found] at named
      cases named
  | some parent =>
      obtain ⟨named, nonempty, member⟩ := (parentNode_eq_some distinct).mp found
      dsimp only
      split
      · next isSpace =>
          refine ⟨by rintro ⟨⟩, fun shows => ?_⟩
          obtain ⟨other, otherIn, sameId, notSpace⟩ := shows.present
          have sameParent : parent.id = other.id :=
            Option.some.inj (named.symm.trans (shows.stored.trans
              (congrArg some sameId.symm)))
          rw [List.inj_on_of_nodup_map distinct member otherIn sameParent]
            at isSpace
          exact (isSpace.elim shows.noSpace notSpace).elim
      · next noSpace =>
          push Not at noSpace
          constructor
          · intro stored
            obtain rfl := Option.some.inj (named.symm.trans stored)
            exact ⟨stored, nonempty, noSpace.1, parent, member, rfl, noSpace.2⟩
          · exact fun shows => shows.stored

theorem linkOf_id
    (distinct : (ids albums).Nodup)
    {album : Album Content}
    (member : album ∈ albums) :
    linkOf albums album.id = (detach albums album).parentId := by
  have sameIds := ids_detach albums
  have detachedId : (detach albums album).id = album.id := by
    unfold detach
    split
    · rfl
    · split <;> rfl
  have found : nodeOf (albums.map (detach albums)) album.id =
      some (detach albums album) :=
    (nodeOf_eq_some (by rwa [sameIds])).mpr
      ⟨List.mem_map_of_mem member, detachedId⟩
  rw [linkOf, parentOf, found]
  rfl

theorem linkOf_eq_some
    (distinct : (ids albums).Nodup)
    (id parentId : String) :
    linkOf albums id = some parentId ↔
      ∃ album ∈ albums, album.id = id ∧ CanBeShown albums album parentId := by
  constructor
  · intro linked
    have isThere : id ∈ ids albums := by
      rw [linkOf, parentOf, Option.bind_eq_some_iff] at linked
      obtain ⟨node, found, _⟩ := linked
      rw [← ids_detach albums]
      have inNodes := List.mem_of_find?_eq_some found
      have sameId : node.id = id := by simpa using List.find?_some found
      exact sameId ▸ List.mem_map_of_mem inNodes
    obtain ⟨album, member, rfl⟩ := List.mem_map.mp isThere
    rw [linkOf_id distinct member] at linked
    exact ⟨album, member, rfl, (detach_parentId distinct album parentId).mp linked⟩
  · rintro ⟨album, member, rfl, shows⟩
    rw [linkOf_id distinct member]
    exact (detach_parentId distinct album parentId).mpr shows

/-- A node without its parent when it is one of some. -/
def cutNode
    (cuts : List String)
    (node : Album Content) : Album Content :=
  { node with parentId := if node.id ∈ cuts then none else node.parentId }

/-- Nodes in which some do not name a parent any more. -/
def cutAll
    (nodes : List (Album Content))
    (cuts : List String) : List (Album Content) :=
  nodes.map (cutNode cuts)

theorem cutAll_nil :
    cutAll nodes [] = nodes := by
  exact List.map_id nodes

theorem cut_cutAll
    (cuts : List String)
    (id : String) :
    cut (cutAll nodes cuts) id = cutAll nodes (id :: cuts) := by
  rw [cut, cutAll, cutAll, List.map_map]
  refine List.map_congr_left fun node _ => ?_
  by_cases same : node.id = id <;> simp [cutNode, same]

/-- Cutting keeps the ids. -/
@[simp] theorem ids_cutAll
    (cuts : List String) :
    ids (cutAll nodes cuts) = ids nodes := by
  rw [ids, cutAll, List.map_map]
  rfl

theorem parentOf_cutAll
    (cuts : List String)
    (id : String) :
    parentOf (cutAll nodes cuts) id =
      if id ∈ cuts then none else parentOf nodes id := by
  have sameSearch : nodeOf (cutAll nodes cuts) id =
      (nodeOf nodes id).map (cutNode cuts) := by
    rw [nodeOf, cutAll, List.find?_map]
    rfl
  rw [parentOf, sameSearch, parentOf]
  cases found : nodeOf nodes id with
  | none =>
      simp
  | some node =>
      have sameId : node.id = id := by simpa using List.find?_some found
      simp [cutNode, sameId]

/-- The ids that were checked are grounded by the cuts that were made. -/
structure Broken
    (nodes : List (Album Content))
    (checked cuts : List String) : Prop where
  grounded : ∀ id ∈ checked, Grounded (parentOf (cutAll nodes cuts)) id
  closed : IsClosedUp (parentOf (cutAll nodes cuts)) checked
  known : ∀ id ∈ checked, id ∈ ids nodes
  cutsChecked : ∀ id ∈ cuts, id ∈ checked
  cutOnCycle : ∀ id ∈ cuts, OnCycle (parentOf nodes) id
  apart : ∀ first ∈ cuts, ∀ second ∈ cuts,
    Reaches (parentOf nodes) first second → first = second

theorem broken_nil :
    Broken nodes [] [] := by
  constructor <;> simp [IsClosedUp]

variable {cuts checked path : List String}

theorem names_of_cutAll
    {named : String}
    (names : Names (parentOf (cutAll nodes cuts)) id named) :
    Names (parentOf nodes) id named := by
  rw [Names, parentOf_cutAll] at names
  split at names
  · cases names
  · exact names

/-- A climb that comes to a root or to what was checked grounds its path. -/
theorem Broken.append
    {reached : End String}
    (broken : Broken nodes checked cuts)
    (hasClimbed : HasClimbed (parentOf (cutAll nodes cuts)) (ids nodes) checked
      [] path id reached)
    (endsWell : reached = .root ∨ reached = .settled) :
    Broken nodes (path ++ checked) cuts := by
  have ends := hasClimbed.ends
  have both : (∀ other ∈ path,
        Grounded (parentOf (cutAll nodes cuts)) other) ∧
      ∀ other ∈ path, ∀ named,
        parentOf (cutAll nodes cuts) other = some named →
          named ∈ path ++ checked := by
    rcases endsWell with rfl | rfl
    · obtain ⟨top, rest, rfl, isRoot, climb⟩ := ends
      have topGrounded : Grounded (parentOf (cutAll nodes cuts)) top :=
        Grounded.of_parent fun named names => by
          cases isRoot.symm.trans names
      refine ⟨fun other member => ?_, fun other member named names => ?_⟩
      · rcases List.mem_cons.mp member with rfl | inRest
        · exact topGrounded
        · exact climb.grounded topGrounded (fun _ _ => .inl rfl) inRest
      · rcases List.mem_cons.mp member with rfl | inRest
        · cases isRoot.symm.trans names
        · obtain ⟨next, link, place⟩ := climb.names inRest
          obtain rfl := Option.some.inj (link.symm.trans names)
          rcases place with inPath | rfl <;> simp [*]
    · obtain ⟨last, isChecked, climb⟩ := ends
      refine ⟨fun other member => ?_, fun other member named names => ?_⟩
      · exact climb.grounded (broken.grounded last isChecked)
          (fun _ _ => .inl rfl) member
      · obtain ⟨next, link, place⟩ := climb.names member
        obtain rfl := Option.some.inj (link.symm.trans names)
        rcases place with inPath | rfl <;> simp [*]
  refine
    { grounded := ?_
      closed := ?_
      known := ?_
      cutsChecked := fun other member =>
        List.mem_append_right _ (broken.cutsChecked other member)
      cutOnCycle := broken.cutOnCycle
      apart := broken.apart }
  · intro other member
    rcases List.mem_append.mp member with inPath | inChecked
    · exact both.1 other inPath
    · exact broken.grounded other inChecked
  · intro other member named names
    rcases List.mem_append.mp member with inPath | inChecked
    · exact both.2 other inPath named names
    · exact List.mem_append_right _
        (broken.closed other inChecked named names)
  · intro other member
    rcases List.mem_append.mp member with inPath | inChecked
    · exact hasClimbed.known other inPath
    · exact broken.known other inChecked

/-- A climb that meets itself is grounded by one cut. -/
theorem Broken.cut
    {start met : String}
    (broken : Broken nodes checked cuts)
    (hasClimbed : HasClimbed (parentOf (cutAll nodes cuts)) (ids nodes) checked
      [] path start (.cycle met)) :
    Broken nodes (path ++ checked) (met :: cuts) := by
  obtain ⟨metOnPath, climb⟩ := hasClimbed.ends
  have changed : ∀ other, parentOf (cutAll nodes (met :: cuts)) other =
      if other = met then none else parentOf (cutAll nodes cuts) other := by
    intro other
    rw [parentOf_cutAll, parentOf_cutAll]
    by_cases same : other = met <;> simp [same]
  have metGrounded : Grounded (parentOf (cutAll nodes (met :: cuts))) met :=
    Grounded.of_parent fun named names => by
      rw [Names, changed, if_pos rfl] at names
      cases names
  have notChecked : met ∉ checked := hasClimbed.unsettled met metOnPath
  -- No link of the path was cut, so the path is closed under the first links.
  have uncut : ∀ other ∈ path,
      parentOf (cutAll nodes cuts) other = parentOf nodes other := by
    intro other member
    rw [parentOf_cutAll, if_neg]
    exact fun isCut =>
      hasClimbed.unsettled other member (broken.cutsChecked other isCut)
  have pathClosed : IsClosedUp (parentOf nodes) path := by
    intro other member named names
    obtain ⟨next, link, place⟩ := climb.names member
    rw [uncut other member] at link
    obtain rfl := Option.some.inj (link.symm.trans names)
    rcases place with inPath | rfl
    · exact inPath
    · exact metOnPath
  have metOnCycle : OnCycle (parentOf nodes) met :=
    Relation.TransGen.mono (fun _ _ names => names_of_cutAll names) met met
      (climb.climbs metOnPath)
  have noOther : ∀ other ∈ cuts, ¬ Reaches (parentOf nodes) met other := by
    intro other isCut reaches
    exact hasClimbed.unsettled other
      (pathClosed.mem_of_reaches reaches metOnPath)
      (broken.cutsChecked other isCut)
  refine
    { grounded := ?_
      closed := ?_
      known := ?_
      cutsChecked := ?_
      cutOnCycle := ?_
      apart := ?_ }
  · intro other member
    rcases List.mem_append.mp member with inPath | inChecked
    · refine climb.grounded metGrounded (fun item _ => ?_) inPath
      by_cases same : item = met
      · exact .inr (same ▸ metGrounded)
      · exact .inl (by rw [changed, if_neg same])
    · refine (broken.grounded other inChecked).congr fun above reaches => ?_
      have aboveChecked := broken.closed.mem_of_reaches reaches inChecked
      rw [changed, if_neg]
      rintro rfl
      exact notChecked aboveChecked
  · intro other member named names
    rw [changed] at names
    split at names
    · cases names
    · rcases List.mem_append.mp member with inPath | inChecked
      · rw [uncut other inPath] at names
        exact List.mem_append_left _ (pathClosed other inPath named names)
      · exact List.mem_append_right _
          (broken.closed other inChecked named names)
  · intro other member
    rcases List.mem_append.mp member with inPath | inChecked
    · exact hasClimbed.known other inPath
    · exact broken.known other inChecked
  · intro other member
    rcases List.mem_cons.mp member with rfl | isCut
    · exact List.mem_append_left _ metOnPath
    · exact List.mem_append_right _ (broken.cutsChecked other isCut)
  · intro other member
    rcases List.mem_cons.mp member with rfl | isCut
    · exact metOnCycle
    · exact broken.cutOnCycle other isCut
  · intro first inFirst second inSecond reaches
    rcases List.mem_cons.mp inFirst with rfl | firstCut <;>
      rcases List.mem_cons.mp inSecond with rfl | secondCut
    · rfl
    · exact absurd reaches (noOther second secondCut)
    · have back := (broken.cutOnCycle first firstCut).reaches_back reaches
      exact absurd back (noOther first firstCut)
    · exact broken.apart first firstCut second secondCut reaches

/-- Breaking cycles ends, with cuts that ground everything it went through. -/
theorem breakCycles_spec
    {rest : List String}
    (nodesClosed : IsClosedUp (parentOf nodes) (ids nodes))
    (broken : Broken nodes checked cuts)
    (restKnown : ∀ id ∈ rest, id ∈ ids nodes) :
    ∃ allChecked allCuts,
      breakCycles (cutAll nodes cuts) checked rest =
          some (cutAll nodes allCuts) ∧
        Broken nodes allChecked allCuts ∧
        ∀ id ∈ checked ++ rest, id ∈ allChecked := by
  induction rest generalizing checked cuts with
  | nil =>
      exact ⟨checked, cuts, rfl, broken, by simp⟩
  | cons id rest inductionHypothesis =>
      have known := restKnown id List.mem_cons_self
      have laterKnown : ∀ other ∈ rest, other ∈ ids nodes :=
        fun other member => restKnown other (List.mem_cons_of_mem _ member)
      obtain ⟨path, reached, climbs, hasClimbed⟩ :=
        climbFrom_start (parentOf (cutAll nodes cuts)) checked known
      have sameLength : (cutAll nodes cuts).length = (ids nodes).length := by
        rw [cutAll, ids, List.length_map, List.length_map]
      have goesOn : ∀ cutsNow, Broken nodes (path ++ checked) cutsNow →
          ∃ allChecked allCuts,
            breakCycles (cutAll nodes cutsNow) (path ++ checked) rest =
                some (cutAll nodes allCuts) ∧
              Broken nodes allChecked allCuts ∧
              ∀ other ∈ checked ++ id :: rest, other ∈ allChecked := by
        intro cutsNow brokenNow
        obtain ⟨allChecked, allCuts, breaks, allBroken, all⟩ :=
          inductionHypothesis brokenNow laterKnown
        refine ⟨allChecked, allCuts, breaks, allBroken, fun other member => ?_⟩
        apply all
        have visited := hasClimbed.visited
        simp only [List.mem_append, List.mem_cons] at member ⊢
        rcases member with inChecked | rfl | inRest
        · exact .inl (.inr inChecked)
        · exact .inl visited.symm
        · exact .inr inRest
      rw [breakCycles, sameLength, ids_cutAll, climbs]
      cases reached with
      | root =>
          exact goesOn cuts (broken.append hasClimbed (.inl rfl))
      | settled =>
          exact goesOn cuts (broken.append hasClimbed (.inr rfl))
      | cycle met =>
          dsimp only
          rw [cut_cutAll]
          exact goesOn (met :: cuts) (broken.cut hasClimbed)
      | unknown named =>
          obtain ⟨isUnknown, top, others, rfl, names, _⟩ := hasClimbed.ends
          have topKnown := hasClimbed.known top List.mem_cons_self
          exact absurd (nodesClosed top topKnown named (names_of_cutAll names))
            isUnknown

theorem linkOf_closed
    (distinct : (ids albums).Nodup) :
    IsClosedUp (linkOf albums) (ids albums) := by
  intro id _ named linked
  obtain ⟨album, _, _, shows⟩ := (linkOf_eq_some distinct id named).mp linked
  obtain ⟨parent, member, rfl, _⟩ := shows.present
  exact List.mem_map_of_mem member

theorem Broken.cutOnce
    (broken : Broken nodes checked cuts)
    (allChecked : ∀ id ∈ ids nodes, id ∈ checked)
    (onCycle : OnCycle (parentOf nodes) id) :
    ∃! place, place ∈ cuts ∧ Reaches (parentOf nodes) id place := by
  have someCut : ∃ place ∈ cuts, Reaches (parentOf nodes) id place := by
    by_contra none
    push Not at none
    have stays : OnCycle (parentOf (cutAll nodes cuts)) id := by
      refine onCycle.congr fun above reaches => ?_
      rw [parentOf_cutAll, if_neg fun isCut => none above isCut reaches]
    have isThere : id ∈ ids nodes := by
      obtain ⟨named, names, _⟩ := Relation.TransGen.head'_iff.mp onCycle
      rw [Names, parentOf, Option.bind_eq_some_iff] at names
      obtain ⟨node, found, _⟩ := names
      have sameId : node.id = id := by simpa using List.find?_some found
      exact sameId ▸ List.mem_map_of_mem (List.mem_of_find?_eq_some found)
    exact (broken.grounded id (allChecked id isThere)).not_onCycle stays
  obtain ⟨place, isCut, reaches⟩ := someCut
  refine ⟨place, ⟨isCut, reaches⟩, ?_⟩
  rintro other ⟨otherCut, toOther⟩
  rcases Reaches.total toOther reaches with forth | back
  · exact broken.apart other otherCut place isCut forth
  · exact (broken.apart place isCut other otherCut back).symm

theorem cutAll_detach
    (distinct : (ids albums).Nodup)
    (cuts : List String) :
    cutAll (albums.map (detach albums)) cuts =
      albums.map (shown albums cuts) := by
  rw [cutAll, List.map_map]
  refine List.map_congr_left fun album member => ?_
  have detachedId : (detach albums album).id = album.id ∧
      (detach albums album).kind = album.kind ∧
      (detach albums album).content = album.content := by
    unfold detach
    split
    · exact ⟨rfl, rfl, rfl⟩
    · split <;> exact ⟨rfl, rfl, rfl⟩
  obtain ⟨sameId, sameKind, sameContent⟩ := detachedId
  rw [Function.comp_apply, cutNode, shown, linkOf_id distinct member, sameId,
    sameKind, sameContent]

theorem forest_of_grounded
    (distinct : (ids nodes).Nodup)
    (grounded : ∀ id ∈ ids nodes, Grounded (parentOf nodes) id)
    (perm : ordered.Perm nodes) :
    ∃ forest,
      (rootsOf nodes ordered).mapM (grow (childrenOf nodes ordered)
          nodes.length) = some forest ∧
        (∀ tree ∈ forest, ∃ root ∈ rootsOf nodes ordered,
          IsTreeOf (parentNode nodes) nodes root tree) ∧
        (itemsOf forest).Nodup ∧
        ∀ node, node ∈ itemsOf forest ↔ node ∈ nodes := by
  have nodup : nodes.Nodup := List.Nodup.of_map _ distinct
  have orderedNodup : ordered.Nodup := perm.nodup_iff.mpr nodup
  refine forest_spec
    { mem := ?_
      nodup := fun above => orderedNodup.filter _ } ?_ ?_ ?_
    (orderedNodup.filter _)
  · intro above aboveIn node
    rw [childrenOf, List.mem_filter, perm.mem_iff, decide_eq_true_eq]
    refine and_congr_right fun _ => ?_
    constructor
    · intro named
      obtain ⟨parent, found, sameId⟩ := Option.map_eq_some_iff.mp named
      obtain ⟨_, _, parentIn⟩ := (parentNode_eq_some distinct).mp found
      rw [found, List.inj_on_of_nodup_map distinct parentIn aboveIn sameId]
    · intro found
      rw [found]
      rfl
  · intro node _ named found
    exact ((parentNode_eq_some distinct).mp found).2.2
  · intro node member
    refine Grounded.comap Album.id nodes ?_ member
      (grounded node.id (List.mem_map_of_mem member))
    intro other otherIn named found
    obtain ⟨stored, _, namedIn⟩ := (parentNode_eq_some distinct).mp found
    refine ⟨namedIn, ?_⟩
    rw [parentOf, (nodeOf_eq_some distinct).mpr ⟨otherIn, rfl⟩]
    exact stored
  · intro node
    rw [rootsOf, List.mem_filter, perm.mem_iff, Option.isNone_iff_eq_none]

theorem parentId_of_isRoot
    {root : Album Content}
    (distinct : (ids albums).Nodup)
    (shownDistinct : (ids (albums.map (shown albums cuts))).Nodup)
    (isRoot : root ∈ rootsOf (albums.map (shown albums cuts)) ordered)
    (isShown : root ∈ albums.map (shown albums cuts)) :
    root.parentId = none := by
  obtain ⟨album, member, rfl⟩ := List.mem_map.mp isShown
  by_contra named
  obtain ⟨parentId, stored⟩ := Option.ne_none_iff_exists'.mp named
  have linked : linkOf albums album.id = some parentId := by
    rw [shown] at stored
    dsimp only at stored
    split at stored
    · cases stored
    · exact stored
  obtain ⟨_, _, _, shows⟩ := (linkOf_eq_some distinct _ _).mp linked
  obtain ⟨parent, parentIn, rfl, _⟩ := shows.present
  have found : parentNode (albums.map (shown albums cuts))
      (shown albums cuts album) = some (shown albums cuts parent) :=
    (parentNode_eq_some shownDistinct).mpr
      ⟨stored, shows.nonempty, List.mem_map_of_mem parentIn⟩
  rw [rootsOf, List.mem_filter, found] at isRoot
  cases isRoot.2

/-- What building the view does. -/
theorem hierarchyLaws
    (albums : Albums Content)
    (positions : String → Option ℤ) :
    HierarchyLaws albums positions where
  links := linkOf_eq_some albums.distinct
  view := by
    have distinct := albums.distinct
    have sameIds := ids_detach albums.list
    have nodesClosed : IsClosedUp (parentOf (albums.list.map
        (detach albums.list))) (ids (albums.list.map (detach albums.list))) := by
      rw [sameIds]
      exact linkOf_closed distinct
    obtain ⟨checked, cuts, breaks, broken, all⟩ :=
      breakCycles_spec nodesClosed broken_nil
        fun id (member : id ∈ ids albums.list) => sameIds ▸ member
    have allChecked : ∀ id ∈ ids albums.list, id ∈ checked := by
      simpa using all
    rw [cutAll_nil, cutAll_detach distinct] at breaks
    have shownIds : ids (albums.list.map (shown albums.list cuts)) =
        ids albums.list := by
      rw [← cutAll_detach distinct, ids_cutAll, sameIds]
    have shownDistinct : (ids (albums.list.map (shown albums.list cuts))).Nodup
        := by rwa [shownIds]
    have grounded : ∀ id ∈ ids (albums.list.map (shown albums.list cuts)),
        Grounded (parentOf (albums.list.map (shown albums.list cuts))) id := by
      intro id member
      rw [shownIds] at member
      rw [← cutAll_detach distinct]
      exact broken.grounded id (allChecked id member)
    obtain ⟨forest, grows, trees, nodup, mem⟩ :=
      forest_of_grounded shownDistinct grounded
        (List.perm_insertionSort (fun first second =>
          position positions first ≤ position positions second) _)
    refine ⟨forest, cuts, ?_, ?_⟩
    · rw [buildAlbumHierarchy, breaks]
      exact grows
    · exact
        { once := (List.perm_ext_iff_of_nodup nodup
            (List.Nodup.of_map _ shownDistinct)).mpr mem
          hangs := by
            intro tree member
            obtain ⟨root, _, isTree⟩ := trees tree member
            refine ItemTree.Hangs.mono (fun child above names => ?_) tree
              isTree.hangs
            exact ((parentNode_eq_some shownDistinct).mp names).1
          tops := by
            intro tree member
            obtain ⟨root, isRoot, isTree⟩ := trees tree member
            rw [isTree.item]
            have isShown := (mem root).mp (mem_itemsOf_of_tree member isTree)
            exact parentId_of_isRoot distinct shownDistinct isRoot isShown
          cutOnCycle := broken.cutOnCycle
          cutOnce := fun id onCycle => broken.cutOnce
            (by rw [sameIds]; exact allChecked) onCycle }

end Frameleaf.AlbumTree
