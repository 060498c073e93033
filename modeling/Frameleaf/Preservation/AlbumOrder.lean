import Mathlib
import Frameleaf.Lib.ParentGraph

namespace Frameleaf.Preservation

open ParentGraph

/-!
# The order in which preserved albums are restored

A package lists its albums in any order, each with the album above it.  They
are restored parents first; a package that lists an album twice, names an album
that it does not list, has albums above themselves or nests too deep is refused
as a whole.
-/

/-- An album of a package, with whatever else is known of it. -/
structure PreservationAlbum (Content : Type) where
  id : String
  parentId : Option String
  content : Content

/-- Why a package was refused. -/
inductive PackageError where
  | listedTwice
  | cycle
  | missingParent
  | tooDeep
  deriving DecidableEq

variable {Content : Type}

/-- The parent that an album names; an empty name is none. -/
def PreservationAlbum.parent
    (album : PreservationAlbum Content) : Option String :=
  album.parentId.filter (· ≠ "")

/-- The album of an id. -/
def byId
    (albums : List (PreservationAlbum Content))
    (id : String) : Option (PreservationAlbum Content) :=
  albums.find? (·.id = id)

/-- The parent that the album of an id names. -/
def parentOf
    (albums : List (PreservationAlbum Content))
    (id : String) : Option String :=
  (byId albums id).bind PreservationAlbum.parent

/-- The ids of albums. -/
def ids
    (albums : List (PreservationAlbum Content)) : List String :=
  albums.map PreservationAlbum.id

/-- Put each album after what was placed, its ancestors first.  What was placed
is what is done.  There is no result only when a climb goes on. -/
def placeAll
    (albums : List (PreservationAlbum Content)) :
    List String → List String → Option (Except PackageError (List String))
  | ordered, [] =>
      some (.ok ordered)
  | ordered, id :: rest =>
      match climbFrom (parentOf albums) (ids albums) ordered
          (albums.length + 1) [] id with
      | none =>
          none
      | some (branch, .root) | some (branch, .settled) =>
          placeAll albums (ordered ++ branch) rest
      | some (_, .cycle _) =>
          some (.error .cycle)
      | some (_, .unknown _) =>
          some (.error .missingParent)

/-- A depth that is more than the greatest one. -/
def IsTooDeep
    (maxDepth : WithTop ℤ)
    (depth : ℕ) : Prop :=
  maxDepth < ((depth : ℤ) : WithTop ℤ)

instance
    (maxDepth : WithTop ℤ)
    (depth : ℕ) : Decidable (IsTooDeep maxDepth depth) :=
  match maxDepth with
  | ⊤ =>
      isFalse not_top_lt
  | (limit : ℤ) =>
      decidable_of_iff (limit < (depth : ℤ)) WithTop.coe_lt_coe.symm

/-- How deep each album lies, as far as none lies too deep.  The depth of a
parent is there, since it was placed before. -/
def checkDepths
    (albums : List (PreservationAlbum Content))
    (maxDepth : WithTop ℤ) :
    List (String × ℕ) → List String → Except PackageError Unit
  | _, [] =>
      .ok ()
  | depths, id :: rest =>
      let above : ℕ :=
        match parentOf albums id with
        | some parent => (depths.lookup parent).getD 0
        | none => 0
      let depth : ℕ := above + 1
      if IsTooDeep maxDepth depth then
        .error .tooDeep
      else
        checkDepths albums maxDepth ((id, depth) :: depths) rest

/-- Albums in an order that creates every parent before its children. -/
def orderPreservationAlbums
    (albums : List (PreservationAlbum Content))
    (maxDepth : WithTop ℤ) :
    Option (Except PackageError (List (PreservationAlbum Content))) :=
  if ¬ (ids albums).Nodup then
    some (.error .listedTwice)
  else
    match placeAll albums [] (ids albums) with
    | none =>
        none
    | some (.error refusal) =>
        some (.error refusal)
    | some (.ok ordered) =>
        match checkDepths albums maxDepth [] ordered with
        | .error refusal =>
            some (.error refusal)
        | .ok () =>
            some (.ok (ordered.filterMap (byId albums)))

/-- What makes a list of albums one that can be restored. -/
structure Orderable
    (albums : List (PreservationAlbum Content))
    (maxDepth : WithTop ℤ) : Prop where
  distinct : (ids albums).Nodup
  present : ∀ album ∈ albums, ∀ parent, album.parent = some parent →
    parent ∈ ids albums
  acyclic : ∀ album ∈ albums, ¬ OnCycle (parentOf albums) album.id
  shallow : ∀ album ∈ albums, ∀ depth,
    Depth (parentOf albums) album.id depth →
      ((depth : ℤ) : WithTop ℤ) ≤ maxDepth

/-- What ordering albums does. -/
structure OrderLaws
    (albums : List (PreservationAlbum Content))
    (maxDepth : WithTop ℤ) : Prop where
  /-- There is always a result. -/
  ends : ∃ outcome, orderPreservationAlbums albums maxDepth = some outcome
  /-- A list is accepted exactly when it can be restored. -/
  accepts : (∃ ordered,
    orderPreservationAlbums albums maxDepth = some (.ok ordered)) ↔
      Orderable albums maxDepth
  /-- What is accepted is put in another order. -/
  permutes : ∀ ordered,
    orderPreservationAlbums albums maxDepth = some (.ok ordered) →
      ordered.Perm albums
  /-- Every album comes after its parent. -/
  parentsFirst : ∀ earlier album later,
    orderPreservationAlbums albums maxDepth =
        some (.ok (earlier ++ album :: later)) →
      ∀ parent, album.parent = some parent →
        ∃ above ∈ earlier, above.id = parent

variable {albums : List (PreservationAlbum Content)}

theorem byId_id
    (distinct : (ids albums).Nodup)
    {album : PreservationAlbum Content}
    (member : album ∈ albums) :
    byId albums album.id = some album := by
  induction albums with
  | nil =>
      cases member
  | cons first rest inductionHypothesis =>
      obtain ⟨notInRest, restDistinct⟩ := List.nodup_cons.mp distinct
      rw [byId, List.find?_cons]
      rcases List.mem_cons.mp member with rfl | inRest
      · simp
      · have differs : first.id ≠ album.id := by
          intro same
          exact notInRest (same ▸ List.mem_map_of_mem inRest)
        simp only [differs, decide_false]
        exact inductionHypothesis restDistinct inRest

theorem parentOf_id
    (distinct : (ids albums).Nodup)
    {album : PreservationAlbum Content}
    (member : album ∈ albums) :
    parentOf albums album.id = album.parent := by
  rw [parentOf, byId_id distinct member]
  rfl

/-- What was placed: known ids, each once, with every parent first. -/
structure Placed
    (albums : List (PreservationAlbum Content))
    (ordered : List String) : Prop where
  nodup : ordered.Nodup
  known : ∀ id ∈ ordered, id ∈ ids albums
  parentsFirst : ParentsFirst (parentOf albums) ordered

variable {ordered rest visited : List String} {id : String}

theorem Placed.append
    {branch : List String}
    {reached : End String}
    (placed : Placed albums ordered)
    (hasClimbed : HasClimbed (parentOf albums) (ids albums) ordered [] branch
      id reached)
    (endsWell : reached = .root ∨ reached = .settled) :
    Placed albums (ordered ++ branch) where
  nodup := by
    refine List.nodup_append.mpr
      ⟨placed.nodup, hasClimbed.nodup, fun first inOrdered second inBranch => ?_⟩
    rintro rfl
    exact hasClimbed.unsettled first inBranch inOrdered
  known := by
    intro other member
    rcases List.mem_append.mp member with inOrdered | inBranch
    · exact placed.known other inOrdered
    · exact hasClimbed.known other inBranch
  parentsFirst := by
    have ends := hasClimbed.ends
    rcases endsWell with rfl | rfl
    · obtain ⟨top, rest, rfl, isRoot, climb⟩ := ends
      have withTop : ParentsFirst (parentOf albums) (ordered ++ [top]) := by
        refine placed.parentsFirst.concat fun named names => ?_
        cases isRoot.symm.trans names
      have whole := climb.parentsFirst withTop (by simp)
      rwa [List.append_assoc] at whole
    · obtain ⟨last, isPlaced, climb⟩ := ends
      exact climb.parentsFirst placed.parentsFirst isPlaced

theorem climbFrom_ids
    (ordered : List String)
    (known : id ∈ ids albums) :
    ∃ branch reached,
      climbFrom (parentOf albums) (ids albums) ordered (albums.length + 1) []
          id = some (branch, reached) ∧
        HasClimbed (parentOf albums) (ids albums) ordered [] branch id
          reached := by
  have climbed := climbFrom_start (parentOf albums) ordered known
  rwa [ids, List.length_map] at climbed

/-- Placing the albums of some ids. -/
theorem placeAll_spec
    (placed : Placed albums ordered)
    (known : ∀ id ∈ rest, id ∈ ids albums) :
    (∃ whole, placeAll albums ordered rest = some (.ok whole) ∧
      Placed albums whole ∧ (∀ id ∈ ordered ++ rest, id ∈ whole)) ∨
    (placeAll albums ordered rest = some (.error .cycle) ∧
      ∃ id ∈ ids albums, OnCycle (parentOf albums) id) ∨
    (placeAll albums ordered rest = some (.error .missingParent) ∧
      ∃ id ∈ ids albums, ∃ parent, parentOf albums id = some parent ∧
        parent ∉ ids albums) := by
  induction rest generalizing ordered with
  | nil =>
      exact .inl ⟨ordered, rfl, placed, by simp⟩
  | cons id rest inductionHypothesis =>
      obtain ⟨branch, reached, climbs, hasClimbed⟩ :=
        climbFrom_ids ordered (known id List.mem_cons_self)
      have restKnown : ∀ other ∈ rest, other ∈ ids albums :=
        fun other member => known other (List.mem_cons_of_mem _ member)
      rw [placeAll, climbs]
      have going : reached = .root ∨ reached = .settled →
          (∃ whole, placeAll albums (ordered ++ branch) rest =
              some (.ok whole) ∧ Placed albums whole ∧
              (∀ other ∈ ordered ++ id :: rest, other ∈ whole)) ∨
          (placeAll albums (ordered ++ branch) rest = some (.error .cycle) ∧
            ∃ id ∈ ids albums, OnCycle (parentOf albums) id) ∨
          (placeAll albums (ordered ++ branch) rest =
              some (.error .missingParent) ∧
            ∃ id ∈ ids albums, ∃ parent,
              parentOf albums id = some parent ∧ parent ∉ ids albums) := by
        intro endsWell
        rcases inductionHypothesis (placed.append hasClimbed endsWell)
            restKnown with ⟨whole, places, wholePlaced, all⟩ | failed
        · refine .inl ⟨whole, places, wholePlaced, fun other member => ?_⟩
          apply all
          have visited := hasClimbed.visited
          simp only [List.mem_append, List.mem_cons] at member ⊢
          rcases member with inOrdered | rfl | inRest
          · exact .inl (.inl inOrdered)
          · exact .inl visited
          · exact .inr inRest
        · exact .inr failed
      have ends := hasClimbed.ends
      cases reached with
      | root =>
          exact going (.inl rfl)
      | settled =>
          exact going (.inr rfl)
      | cycle met =>
          exact .inr (.inl ⟨rfl, met, hasClimbed.known met ends.1,
            ends.2.climbs ends.1⟩)
      | unknown named =>
          obtain ⟨isUnknown, top, others, rfl, names, _⟩ := ends
          exact .inr (.inr ⟨rfl, top,
            hasClimbed.known top List.mem_cons_self, named, names, isUnknown⟩)

/-- The depths that are known are those of what was visited. -/
def KnowsDepths
    (albums : List (PreservationAlbum Content))
    (depths : List (String × ℕ))
    (visited : List String) : Prop :=
  ∀ id ∈ visited, ∃ depth, depths.lookup id = some depth ∧
    Depth (parentOf albums) id depth

theorem depth_next
    {depths : List (String × ℕ)}
    (knows : KnowsDepths albums depths visited)
    (above : ∀ named, parentOf albums id = some named → named ∈ visited) :
    Depth (parentOf albums) id
      ((match parentOf albums id with
        | some parent => (depths.lookup parent).getD 0
        | none => 0) + 1) := by
  cases link : parentOf albums id with
  | none =>
      exact .root link
  | some parent =>
      obtain ⟨depth, found, isDepth⟩ := knows parent (above parent link)
      refine .child link ?_
      dsimp only
      rwa [found]

/-- The depths are checked for every id. -/
theorem checkDepths_spec
    (maxDepth : WithTop ℤ)
    {depths : List (String × ℕ)}
    (knows : KnowsDepths albums depths visited)
    (parentsFirst : ParentsFirst (parentOf albums) (visited ++ rest)) :
    (checkDepths albums maxDepth depths rest = .ok () ∧
      ∀ id ∈ rest, ∀ depth, Depth (parentOf albums) id depth →
        ((depth : ℤ) : WithTop ℤ) ≤ maxDepth) ∨
    (checkDepths albums maxDepth depths rest = .error .tooDeep ∧
      ∃ id ∈ rest, ∃ depth, Depth (parentOf albums) id depth ∧
        ¬ ((depth : ℤ) : WithTop ℤ) ≤ maxDepth) := by
  induction rest generalizing depths visited with
  | nil =>
      exact .inl ⟨rfl, by simp⟩
  | cons id rest inductionHypothesis =>
      have isDepth := depth_next knows (parentsFirst visited id rest rfl)
      rw [checkDepths]
      generalize (match parentOf albums id with
        | some parent => (depths.lookup parent).getD 0
        | none => 0) + 1 = depth at isDepth ⊢
      by_cases isDeep : IsTooDeep maxDepth depth
      · exact .inr ⟨if_pos isDeep, id, List.mem_cons_self, depth, isDepth,
          not_le.mpr isDeep⟩
      simp only [isDeep, if_false]
      have knowsNext :
          KnowsDepths albums ((id, depth) :: depths) (visited ++ [id]) := by
        intro other member
        by_cases same : other = id
        · subst same
          exact ⟨depth, by simp, isDepth⟩
        · have inVisited : other ∈ visited := by
            simpa [same] using member
          obtain ⟨known, found, isKnown⟩ := knows other inVisited
          refine ⟨known, ?_, isKnown⟩
          rw [List.lookup_cons, beq_false_of_ne same]
          exact found
      have parentsFirstNext :
          ParentsFirst (parentOf albums) ((visited ++ [id]) ++ rest) := by
        rwa [List.append_assoc]
      rcases inductionHypothesis knowsNext parentsFirstNext with
        ⟨checks, all⟩ | ⟨fails, other, member, isOther⟩
      · refine .inl ⟨checks, fun other member known isKnown => ?_⟩
        rcases List.mem_cons.mp member with rfl | inRest
        · rw [isKnown.unique isDepth]
          exact not_lt.mp isDeep
        · exact all other inRest known isKnown
      · exact .inr ⟨fails, other, List.mem_cons_of_mem _ member, isOther⟩

theorem placed_nil :
    Placed albums [] :=
  ⟨List.nodup_nil, by simp, ParentsFirst.nil⟩

theorem filterMap_byId_perm
    (distinct : (ids albums).Nodup)
    (placed : Placed albums ordered)
    (all : ∀ id ∈ ids albums, id ∈ ordered) :
    (ordered.filterMap (byId albums)).Perm albums := by
  have samePlaces : ordered.Perm (ids albums) :=
    (List.perm_ext_iff_of_nodup placed.nodup distinct).mpr
      fun id => ⟨placed.known id, all id⟩
  refine (samePlaces.filterMap (byId albums)).trans (List.Perm.of_eq ?_)
  rw [ids, List.filterMap_map]
  exact (List.filterMap_congr fun album member =>
    byId_id distinct member).trans List.filterMap_some

theorem map_id_filterMap_byId
    (known : ∀ id ∈ ordered, id ∈ ids albums) :
    (ordered.filterMap (byId albums)).map PreservationAlbum.id = ordered := by
  induction ordered with
  | nil =>
      rfl
  | cons id rest inductionHypothesis =>
      have found : ∃ album, byId albums id = some album ∧ album.id = id := by
        obtain ⟨album, member, named⟩ :=
          List.mem_map.mp (known id List.mem_cons_self)
        cases search : byId albums id with
        | none =>
            have absent := List.find?_eq_none.mp search album member
            simp [named] at absent
        | some other =>
            exact ⟨other, rfl, by simpa using List.find?_some search⟩
      obtain ⟨album, search, named⟩ := found
      rw [List.filterMap_cons, search, List.map_cons, named]
      exact congrArg (id :: ·) (inductionHypothesis fun other member =>
        known other (List.mem_cons_of_mem _ member))

/-- What ordering comes to. -/
theorem orderPreservationAlbums_cases
    (albums : List (PreservationAlbum Content))
    (maxDepth : WithTop ℤ) :
    (∃ ordered,
      orderPreservationAlbums albums maxDepth =
          some (.ok (ordered.filterMap (byId albums))) ∧
        Orderable albums maxDepth ∧ Placed albums ordered ∧
        ∀ id ∈ ids albums, id ∈ ordered) ∨
    (∃ refusal,
      orderPreservationAlbums albums maxDepth = some (.error refusal) ∧
        ¬ Orderable albums maxDepth) := by
  unfold orderPreservationAlbums
  by_cases distinct : (ids albums).Nodup
  swap
  · exact .inr ⟨.listedTwice, if_pos distinct,
      fun orderable => distinct orderable.distinct⟩
  rw [if_neg (not_not.mpr distinct)]
  rcases placeAll_spec placed_nil (fun id (member : id ∈ ids albums) => member)
    with ⟨ordered, places, placed, all⟩ | ⟨fails, id, member, onCycle⟩ |
      ⟨fails, id, member, parent, names, absent⟩
  · have knows : KnowsDepths albums [] [] := by
      intro id member
      cases member
    have albumPlaced : ∀ album ∈ albums, album.id ∈ ordered :=
      fun album member => all album.id (List.mem_map_of_mem member)
    rw [places]
    rcases checkDepths_spec maxDepth knows placed.parentsFirst
      with ⟨checks, shallow⟩ | ⟨fails, id, member, depth, isDepth, deep⟩
    · refine .inl ⟨ordered, by simp only [checks], ?_, placed, all⟩
      exact
        { distinct
          present := by
            intro album member parent names
            have inOrdered := albumPlaced album member
            obtain ⟨earlier, later, split⟩ := List.append_of_mem inOrdered
            refine placed.known parent ?_
            rw [split]
            refine List.mem_append_left _
              (placed.parentsFirst earlier album.id later split parent ?_)
            rwa [parentOf_id distinct member]
          acyclic := fun album member =>
            (placed.parentsFirst.grounded
              (albumPlaced album member)).not_onCycle
          shallow := fun album member depth isDepth =>
            shallow album.id (albumPlaced album member) depth isDepth }
    · refine .inr ⟨.tooDeep, by simp only [fails], fun orderable => deep ?_⟩
      obtain ⟨album, inAlbums, rfl⟩ := List.mem_map.mp (placed.known id member)
      exact orderable.shallow album inAlbums depth isDepth
  · refine .inr ⟨.cycle, by rw [fails], fun orderable => ?_⟩
    obtain ⟨album, inAlbums, rfl⟩ := List.mem_map.mp member
    exact orderable.acyclic album inAlbums onCycle
  · refine .inr ⟨.missingParent, by rw [fails], fun orderable => ?_⟩
    obtain ⟨album, inAlbums, rfl⟩ := List.mem_map.mp member
    rw [parentOf_id distinct inAlbums] at names
    exact absent (orderable.present album inAlbums parent names)

/-- What ordering albums does. -/
theorem orderLaws
    (albums : List (PreservationAlbum Content))
    (maxDepth : WithTop ℤ) :
    OrderLaws albums maxDepth := by
  rcases orderPreservationAlbums_cases albums maxDepth with
    ⟨ordered, accepts, orderable, placed, all⟩ | ⟨refusal, refuses, not⟩
  · have perm := filterMap_byId_perm orderable.distinct placed all
    refine
      { ends := ⟨_, accepts⟩
        accepts := ⟨fun _ => orderable, fun _ => ⟨_, accepts⟩⟩
        permutes := ?_
        parentsFirst := ?_ }
    · intro result same
      rw [accepts] at same
      rwa [← Except.ok.inj (Option.some.inj same)]
    · intro earlier album later same parent names
      rw [accepts] at same
      have whole := Except.ok.inj (Option.some.inj same)
      have inAlbums : album ∈ albums := by
        refine perm.subset ?_
        rw [whole]
        simp
      have split : ordered =
          earlier.map PreservationAlbum.id ++
            album.id :: later.map PreservationAlbum.id := by
        rw [← map_id_filterMap_byId placed.known, whole, List.map_append,
          List.map_cons]
      have inEarlier := placed.parentsFirst _ _ _ split parent
        ((parentOf_id orderable.distinct inAlbums).trans names)
      exact List.mem_map.mp inEarlier
  · refine
      { ends := ⟨_, refuses⟩
        accepts := ⟨?_, fun orderable => absurd orderable not⟩
        permutes := ?_
        parentsFirst := ?_ }
    · rintro ⟨ordered, accepts⟩
      cases refuses.symm.trans accepts
    · intro ordered accepts
      cases refuses.symm.trans accepts
    · intro earlier album later accepts
      cases refuses.symm.trans accepts

end Frameleaf.Preservation
