import Mathlib.Data.List.Basic
import Mathlib.Data.List.Nodup
import Mathlib.Data.List.Induction
import Mathlib.Data.List.Infix
import Mathlib.Data.List.Perm.Subperm
import Mathlib.Logic.Function.Basic
import Mathlib.Logic.Relation

namespace Frameleaf.ParentGraph

/-!
# Graphs in which everything has at most one parent

Each item names at most one parent.  Climbing from an item follows parents
until a root, a settled item, an unknown parent or an item of the climb itself
is met.  What lies on a cycle is what climbs to itself; a parent graph without
cycles is one in which every climb ends.
-/

variable {Item : Type*}

section Links

variable (parent : Item → Option Item)

/-- One item names another as its parent. -/
def Names
    (child named : Item) : Prop :=
  parent child = some named

/-- An item climbs to another in one or more steps. -/
abbrev Climbs : Item → Item → Prop := Relation.TransGen (Names parent)

/-- An item climbs to another in some steps, perhaps in none. -/
abbrev Reaches : Item → Item → Prop := Relation.ReflTransGen (Names parent)

/-- An item lies on a cycle when it climbs to itself. -/
def OnCycle
    (item : Item) : Prop :=
  Climbs parent item item

/-- Every climb from an item ends. -/
def Grounded
    (item : Item) : Prop :=
  Acc (fun named child => Names parent child named) item

/-- Items, the last first, each of which names the one before it; the first of
the list names what the climb has come to. -/
def Climb : List Item → Item → Prop
  | [], _ =>
      True
  | top :: rest, current =>
      parent top = some current ∧ Climb rest top

end Links

variable {parent : Item → Option Item}

theorem Names.unique
    {child first second : Item}
    (namesFirst : Names parent child first)
    (namesSecond : Names parent child second) :
    first = second :=
  Option.some.inj (namesFirst.symm.trans namesSecond)

variable {item current : Item}

theorem Grounded.of_parent
    (above : ∀ named, Names parent item named → Grounded parent named) :
    Grounded parent item :=
  Acc.intro item above

theorem Grounded.above
    {named : Item}
    (grounded : Grounded parent item)
    (reaches : Reaches parent item named) :
    Grounded parent named := by
  induction reaches with
  | refl =>
      exact grounded
  | tail _ names inductionHypothesis =>
      exact inductionHypothesis.inv names

theorem Grounded.not_onCycle
    (grounded : Grounded parent item) :
    ¬ OnCycle parent item := by
  induction grounded with
  | intro item _ inductionHypothesis =>
      intro onCycle
      obtain ⟨named, names, rest⟩ := Relation.TransGen.head'_iff.mp onCycle
      refine inductionHypothesis named names ?_
      exact Relation.TransGen.tail' rest names

theorem OnCycle.reaches_back
    {above : Item}
    (onCycle : OnCycle parent item)
    (reaches : Reaches parent item above) :
    Reaches parent above item := by
  induction reaches with
  | refl =>
      exact Relation.ReflTransGen.refl
  | @tail middle next _ names inductionHypothesis =>
      rcases Relation.ReflTransGen.cases_head inductionHypothesis with
        rfl | ⟨named, namesOther, rest⟩
      · obtain ⟨named, namesOther, rest⟩ :=
          Relation.TransGen.head'_iff.mp onCycle
        rwa [names.unique namesOther]
      · rwa [names.unique namesOther]

variable {path items known : List Item}

theorem Climb.climbs
    (climb : Climb parent path current)
    (member : item ∈ path) :
    Climbs parent item current := by
  induction path generalizing current with
  | nil =>
      cases member
  | cons top rest inductionHypothesis =>
      rcases List.mem_cons.mp member with rfl | inRest
      · exact Relation.TransGen.single climb.1
      · exact (inductionHypothesis climb.2 inRest).tail climb.1

theorem Climb.names
    (climb : Climb parent path current)
    (member : item ∈ path) :
    ∃ named, parent item = some named ∧ (named ∈ path ∨ named = current) := by
  induction path generalizing current with
  | nil =>
      cases member
  | cons top rest inductionHypothesis =>
      rcases List.mem_cons.mp member with rfl | inRest
      · exact ⟨current, climb.1, .inr rfl⟩
      · obtain ⟨named, names, place⟩ := inductionHypothesis climb.2 inRest
        refine ⟨named, names, .inl ?_⟩
        rcases place with inPath | rfl
        · exact List.mem_cons_of_mem _ inPath
        · exact List.mem_cons_self

variable {changed : Item → Option Item}

theorem Climb.grounded
    (climb : Climb parent path current)
    (grounded : Grounded changed current)
    (same : ∀ item ∈ path,
      changed item = parent item ∨ Grounded changed item)
    (member : item ∈ path) :
    Grounded changed item := by
  induction path generalizing current with
  | nil =>
      cases member
  | cons top rest inductionHypothesis =>
      have topGrounded : Grounded changed top := by
        rcases same top List.mem_cons_self with sameLink | isGrounded
        · refine Grounded.of_parent fun named names => ?_
          rw [Names, sameLink, climb.1] at names
          rwa [← Option.some.inj names]
        · exact isGrounded
      rcases List.mem_cons.mp member with rfl | inRest
      · exact topGrounded
      · exact inductionHypothesis climb.2 topGrounded
          (fun other inOthers => same other (List.mem_cons_of_mem _ inOthers))
          inRest

theorem Grounded.congr
    (grounded : Grounded parent item)
    (same : ∀ above, Reaches parent item above →
      changed above = parent above) :
    Grounded changed item := by
  induction grounded with
  | intro item _ inductionHypothesis =>
      refine Grounded.of_parent fun named names => ?_
      rw [Names, same item Relation.ReflTransGen.refl] at names
      exact inductionHypothesis named names
        fun above reaches => same above (reaches.head names)

theorem OnCycle.congr
    (onCycle : OnCycle parent item)
    (same : ∀ above, Reaches parent item above →
      changed above = parent above) :
    OnCycle changed item := by
  suffices climbs : ∀ above, Climbs parent item above →
      Climbs changed item above from climbs item onCycle
  intro above climbs
  induction climbs with
  | single names =>
      refine Relation.TransGen.single ?_
      rwa [Names, same item Relation.ReflTransGen.refl]
  | tail before names inductionHypothesis =>
      refine inductionHypothesis.tail ?_
      rwa [Names, same _ before.to_reflTransGen]

theorem Grounded.comap
    {Other : Type*}
    {link : Other → Option Other}
    (toItem : Other → Item)
    (others : List Other)
    (follows : ∀ other ∈ others, ∀ named, link other = some named →
      named ∈ others ∧ parent (toItem other) = some (toItem named))
    {other : Other}
    (member : other ∈ others)
    (grounded : Grounded parent (toItem other)) :
    Grounded link other := by
  generalize image : toItem other = item at grounded
  induction grounded generalizing other with
  | intro item _ inductionHypothesis =>
      subst image
      refine Grounded.of_parent fun named names => ?_
      obtain ⟨namedIn, link⟩ := follows other member named names
      exact inductionHypothesis _ link namedIn rfl

/-- How many items a climb from an item to its root meets. -/
inductive Depth (parent : Item → Option Item) : Item → ℕ → Prop where
  | root {item : Item} (isRoot : parent item = none) : Depth parent item 1
  | child {item named : Item} {depth : ℕ} (names : parent item = some named)
      (above : Depth parent named depth) : Depth parent item (depth + 1)

theorem Depth.unique
    {first second : ℕ}
    (isFirst : Depth parent item first)
    (isSecond : Depth parent item second) :
    first = second := by
  induction isFirst generalizing second with
  | root isRoot =>
      cases isSecond with
      | root =>
          rfl
      | child names =>
          cases isRoot.symm.trans names
  | child names _ inductionHypothesis =>
      cases isSecond with
      | root isRoot =>
          cases isRoot.symm.trans names
      | child namesOther above =>
          obtain rfl := Names.unique names namesOther
          rw [inductionHypothesis above]

/-- In a list every item comes after the parent that it names. -/
def ParentsFirst
    (parent : Item → Option Item)
    (items : List Item) : Prop :=
  ∀ earlier item later, items = earlier ++ item :: later →
    ∀ named, parent item = some named → named ∈ earlier

theorem ParentsFirst.nil :
    ParentsFirst parent [] := by
  intro earlier item later split
  cases earlier <;> cases split

theorem ParentsFirst.of_append
    {first second : List Item}
    (parentsFirst : ParentsFirst parent (first ++ second)) :
    ParentsFirst parent first := by
  rintro earlier item later rfl
  exact parentsFirst earlier item (later ++ second) (by simp)

theorem ParentsFirst.concat
    (parentsFirst : ParentsFirst parent items)
    (above : ∀ named, parent item = some named → named ∈ items) :
    ParentsFirst parent (items ++ [item]) := by
  intro earlier other later split named names
  rcases List.eq_nil_or_concat later with rfl | ⟨before, last, rfl⟩
  · obtain ⟨rfl, same⟩ := List.append_inj' split rfl
    obtain rfl := (List.cons.inj same).1
    exact above named names
  · rw [List.concat_eq_append, ← List.cons_append, ← List.append_assoc] at split
    obtain ⟨rfl, -⟩ := List.append_inj' split rfl
    exact parentsFirst earlier other before rfl named names

theorem ParentsFirst.grounded
    (parentsFirst : ParentsFirst parent items)
    (member : item ∈ items) :
    Grounded parent item := by
  induction items using List.reverseRecOn generalizing item with
  | nil =>
      cases member
  | append_singleton earlier last inductionHypothesis =>
      rcases List.mem_append.mp member with inEarlier | isLast
      · exact inductionHypothesis parentsFirst.of_append inEarlier
      · obtain rfl := List.mem_singleton.mp isLast
        exact Grounded.of_parent fun named names =>
          inductionHypothesis parentsFirst.of_append
            (parentsFirst earlier item [] rfl named names)

theorem Climb.parentsFirst
    (parentsFirst : ParentsFirst parent items)
    (climb : Climb parent path current)
    (isThere : current ∈ items) :
    ParentsFirst parent (items ++ path) := by
  induction path generalizing items current with
  | nil =>
      rwa [List.append_nil]
  | cons top rest inductionHypothesis =>
      have withTop : ParentsFirst parent (items ++ [top]) := by
        refine parentsFirst.concat fun named names => ?_
        rwa [Option.some.inj (names.symm.trans climb.1)]
      have whole := inductionHypothesis withTop climb.2 (by simp)
      rwa [List.append_assoc] at whole

/-- How a climb ends. -/
inductive End (Item : Type*) where
  | root
  | settled
  | cycle (met : Item)
  | unknown (named : Item)

variable [DecidableEq Item]

/-- Climb from an item: add each item to the path, the last first, until there
is nothing more to climb to. -/
def climbFrom
    (parent : Item → Option Item)
    (known settled : List Item) :
    ℕ → List Item → Item → Option (List Item × End Item)
  | 0, _, _ =>
      none
  | fuel + 1, path, current =>
      if current ∈ settled then
        some (path, .settled)
      else if current ∈ path then
        some (path, .cycle current)
      else
        match parent current with
        | none =>
            some (current :: path, .root)
        | some named =>
            if named ∈ known then
              climbFrom parent known settled fuel (current :: path) named
            else
              some (current :: path, .unknown named)

/-- What a climb has come to at its end. -/
def Ends
    (parent : Item → Option Item)
    (known settled path : List Item) : End Item → Prop
  | .root =>
      ∃ top rest, path = top :: rest ∧ parent top = none ∧
        Climb parent rest top
  | .settled =>
      ∃ last ∈ settled, Climb parent path last
  | .cycle met =>
      met ∈ path ∧ Climb parent path met
  | .unknown named =>
      named ∉ known ∧ ∃ top rest, path = top :: rest ∧
        parent top = some named ∧ Climb parent rest top

/-- A path of a climb: known items that are not settled, each once. -/
structure IsPath
    (parent : Item → Option Item)
    (known settled path : List Item)
    (current : Item) : Prop where
  climb : Climb parent path current
  nodup : path.Nodup
  known : ∀ item ∈ path, item ∈ known
  unsettled : ∀ item ∈ path, item ∉ settled

/-- What a climb has done when it ends. -/
structure HasClimbed
    (parent : Item → Option Item)
    (known settled start path : List Item)
    (current : Item)
    (reached : End Item) : Prop where
  ends : Ends parent known settled path reached
  nodup : path.Nodup
  known : ∀ item ∈ path, item ∈ known
  unsettled : ∀ item ∈ path, item ∉ settled
  goesOn : start <:+ path
  visited : current ∈ settled ∨ current ∈ path

/-- A climb with an item for each step that it may take ends. -/
theorem climbFrom_spec
    {settled : List Item}
    (isPath : IsPath parent known settled path current)
    (currentKnown : current ∈ known)
    (fuel : ℕ)
    (enough : known.length < path.length + fuel) :
    ∃ whole reached,
      climbFrom parent known settled fuel path current = some (whole, reached) ∧
        HasClimbed parent known settled path whole current reached := by
  induction fuel generalizing path current with
  | zero =>
      have short : path.length ≤ known.length :=
        (List.Nodup.subperm isPath.nodup isPath.known).length_le
      omega
  | succ fuel inductionHypothesis =>
      rw [climbFrom]
      by_cases isSettled : current ∈ settled
      · refine ⟨path, .settled, if_pos isSettled, ?_⟩
        exact ⟨⟨current, isSettled, isPath.climb⟩, isPath.nodup, isPath.known,
          isPath.unsettled, List.suffix_refl _, .inl isSettled⟩
      rw [if_neg isSettled]
      by_cases onPath : current ∈ path
      · refine ⟨path, .cycle current, if_pos onPath, ?_⟩
        exact ⟨⟨onPath, isPath.climb⟩, isPath.nodup, isPath.known,
          isPath.unsettled, List.suffix_refl _, .inr onPath⟩
      rw [if_neg onPath]
      have nodup : (current :: path).Nodup :=
        List.nodup_cons.mpr ⟨onPath, isPath.nodup⟩
      have allKnown : ∀ item ∈ current :: path, item ∈ known := by
        intro item member
        rcases List.mem_cons.mp member with rfl | inPath
        · exact currentKnown
        · exact isPath.known item inPath
      have noneSettled : ∀ item ∈ current :: path, item ∉ settled := by
        intro item member
        rcases List.mem_cons.mp member with rfl | inPath
        · exact isSettled
        · exact isPath.unsettled item inPath
      cases link : parent current with
      | none =>
          exact ⟨current :: path, .root, rfl,
            ⟨⟨current, path, rfl, link, isPath.climb⟩, nodup, allKnown,
              noneSettled, List.suffix_cons _ _, .inr List.mem_cons_self⟩⟩
      | some named =>
          by_cases namedKnown : named ∈ known
          · have longer : IsPath parent known settled (current :: path) named :=
              { climb := ⟨link, isPath.climb⟩
                nodup
                known := allKnown
                unsettled := noneSettled }
            obtain ⟨whole, reached, climbs, hasClimbed⟩ :=
              inductionHypothesis longer namedKnown
                (by rw [List.length_cons]; omega)
            refine ⟨whole, reached, ?_, ?_⟩
            · rw [← climbs]
              exact if_pos namedKnown
            · exact
                { hasClimbed with
                  goesOn := (List.suffix_cons _ _).trans hasClimbed.goesOn
                  visited := .inr
                    (hasClimbed.goesOn.subset List.mem_cons_self) }
          · refine ⟨current :: path, .unknown named, if_neg namedKnown, ?_⟩
            exact ⟨⟨namedKnown, current, path, rfl, link, isPath.climb⟩, nodup,
              allKnown, noneSettled, List.suffix_cons _ _,
              .inr List.mem_cons_self⟩

variable (parent) in
theorem climbFrom_start
    (settled : List Item)
    {start : Item}
    (startKnown : start ∈ known) :
    ∃ whole reached,
      climbFrom parent known settled (known.length + 1) [] start =
          some (whole, reached) ∧
        HasClimbed parent known settled [] whole start reached := by
  have empty : IsPath parent known settled [] start :=
    { climb := trivial
      nodup := List.nodup_nil
      known := by simp
      unsettled := by simp }
  exact climbFrom_spec empty startKnown _ (by rw [List.length_nil]; omega)

end Frameleaf.ParentGraph
