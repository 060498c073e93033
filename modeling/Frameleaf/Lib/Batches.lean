import Mathlib.Data.List.Basic
import Mathlib.Data.List.Nodup

namespace Frameleaf.Batching

/-!
# Handing items out in batches

Items gather in an open batch that is handed out when it is full.  The last one
is handed out at the end unless it is empty.
-/

variable {Item : Type*}

/-- The batches that were handed out, and the open one. -/
structure Batches (Item : Type*) where
  full : List (List Item)
  gathering : List Item

/-- Nothing was handed out. -/
def Batches.empty : Batches Item where
  full := []
  gathering := []

/-- Gather an item, and hand the batch out when it is full. -/
def Batches.push
    (take : ℕ)
    (batches : Batches Item)
    (item : Item) : Batches Item :=
  let gathering := batches.gathering ++ [item]
  if gathering.length = take then
    { full := batches.full ++ [gathering], gathering := [] }
  else
    { batches with gathering }

/-- All batches at the end. -/
def Batches.finish
    (batches : Batches Item) : List (List Item) :=
  if batches.gathering.length > 0 then
    batches.full ++ [batches.gathering]
  else
    batches.full

/-- Every item that was gathered, in order. -/
def Batches.items
    (batches : Batches Item) : List Item :=
  batches.full.flatten ++ batches.gathering

/-- Batches that were handed out are full, and the open one is not. -/
structure Batches.Sized
    (take : ℕ)
    (batches : Batches Item) : Prop where
  full : ∀ batch ∈ batches.full, batch.length = take
  gathering : batches.gathering.length < take

/-- A pushed item comes after all others. -/
@[simp] theorem Batches.items_push
    (take : ℕ)
    (batches : Batches Item)
    (item : Item) :
    (batches.push take item).items = batches.items ++ [item] := by
  unfold Batches.push Batches.items
  dsimp only
  split
  · simp
  · simp

theorem Batches.items_pushAll
    (take : ℕ)
    (batches : Batches Item)
    (items : List Item) :
    (items.foldl (Batches.push take) batches).items =
      batches.items ++ items := by
  induction items generalizing batches with
  | nil =>
      exact (List.append_nil _).symm
  | cons item items inductionHypothesis =>
      rw [List.foldl_cons, inductionHypothesis, Batches.items_push,
        List.append_assoc]
      rfl

variable {take : ℕ}

theorem Batches.sized_empty
    (positive : 0 < take) :
    (Batches.empty : Batches Item).Sized take where
  full := nofun
  gathering := positive

variable {batches : Batches Item}

theorem Batches.Sized.push
    (sized : batches.Sized take)
    (item : Item) :
    (batches.push take item).Sized take := by
  have length : (batches.gathering ++ [item]).length =
      batches.gathering.length + 1 := List.length_append
  have room := sized.gathering
  unfold Batches.push
  dsimp only
  split
  · rename_i isFull
    refine ⟨?_, Nat.lt_of_le_of_lt (Nat.zero_le _) room⟩
    intro batch member
    rcases List.mem_append.mp member with isOld | isNew
    · exact sized.full batch isOld
    · rw [List.mem_singleton.mp isNew]
      exact isFull
  · exact ⟨sized.full, by dsimp only; omega⟩

theorem Batches.Sized.pushAll
    (sized : batches.Sized take)
    (items : List Item) :
    (items.foldl (Batches.push take) batches).Sized take := by
  induction items generalizing batches with
  | nil =>
      exact sized
  | cons item items inductionHypothesis =>
      exact inductionHypothesis (sized.push item)

theorem Batches.flatten_finish
    (batches : Batches Item) :
    batches.finish.flatten = batches.items := by
  unfold Batches.finish Batches.items
  split
  · simp
  · rename_i isEmpty
    have none : batches.gathering = [] :=
      List.length_eq_zero_iff.mp (by omega)
    rw [none, List.append_nil]

/-- At the end all batches are full but the last, which is not empty. -/
structure AreBatches
    (take : ℕ)
    (batches : List (List Item)) : Prop where
  full : ∀ batch ∈ batches.dropLast, batch.length = take
  last : ∀ batch ∈ batches.getLast?, 0 < batch.length ∧ batch.length ≤ take

theorem Batches.Sized.areBatches
    (positive : 0 < take)
    (sized : batches.Sized take) :
    AreBatches take batches.finish := by
  unfold Batches.finish
  split
  · rename_i isOpen
    constructor
    · rw [List.dropLast_concat]
      exact sized.full
    · intro batch isLast
      rw [List.getLast?_concat] at isLast
      cases isLast
      exact ⟨isOpen, Nat.le_of_lt sized.gathering⟩
  · constructor
    · intro batch member
      exact sized.full batch (List.dropLast_subset _ member)
    · intro batch isLast
      rw [sized.full batch (List.mem_of_getLast? isLast)]
      exact ⟨positive, Nat.le_refl take⟩

end Frameleaf.Batching

namespace Frameleaf.Aligned

/-!
## Batches that end where groups end

Items stand group by group, and each item knows the label of its group.  A
batch that goes on while items have the label of its last one ends where a
group ends.
-/

variable {Item Label : Type*}

/-- How many items go on with a label. -/
def goingOn
    [DecidableEq Label]
    (label : Item → Option Label)
    (last : Label)
    (items : List Item) : ℕ :=
  (items.takeWhile fun item => label item = some last).length

/-- All items of groups, group by group. -/
def members
    (groups : List (Label × List Item)) : List Item :=
  groups.flatMap Prod.snd

/-- The items of every group have its label, and no other group has it. -/
structure Labelled
    (label : Item → Option Label)
    (groups : List (Label × List Item)) : Prop where
  nonempty : ∀ group ∈ groups, group.2 ≠ []
  known : ∀ group ∈ groups, ∀ item ∈ group.2, label item = some group.1
  distinct : (groups.map Prod.fst).Nodup

/-- The members of groups after others come after theirs. -/
@[simp] theorem members_append
    (first second : List (Label × List Item)) :
    members (first ++ second) = members first ++ members second :=
  List.flatMap_append

/-- The members of a first group come first. -/
@[simp] theorem members_cons
    (group : Label × List Item)
    (rest : List (Label × List Item)) :
    members (group :: rest) = group.2 ++ members rest :=
  List.flatMap_cons

variable {label : Item → Option Label}

theorem Labelled.of_append
    {first second : List (Label × List Item)}
    (labelled : Labelled label (first ++ second)) :
    Labelled label second where
  nonempty := fun group member =>
    labelled.nonempty group (List.mem_append_right first member)
  known := fun group member =>
    labelled.known group (List.mem_append_right first member)
  distinct := by
    have distinct := labelled.distinct
    rw [List.map_append] at distinct
    exact distinct.of_append_right

theorem exists_group
    (groups : List (Label × List Item))
    {count : ℕ}
    (positive : 0 < count)
    (inRange : count ≤ (members groups).length) :
    ∃ before group after kept,
      groups = before ++ group :: after ∧ 0 < kept ∧
        kept ≤ group.2.length ∧
        count = (members before).length + kept := by
  induction groups generalizing count with
  | nil =>
      have : count ≤ 0 := inRange
      omega
  | cons first rest inductionHypothesis =>
      rw [members_cons, List.length_append] at inRange
      by_cases inFirst : count ≤ first.2.length
      · exact ⟨[], first, rest, count, rfl, positive, inFirst,
          (Nat.zero_add _).symm⟩
      · have left : 0 < count - first.2.length := by omega
        obtain ⟨before, group, after, kept, shape, keptPositive, keptRange,
          counted⟩ := inductionHypothesis left (by omega)
        refine ⟨first :: before, group, after, kept, ?_, keptPositive,
          keptRange, ?_⟩
        · rw [shape]
          rfl
        · rw [members_cons, List.length_append]
          omega

/-- The members of a group go on with its label up to its end. -/
theorem goingOn_group
    [DecidableEq Label]
    {group : Label × List Item}
    {after : List (Label × List Item)}
    (labelled : Labelled label (group :: after))
    (kept : ℕ) :
    goingOn label group.1 (group.2.drop kept ++ members after) =
      group.2.length - kept := by
  have own : ∀ item ∈ group.2.drop kept,
      decide (label item = some group.1) = true := by
    intro item member
    exact decide_eq_true
      (labelled.known group List.mem_cons_self item
        (List.mem_of_mem_drop member))
  unfold goingOn
  rw [List.takeWhile_append_of_pos own, List.length_append, List.length_drop]
  suffices none : (members after).takeWhile
      (fun item => decide (label item = some group.1)) = [] by
    rw [none]
    rfl
  cases after with
  | nil =>
      rfl
  | cons next rest =>
      have nextMember : next ∈ group :: next :: rest :=
        List.mem_cons_of_mem _ List.mem_cons_self
      have differs : next.1 ≠ group.1 := by
        intro same
        have distinct := labelled.distinct
        rw [List.map_cons, List.map_cons, same] at distinct
        exact (List.nodup_cons.mp distinct).1 List.mem_cons_self
      obtain ⟨item, items, shape⟩ :=
        List.exists_cons_of_ne_nil (labelled.nonempty next nextMember)
      have labelOfItem : label item = some next.1 := by
        refine labelled.known next nextMember item ?_
        rw [shape]
        exact List.mem_cons_self
      rw [members_cons, shape, List.cons_append, List.takeWhile_cons_of_neg]
      rw [labelOfItem, decide_eq_true_iff]
      exact fun same => differs (Option.some.inj same)

/-- A position between members lies in a group, and the items from there on go
on with its label up to the end of the group. -/
theorem Labelled.exists_end
    [DecidableEq Label]
    {groups : List (Label × List Item)}
    (labelled : Labelled label groups)
    {count : ℕ}
    (positive : 0 < count)
    (inRange : count ≤ (members groups).length) :
    ∃ before group after,
      groups = before ++ group :: after ∧
        (members groups)[count - 1]?.bind label = some group.1 ∧
        count + goingOn label group.1 ((members groups).drop count) =
          (members (before ++ [group])).length := by
  obtain ⟨before, group, after, kept, shape, keptPositive, keptRange,
    counted⟩ := exists_group groups positive inRange
  subst shape counted
  refine ⟨before, group, after, rfl, ?_, ?_⟩
  · have position : (members before).length + kept - 1 =
        (members before).length + (kept - 1) := by omega
    have inGroup : kept - 1 < group.2.length := by omega
    rw [position, members_append, members_cons,
      List.getElem?_append_right (Nat.le_add_right _ _),
      Nat.add_sub_cancel_left, List.getElem?_append_left inGroup,
      List.getElem?_eq_getElem inGroup]
    exact labelled.known group
      (List.mem_append_right before List.mem_cons_self) _
      (List.getElem_mem inGroup)
  · have rest : (members (before ++ group :: after)).drop
        ((members before).length + kept) =
        group.2.drop kept ++ members after := by
      rw [members_append, members_cons, List.drop_append,
        List.drop_eq_nil_of_le (Nat.le_add_right _ _), List.nil_append,
        Nat.add_sub_cancel_left, List.drop_append_of_le_length keptRange]
    rw [rest, goingOn_group labelled.of_append]
    rw [members_append, members_cons, List.length_append,
      List.length_append]
    have : (members ([] : List (Label × List Item))).length = 0 := rfl
    omega

end Frameleaf.Aligned
