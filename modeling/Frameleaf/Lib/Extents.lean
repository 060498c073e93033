import Mathlib.Data.List.Sort
import Mathlib.Data.Nat.Notation

namespace Frameleaf.Extents

/-!
# Extents that do not overlap

Each item of a list claims the places from its start to at least its finish.
The items are taken in the order of their starts; each must finish before the
next one starts and is limited by that start.  Afterwards every item is limited
by the start of every item that starts later.
-/

variable {Item Overlap : Type*}

/-- The items with their places, in the order of their starts. -/
def inOrder
    (start : Item → ℕ)
    (items : List Item) : List (Item × ℕ) :=
  items.zipIdx.insertionSort fun first second =>
    start first.1 ≤ start second.1

/--
Limit every item by the start of the next one.

The items stay in their places; an item that reaches into the next one in order
fails with the item that it reaches into.
-/
def limitInOrder
    (start finish : Item → ℕ)
    (withLimit : ℕ → Item → Item)
    (overlaps : Item → Overlap) :
    List (Item × ℕ) → List Item → Except Overlap (List Item)
  | previous :: next :: rest, items =>
      if start next.1 < finish previous.1 then
        .error (overlaps next.1)
      else
        limitInOrder start finish withLimit overlaps (next :: rest)
          (items.modify previous.2 (withLimit (start next.1)))
  | _, items =>
      .ok items

variable {start finish : Item → ℕ} {withLimit : ℕ → Item → Item}
variable {overlaps : Item → Overlap}

/-- The items in order lie apart and each is limited by the next one. -/
structure Limited
    (start finish : Item → ℕ)
    (withLimit : ℕ → Item → Item)
    (ordered : List (Item × ℕ))
    (items result : List Item) : Prop where
  others : ∀ place, (∀ entry ∈ ordered, entry.2 ≠ place) →
    result[place]? = items[place]?
  each : ∀ entry ∈ ordered, result[entry.2]? = some entry.1 ∨
    ∃ other ∈ ordered,
      result[entry.2]? = some (withLimit (start other.1) entry.1)
  before : ∀ first ∈ ordered, ∀ second ∈ ordered, first.2 ≠ second.2 →
    start first.1 ≤ start second.1 →
      ∃ limit,
        result[first.2]? = some (withLimit limit first.1) ∧
          finish first.1 ≤ limit ∧ limit ≤ start second.1

theorem limited_nil
    (items : List Item) :
    Limited start finish withLimit [] items items where
  others := fun _ _ => rfl
  each := by simp
  before := by simp

variable {items result : List Item}

theorem limited_singleton
    {entry : Item × ℕ}
    (isItem : items[entry.2]? = some entry.1) :
    Limited start finish withLimit [entry] items items where
  others := fun _ _ => rfl
  each := by
    intro other member
    rw [List.mem_singleton] at member
    exact .inl (member ▸ isItem)
  before := by
    intro first isFirst second isSecond different
    rw [List.mem_singleton] at isFirst isSecond
    rw [isFirst, isSecond] at different
    exact absurd rfl different

/-- The first item in order is limited by the second. -/
theorem Limited.cons
    {previous next : Item × ℕ}
    {rest : List (Item × ℕ)}
    (positive : ∀ item, start item < finish item)
    (sorted : (previous :: next :: rest).Pairwise fun first second =>
      start first.1 ≤ start second.1)
    (places : (previous :: next :: rest).Pairwise fun first second =>
      first.2 ≠ second.2)
    (isItem : items[previous.2]? = some previous.1)
    (apart : finish previous.1 ≤ start next.1)
    (limited : Limited start finish withLimit (next :: rest)
      (items.modify previous.2 (withLimit (start next.1))) result) :
    Limited start finish withLimit (previous :: next :: rest) items
      result := by
  have otherPlaces := (List.pairwise_cons.mp places).1
  have laterStarts := (List.pairwise_cons.mp sorted).1
  have nextFirst : ∀ entry ∈ next :: rest, start next.1 ≤ start entry.1 := by
    intro entry member
    rcases List.mem_cons.mp member with rfl | member
    · exact le_rfl
    · exact (List.pairwise_cons.mp (List.pairwise_cons.mp sorted).2).1
        entry member
  have isLimited :
      result[previous.2]? = some (withLimit (start next.1) previous.1) := by
    rw [limited.others previous.2 fun entry member =>
      (otherPlaces entry member).symm]
    simp [isItem]
  constructor
  · intro place free
    rw [limited.others place fun entry member =>
      free entry (List.mem_cons_of_mem _ member)]
    exact List.getElem?_modify_ne _ _ (free previous List.mem_cons_self)
  · intro entry member
    rcases List.mem_cons.mp member with rfl | member
    · exact .inr ⟨next, by simp, isLimited⟩
    · rcases limited.each entry member with same | ⟨other, isOther, result⟩
      · exact .inl same
      · exact .inr ⟨other, List.mem_cons_of_mem _ isOther, result⟩
  · intro first isFirst second isSecond different ordered
    rcases List.mem_cons.mp isFirst with rfl | isFirst
    · rcases List.mem_cons.mp isSecond with rfl | isSecond
      · exact absurd rfl different
      · exact ⟨start next.1, isLimited, apart, nextFirst second isSecond⟩
    · rcases List.mem_cons.mp isSecond with isPrevious | isSecond
      · -- An item never starts at the start of an item it finished before.
        have later := nextFirst first isFirst
        have starts := positive previous.1
        rw [isPrevious] at ordered
        omega
      · exact limited.before first isFirst second isSecond different ordered

/-- When no item overlaps the next one, all of them are limited. -/
theorem limitInOrder_limited
    {ordered : List (Item × ℕ)}
    (positive : ∀ item, start item < finish item)
    (sorted : ordered.Pairwise fun first second =>
      start first.1 ≤ start second.1)
    (places : ordered.Pairwise fun first second => first.2 ≠ second.2)
    (isItem : ∀ entry ∈ ordered, items[entry.2]? = some entry.1)
    (isLimited : limitInOrder start finish withLimit overlaps ordered items =
      .ok result) :
    Limited start finish withLimit ordered items result := by
  induction ordered generalizing items with
  | nil =>
      rw [limitInOrder, Except.ok.injEq] at isLimited
      · rw [← isLimited]
        exact limited_nil items
      · simp
  | cons previous rest inductionHypothesis =>
      cases rest with
      | nil =>
          rw [limitInOrder, Except.ok.injEq] at isLimited
          · rw [← isLimited]
            exact limited_singleton (isItem previous List.mem_cons_self)
          · simp
      | cons next rest =>
          rw [limitInOrder] at isLimited
          split at isLimited
          · simp at isLimited
          · rename_i apart
            apply Limited.cons positive sorted places
              (isItem previous List.mem_cons_self) (not_lt.mp apart)
            apply inductionHypothesis (List.pairwise_cons.mp sorted).2
              (List.pairwise_cons.mp places).2 _ isLimited
            intro entry member
            have otherPlace :=
              (List.pairwise_cons.mp places).1 entry member
            rw [List.getElem?_modify_ne _ _ otherPlace]
            exact isItem entry (List.mem_cons_of_mem _ member)

theorem mem_inOrder
    {entry : Item × ℕ} :
    entry ∈ inOrder start items ↔ items[entry.2]? = some entry.1 := by
  rw [inOrder, (List.perm_insertionSort _ _).mem_iff]
  exact List.mem_zipIdx_iff_getElem?

theorem places_inOrder
    (items : List Item) :
    (inOrder start items).Pairwise fun first second =>
      first.2 ≠ second.2 := by
  have distinct : ((inOrder start items).map Prod.snd).Nodup := by
    have places := ((List.perm_insertionSort
      (fun (first second : Item × ℕ) => start first.1 ≤ start second.1)
      items.zipIdx).map Prod.snd).nodup_iff
    rw [inOrder, places, List.zipIdx_map_snd]
    exact List.nodup_range'
  exact List.pairwise_map.mp distinct

theorem sorted_inOrder
    (items : List Item) :
    (inOrder start items).Pairwise fun first second =>
      start first.1 ≤ start second.1 := by
  have total : Std.Total fun first second : Item × ℕ =>
      start first.1 ≤ start second.1 :=
    ⟨fun first second => Nat.le_total _ _⟩
  have transitive : IsTrans (Item × ℕ) fun first second =>
      start first.1 ≤ start second.1 :=
    ⟨fun _ _ _ => Nat.le_trans⟩
  exact List.pairwise_insertionSort _ _

theorem limited_inOrder
    (positive : ∀ item, start item < finish item)
    (isLimited : limitInOrder start finish withLimit overlaps
      (inOrder start items) items = .ok result) :
    Limited start finish withLimit (inOrder start items) items result :=
  limitInOrder_limited positive (sorted_inOrder items) (places_inOrder items)
    (fun _ member => mem_inOrder.mp member) isLimited

theorem Limited.source
    (limited : Limited start finish withLimit (inOrder start items) items
      result)
    {place : ℕ}
    {item : Item}
    (isItem : result[place]? = some item) :
    ∃ before, items[place]? = some before ∧
      (item = before ∨
        ∃ other ∈ items, item = withLimit (start other) before) := by
  cases isBefore : items[place]? with
  | none =>
      have free : ∀ entry ∈ inOrder start items, entry.2 ≠ place := by
        rintro entry member rfl
        rw [mem_inOrder.mp member] at isBefore
        simp at isBefore
      rw [limited.others place free, isBefore] at isItem
      simp at isItem
  | some before =>
      refine ⟨before, rfl, ?_⟩
      have member : (before, place) ∈ inOrder start items :=
        mem_inOrder.mpr isBefore
      rcases limited.each _ member with same | ⟨other, isOther, limit⟩
      · left
        simpa [isItem] using same
      · right
        exact ⟨other.1, List.mem_of_getElem? (mem_inOrder.mp isOther),
          by simpa [isItem] using limit⟩

theorem Limited.map_eq
    {Value : Type*}
    {value : Item → Value}
    (limited : Limited start finish withLimit (inOrder start items) items
      result)
    (value_withLimit : ∀ limit item,
      value (withLimit limit item) = value item) :
    result.map value = items.map value := by
  apply List.ext_getElem?
  intro place
  rw [List.getElem?_map, List.getElem?_map]
  cases isBefore : items[place]? with
  | none =>
      have free : ∀ entry ∈ inOrder start items, entry.2 ≠ place := by
        rintro entry member rfl
        rw [mem_inOrder.mp member] at isBefore
        simp at isBefore
      rw [limited.others place free, isBefore]
  | some before =>
      have member : (before, place) ∈ inOrder start items :=
        mem_inOrder.mpr isBefore
      rcases limited.each _ member with same | ⟨other, -, limit⟩
      · rw [same]
      · rw [limit, Option.map_some, Option.map_some, value_withLimit]

section Lens

-- A limited item keeps its start and carries its limit.
variable {limitOf : Item → ℕ}
variable (limitOf_withLimit : ∀ limit item,
  limitOf (withLimit limit item) = limit)
variable (start_withLimit : ∀ limit item,
  start (withLimit limit item) = start item)

include limitOf_withLimit start_withLimit

/-- An item is limited by the start of every item that starts later. -/
theorem Limited.limitOf_le
    {items result : List Item}
    (limited : Limited start finish withLimit (inOrder start items) items
      result)
    {i j : ℕ}
    {first second : Item}
    (different : i ≠ j)
    (isFirst : result[i]? = some first)
    (isSecond : result[j]? = some second)
    (ordered : start first ≤ start second) :
    limitOf first ≤ start second := by
  obtain ⟨firstBefore, isFirstBefore, firstShape⟩ := limited.source isFirst
  obtain ⟨secondBefore, isSecondBefore, secondShape⟩ :=
    limited.source isSecond
  have firstStart : start first = start firstBefore := by
    rcases firstShape with rfl | ⟨other, -, rfl⟩
    · rfl
    · exact start_withLimit _ _
  have secondStart : start second = start secondBefore := by
    rcases secondShape with rfl | ⟨other, -, rfl⟩
    · rfl
    · exact start_withLimit _ _
  have orderedBefore : start firstBefore ≤ start secondBefore := by
    rw [← firstStart, ← secondStart]
    exact ordered
  obtain ⟨limit, isLimited, -, limitLe⟩ :=
    limited.before (firstBefore, i) (mem_inOrder.mpr isFirstBefore)
      (secondBefore, j) (mem_inOrder.mpr isSecondBefore) different
      orderedBefore
  rw [isFirst, Option.some.injEq] at isLimited
  rw [isLimited, limitOf_withLimit]
  exact limitLe.trans_eq secondStart.symm

end Lens

end Frameleaf.Extents
