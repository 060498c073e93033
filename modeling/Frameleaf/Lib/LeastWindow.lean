import Mathlib.Data.List.Pairwise
import Mathlib.Data.List.Sort
import Mathlib.Order.Basic

namespace Frameleaf.LeastWindow

/-!
# The least items of a stream

A stream of items is read once while only the least `limit` of them are kept.
The window that remains is the front of the sorted stream, and the windows
taken one after the other, each beyond the last item of the one before, are the
whole sorted stream.
-/

variable {Item : Type*} [LinearOrder Item]

/-- The items in ascending order. -/
def ascending
    (items : List Item) : List Item :=
  items.insertionSort (· ≤ ·)

/-- The least items, in ascending order. -/
def least
    (limit : ℕ)
    (items : List Item) : List Item :=
  (ascending items).take limit

/-- Admit the next item of the stream to a window of bounded size. -/
def admitItem
    (limit : ℕ)
    (window : List Item)
    (item : Item) : List Item :=
  if window.length < limit ∨ window.getLast?.any (item < ·) then
    let sorted := ascending (window ++ [item])
    if limit < sorted.length then sorted.dropLast else sorted
  else
    window

/-- The items beyond a position, in ascending order. -/
def beyond
    (position : Item)
    (items : List Item) : List Item :=
  (ascending items).filter (position < ·)

theorem ascending_perm
    (items : List Item) :
    (ascending items).Perm items :=
  List.perm_insertionSort _ items

/-- Sorting keeps the number of items. -/
@[simp] theorem length_ascending
    (items : List Item) :
    (ascending items).length = items.length :=
  (ascending_perm items).length_eq

variable {item position start : Item} {items first second : List Item}

/-- Sorting keeps which items there are. -/
@[simp] theorem mem_ascending :
    item ∈ ascending items ↔ item ∈ items :=
  (ascending_perm items).mem_iff

theorem pairwise_ascending
    (items : List Item) :
    (ascending items).Pairwise (· ≤ ·) :=
  List.pairwise_insertionSort _ items

theorem eq_of_ascending
    (firstAscends : first.Pairwise (· ≤ ·))
    (secondAscends : second.Pairwise (· ≤ ·))
    (sameItems : first.Perm second) :
    first = second :=
  sameItems.eq_of_pairwise
    (fun _ _ _ _ firstLe secondLe => le_antisymm firstLe secondLe)
    firstAscends secondAscends

theorem ascending_congr
    (sameItems : first.Perm second) :
    ascending first = ascending second := by
  apply eq_of_ascending (pairwise_ascending first) (pairwise_ascending second)
  exact (ascending_perm first).trans
    (sameItems.trans (ascending_perm second).symm)

theorem ascending_eq_self
    (ascends : items.Pairwise (· ≤ ·)) :
    ascending items = items :=
  eq_of_ascending (pairwise_ascending items) ascends (ascending_perm items)

theorem ascending_append_singleton
    (items : List Item)
    (item : Item) :
    ascending (items ++ [item]) =
      (ascending items).orderedInsert (· ≤ ·) item := by
  have sameItems : (items ++ [item]).Perm (item :: items) :=
    List.perm_append_singleton item items
  rw [ascending_congr sameItems]
  rfl

theorem take_orderedInsert
    (limit : ℕ)
    (item : Item)
    (items : List Item) :
    ((items.take limit).orderedInsert (· ≤ ·) item).take limit =
      (items.orderedInsert (· ≤ ·) item).take limit := by
  induction items generalizing limit with
  | nil =>
      simp
  | cons head tail inductionHypothesis =>
      cases limit with
      | zero =>
          simp
      | succ limit =>
          simp only [List.take_succ_cons, List.orderedInsert_cons]
          by_cases before : item ≤ head
          · rw [if_pos before, if_pos before, List.take_succ_cons,
              List.take_succ_cons]
            congr 1
            cases limit with
            | zero =>
                rfl
            | succ limit =>
                simp [List.take_take]
          · rw [if_neg before, if_neg before, List.take_succ_cons,
              List.take_succ_cons, inductionHypothesis]

theorem orderedInsert_of_forall_le
    (below : ∀ other ∈ items, item ≤ other) :
    items.orderedInsert (· ≤ ·) item = item :: items := by
  cases items with
  | nil =>
      rfl
  | cons head tail =>
      rw [List.orderedInsert_cons, if_pos (below head (by simp))]

variable {limit : ℕ}

/-- An item that is not below a full window does not change it. -/
theorem take_orderedInsert_of_le
    (ascends : items.Pairwise (· ≤ ·))
    (isFull : limit ≤ items.length)
    (above : ∀ other ∈ items.take limit, other ≤ item) :
    (items.orderedInsert (· ≤ ·) item).take limit = items.take limit := by
  induction items generalizing limit with
  | nil =>
      have isEmpty : limit = 0 := by simpa using isFull
      simp [isEmpty]
  | cons head tail inductionHypothesis =>
      cases limit with
      | zero =>
          simp
      | succ limit =>
          have headLe : head ≤ item := above head (by simp)
          have headBelow : ∀ other ∈ tail, head ≤ other :=
            (List.pairwise_cons.mp ascends).1
          have tailTake :
              (tail.orderedInsert (· ≤ ·) item).take limit =
                tail.take limit := by
            apply inductionHypothesis (List.pairwise_cons.mp ascends).2
            · simpa using isFull
            · intro other member
              exact above other (by simp [member])
          rw [List.orderedInsert_cons]
          by_cases before : item ≤ head
          · -- The item equals the head, so either may come first.
            have same : item = head := le_antisymm before headLe
            subst same
            rw [orderedInsert_of_forall_le headBelow] at tailTake
            rw [if_pos before, List.take_succ_cons, List.take_succ_cons,
              tailTake]
          · rw [if_neg before, List.take_succ_cons, List.take_succ_cons,
              tailTake]

/-- The window keeps the least of the items read so far. -/
theorem admitItem_least
    (limit : ℕ)
    (items : List Item)
    (item : Item) :
    admitItem limit (least limit items) item = least limit (items ++ [item]) := by
  have ascends := pairwise_ascending items
  have inserted :
      ascending (least limit items ++ [item]) =
        (least limit items).orderedInsert (· ≤ ·) item := by
    rw [ascending_append_singleton, ascending_eq_self]
    exact ascends.take
  have goal :
      least limit (items ++ [item]) =
        ((ascending items).orderedInsert (· ≤ ·) item).take limit := by
    rw [least, ascending_append_singleton]
  rw [goal, admitItem]
  split
  · rename_i isAdmitted
    rw [inserted, ← take_orderedInsert]
    change (if limit < ((least limit items).orderedInsert _ item).length then
      ((least limit items).orderedInsert _ item).dropLast else _) = _
    have size :
        ((least limit items).orderedInsert (· ≤ ·) item).length =
          (least limit items).length + 1 :=
      List.orderedInsert_length _ _ _
    have short : (least limit items).length ≤ limit := by
      simp [least]
    split
    · rename_i isLong
      rw [List.dropLast_eq_take, size]
      congr 1
      omega
    · rename_i isShort
      rw [← least, List.take_of_length_le (by omega)]
  · rename_i notAdmitted
    rw [not_or, not_lt] at notAdmitted
    obtain ⟨isFull, notBelow⟩ := notAdmitted
    have longEnough : limit ≤ (ascending items).length := by
      rw [least, List.length_take] at isFull
      omega
    rw [take_orderedInsert_of_le ascends longEnough]
    · rfl
    · intro other member
      cases hasLast : (least limit items).getLast? with
      | none =>
          rw [List.getLast?_eq_none_iff] at hasLast
          rw [← least, hasLast] at member
          simp at member
      | some last =>
          have lastLe : last ≤ item := by
            simpa [hasLast] using notBelow
          have otherLe := ascends.take.rel_getLast member
          have isLast := List.getLast_of_getLast?_eq_some hasLast
          exact (otherLe.trans_eq isLast).trans lastLe

theorem ascending_filter
    (position : Item)
    (items : List Item) :
    ascending (items.filter (position < ·)) = beyond position items := by
  apply eq_of_ascending (pairwise_ascending _)
  · exact (pairwise_ascending items).filter _
  · exact (ascending_perm _).trans ((ascending_perm items).filter _).symm

/-- An item is beyond a position when it is an item above it. -/
@[simp] theorem mem_beyond :
    item ∈ beyond position items ↔ item ∈ items ∧ position < item := by
  simp [beyond]

theorem pairwise_beyond
    (position : Item)
    (items : List Item) :
    (beyond position items).Pairwise (· ≤ ·) :=
  (pairwise_ascending items).filter _

theorem beyond_congr
    (position : Item)
    (sameItems : first.Perm second) :
    beyond position first = beyond position second := by
  rw [beyond, ascending_congr sameItems, beyond]

theorem beyond_of_forall_lt
    (below : ∀ item ∈ items, position < item) :
    beyond position items = ascending items := by
  apply List.filter_eq_self.mpr
  intro item member
  simpa using below item (mem_ascending.mp member)

theorem filter_beyond
    (ordered : start ≤ position)
    (items : List Item) :
    (beyond start items).filter (position < ·) = beyond position items := by
  rw [beyond, List.filter_filter, beyond]
  apply List.filter_congr
  intro item _
  by_cases isBeyond : position < item
  · simp [isBeyond, lt_of_le_of_lt ordered isBeyond]
  · simp [isBeyond]

theorem find?_window
    (ordered : start ≤ position)
    (reaches : ((beyond start items).take limit).any (position < ·)) :
    ((beyond start items).take limit).find? (position < ·) =
      (beyond position items).head? := by
  rw [← filter_beyond ordered, List.head?_filter]
  conv_rhs => rw [← List.take_append_drop limit (beyond start items)]
  rw [List.find?_append]
  have isFound :
      (((beyond start items).take limit).find? (position < ·)).isSome := by
    rw [List.find?_isSome]
    exact List.any_eq_true.mp reaches
  rw [Option.or_of_isSome isFound]

theorem head?_window
    (positive : 0 < limit)
    (position : Item)
    (items : List Item) :
    ((beyond position items).take limit).find? (position < ·) =
      (beyond position items).head? := by
  cases isBeyond : beyond position items with
  | nil =>
      simp
  | cons next rest =>
      have isAbove : position < next := by
        apply (mem_beyond.mp _).2
        · exact items
        · simp [isBeyond]
      cases limit with
      | zero =>
          simp at positive
      | succ limit =>
          simp [isAbove]

/-- The items beyond a position are its next one and those beyond that. -/
theorem beyond_eq_cons
    {next : Item}
    (distinct : items.Nodup)
    (isNext : (beyond position items).head? = some next) :
    beyond position items = next :: beyond next items := by
  cases isBeyond : beyond position items with
  | nil =>
      simp [isBeyond] at isNext
  | cons head tail =>
      have isHead : head = next := by simpa [isBeyond] using isNext
      subst isHead
      have isAbove : position < head := by
        apply (mem_beyond.mp _).2
        · exact items
        · simp [isBeyond]
      have ascends := pairwise_beyond position items
      have headFresh : head ∉ tail := by
        have distinctBeyond : (beyond position items).Nodup :=
          ((ascending_perm items).nodup_iff.mpr distinct).filter _
        rw [isBeyond] at distinctBeyond
        exact (List.nodup_cons.mp distinctBeyond).1
      have tailAbove : ∀ item ∈ tail, head < item := by
        intro item member
        rw [isBeyond] at ascends
        apply lt_of_le_of_ne ((List.pairwise_cons.mp ascends).1 item member)
        rintro rfl
        exact headFresh member
      rw [← filter_beyond isAbove.le, isBeyond, List.filter_cons_of_neg (by simp)]
      congr 1
      symm
      apply List.filter_eq_self.mpr
      simpa using tailAbove

/-- Beyond the last of the items that precede a rest, only the rest is left. -/
theorem beyond_eq_of_take
    {last : Item}
    (distinct : items.Nodup)
    (isLast : ((beyond position items).take limit).getLast? = some last) :
    beyond last items = (beyond position items).drop limit := by
  have isAbove : position < last := by
    have member := List.mem_of_getLast? isLast
    exact (mem_beyond.mp (List.mem_of_mem_take member)).2
  have ascends := pairwise_beyond position items
  have distinctBeyond : (beyond position items).Nodup :=
    ((ascending_perm items).nodup_iff.mpr distinct).filter _
  rw [← filter_beyond isAbove.le]
  generalize beyond position items = rest at *
  rw [← List.take_append_drop limit rest] at ascends distinctBeyond
  conv_lhs => rw [← List.take_append_drop limit rest]
  have ordered := List.pairwise_append.mp ascends
  have frontDropped :
      (rest.take limit).filter (last < ·) = [] := by
    apply List.filter_eq_nil_iff.mpr
    intro item member
    have itemLe := ordered.1.rel_getLast member
    rw [List.getLast_of_getLast?_eq_some isLast] at itemLe
    simpa using itemLe
  have restKept :
      (rest.drop limit).filter (last < ·) = rest.drop limit := by
    apply List.filter_eq_self.mpr
    intro item member
    have lastIn := List.mem_of_getLast? isLast
    have different : last ≠ item := by
      rintro rfl
      exact List.disjoint_of_nodup_append distinctBeyond lastIn member
    simpa using lt_of_le_of_ne (ordered.2.2 last lastIn item member) different
  rw [List.filter_append, frontDropped, restKept, List.nil_append]

end Frameleaf.LeastWindow
