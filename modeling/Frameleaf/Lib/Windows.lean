import Mathlib.Data.List.TakeDrop

namespace Frameleaf.Windows

/-!
# Windows of a list

A window is what lies in a list from a place on, as far as there is anything.
A list that is put together of blocks is read again block by block.
-/

variable {α : Type*} {items front back : List α}
variable {start length more size : ℕ}

/-- What lies in a list from a place on. -/
def window
    (items : List α)
    (start length : ℕ) : List α :=
  (items.drop start).take length

theorem length_window :
    (window items start length).length =
      min length (items.length - start) := by
  rw [window, List.length_take, List.length_drop]

theorem window_append_right
    (isBehind : front.length = start) :
    window (front ++ back) (start + more) length = window back more length := by
  rw [window, ← List.drop_drop, List.drop_left' isBehind, window]

theorem window_append_left
    (within : start + length ≤ front.length) :
    window (front ++ back) start length = window front start length := by
  rw [window, List.drop_append_of_le_length (by omega), window,
    List.take_append_of_le_length (by rw [List.length_drop]; omega)]

theorem window_all :
    window items 0 items.length = items :=
  List.take_length

theorem window_append_append
    (isBehind : front.length = start)
    (isLong : items.length = length) :
    window (front ++ (items ++ back)) start length = items := by
  rw [window, List.drop_left' isBehind, List.take_left' isLong]

theorem window_append_window :
    window items start length ++ window items (start + length) more =
      window items start (length + more) := by
  rw [window, window, window, ← List.drop_drop, ← List.take_add]

theorem take_drop_window
    {first stop : ℕ}
    (within : stop ≤ length) :
    ((window items start length).take stop).drop first =
      window items (start + first) (stop - first) := by
  rw [window, window, List.take_take, Nat.min_eq_left within, List.drop_take,
    List.drop_drop]

theorem window_flatten
    {blocks : List (List α)}
    {index : ℕ}
    (inRange : index < blocks.length)
    (sized : ∀ block ∈ blocks.take index, block.length = size) :
    window blocks.flatten (index * size) (blocks[index]).length =
      blocks[index] := by
  induction index generalizing blocks with
  | zero =>
      cases blocks with
      | nil => nomatch inRange
      | cons block rest =>
          rw [Nat.zero_mul, List.flatten_cons]
          exact (window_append_left (Nat.le_of_eq (Nat.zero_add _))).trans
            window_all
  | succ index inductionHypothesis =>
      cases blocks with
      | nil => nomatch inRange
      | cons block rest =>
          rw [List.take_succ_cons, List.forall_mem_cons] at sized
          rw [List.flatten_cons, Nat.succ_mul, Nat.add_comm,
            window_append_right sized.1]
          exact inductionHypothesis (Nat.succ_lt_succ_iff.mp inRange) sized.2

theorem windows_flatten
    {blocks : List (List α)}
    (sized : ∀ block ∈ blocks, block.length = size) :
    ((List.range blocks.length).map fun index =>
      window (blocks.flatten ++ back) (index * size) size) = blocks := by
  induction blocks with
  | nil =>
      rfl
  | cons block rest inductionHypothesis =>
      rw [List.forall_mem_cons] at sized
      rw [List.length_cons, List.range_succ_eq_map, List.map_cons, List.map_map,
        List.flatten_cons, List.append_assoc]
      congr 1
      · rw [Nat.zero_mul]
        exact List.take_left' sized.1
      · refine Eq.trans (List.map_congr_left fun index _ => ?_)
          (inductionHypothesis sized.2)
        rw [Function.comp_apply, Nat.succ_mul, Nat.add_comm,
          window_append_right sized.1]

theorem flatten_windows
    (count : ℕ) :
    ((List.range count).map fun index =>
      window items (index * size) size).flatten =
        items.take (count * size) := by
  induction count with
  | zero =>
      rw [Nat.zero_mul]
      rfl
  | succ count inductionHypothesis =>
      rw [List.range_succ, List.map_append, List.flatten_append,
        inductionHypothesis, List.map_singleton, List.flatten_singleton,
        Nat.succ_mul, List.take_add]
      rfl

end Frameleaf.Windows
