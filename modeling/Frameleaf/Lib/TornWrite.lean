import Mathlib.Data.List.Basic
import Mathlib.Tactic.Common

namespace Frameleaf.TornWrite

/-!
# Files that are overwritten in place

A write puts the new content over the old one from the start and then cuts the
file to the new length.  Whatever is interrupted, and however often it is tried
again, the file holds a start of the new content followed by what was there, or
the new content alone.
-/

variable {α : Type*}

/-- The file after the first elements of the new content are written. -/
def overwritten
    (new old : List α)
    (count : ℕ) : List α :=
  new.take count ++ old.drop count

/-- What any number of interrupted writes can leave. -/
inductive Torn
    (new old : List α) : List α → Prop
  | untouched : Torn new old old
  | cut {file : List α} (count : ℕ)
      (before : Torn new old file)
      (within : count ≤ new.length) :
      Torn new old (overwritten new file count)
  | truncated : Torn new old new

variable {new old file : List α}

/-- Nothing written leaves the old content. -/
@[simp] theorem overwritten_zero : overwritten new old 0 = old := by
  simp [overwritten]

/-- Everything written and cut to length is the new content. -/
@[simp] theorem take_overwritten_length :
    (overwritten new old new.length).take new.length = new := by
  simp [overwritten]

theorem overwritten_overwritten
    {first second : ℕ}
    (within : first ≤ new.length) :
    overwritten new (overwritten new old first) second =
      overwritten new old (max first second) := by
  have takenLength : (new.take first).length = first :=
    List.length_take_of_le within
  simp only [overwritten]
  rcases Nat.le_total first second with longer | shorter
  · rw [Nat.max_eq_right longer, List.drop_append, takenLength,
      List.drop_eq_nil_of_le (by rw [takenLength]; exact longer),
      List.drop_drop, Nat.add_sub_cancel' longer, List.nil_append]
  · have taken :
        new.take second ++ (new.take first).drop second = new.take first := by
      have shortened : (new.take first).take second = new.take second := by
        rw [List.take_take, Nat.min_eq_left shorter]
      rw [← shortened, List.take_append_drop]
    rw [Nat.max_eq_left shorter,
      List.drop_append_of_le_length (by rw [takenLength]; exact shorter),
      ← List.append_assoc, taken]

theorem torn_iff :
    Torn new old file ↔
      file = new ∨
        ∃ count ≤ new.length, file = overwritten new old count := by
  constructor
  · intro torn
    induction torn with
    | untouched =>
        exact .inr ⟨0, Nat.zero_le _, overwritten_zero.symm⟩
    | cut count before within inductionHypothesis =>
        rcases inductionHypothesis with rfl | ⟨earlier, earlierWithin, rfl⟩
        · exact .inl (List.take_append_drop count _)
        · rw [overwritten_overwritten earlierWithin]
          exact .inr ⟨_, Nat.max_le.mpr ⟨earlierWithin, within⟩, rfl⟩
    | truncated =>
        exact .inl rfl
  · rintro (rfl | ⟨count, within, rfl⟩)
    · exact .truncated
    · exact .cut count .untouched within

variable [DecidableEq α]

/-- How many elements two lists have in common from the start. -/
def commonPrefix : List α → List α → ℕ
  | first :: firsts, second :: seconds =>
      if first = second then commonPrefix firsts seconds + 1 else 0
  | _, _ => 0

theorem commonPrefix_le
    (first second : List α) :
    commonPrefix first second ≤ second.length := by
  induction first generalizing second with
  | nil =>
      simp [commonPrefix]
  | cons head tail inductionHypothesis =>
      cases second with
      | nil =>
          simp [commonPrefix]
      | cons other rest =>
          rw [commonPrefix]
          split
          · exact Nat.succ_le_succ (inductionHypothesis rest)
          · exact Nat.zero_le _

/-- A partly written file is the common start and the rest of the old one. -/
theorem overwritten_commonPrefix
    {count : ℕ}
    (within : count ≤ new.length) :
    overwritten new old
        (commonPrefix (overwritten new old count) new) =
      overwritten new old count := by
  induction new generalizing old count with
  | nil =>
      obtain rfl : count = 0 := Nat.le_zero.mp within
      cases old <;> rfl
  | cons head tail inductionHypothesis =>
      cases count with
      | zero =>
          cases old with
          | nil =>
              rfl
          | cons first rest =>
              rw [overwritten_zero, commonPrefix]
              split
              · next same =>
                  have shorter :=
                    @inductionHypothesis rest 0 (Nat.zero_le _)
                  rw [overwritten_zero] at shorter
                  simpa [overwritten, same] using shorter
              · rfl
      | succ fewer =>
          have shorter :=
            @inductionHypothesis old.tail fewer (Nat.le_of_succ_le_succ within)
          simpa [overwritten, commonPrefix] using shorter

theorem eq_overwritten_commonPrefix_iff :
    file = overwritten new old (commonPrefix file new) ↔
      ∃ count ≤ new.length, file = overwritten new old count := by
  constructor
  · intro partly
    exact ⟨_, commonPrefix_le file new, partly⟩
  · rintro ⟨count, within, rfl⟩
    exact (overwritten_commonPrefix within).symm

theorem torn_iff_commonPrefix :
    Torn new old file ↔
      file = new ∨
        file = overwritten new old (commonPrefix file new) := by
  rw [torn_iff, eq_overwritten_commonPrefix_iff]

instance : Decidable (Torn new old file) :=
  decidable_of_iff _ torn_iff_commonPrefix.symm

end Frameleaf.TornWrite
