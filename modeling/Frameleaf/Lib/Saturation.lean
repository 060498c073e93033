import Mathlib.Data.List.Basic

namespace Frameleaf.Saturation

/-!
# The least set closed under a relation

A recursive query starts from seeds and adds every candidate related to one
already found, until a round adds nothing.  The result is exactly the set of
candidates that a chain of relations reaches.
-/

variable {Item : Type*}

/--
Add the candidates related to one found, round by round.  Each round that goes
on has moved a candidate, so one unit of fuel for each candidate is enough.
-/
def saturate
    (related : Item → Item → Bool) :
    ℕ → List Item → List Item → List Item
  | 0, found, _ => found
  | fuel + 1, found, candidates =>
      let reached :=
        candidates.filter fun item => found.any fun source => related source item
      let rest :=
        candidates.filter fun item =>
          !found.any fun source => related source item
      if reached.isEmpty then
        found
      else
        saturate related fuel (found ++ reached) rest

/-- What a chain of related candidates reaches from the seeds. -/
inductive Reached
    (related : Item → Item → Bool)
    (seeds candidates : List Item) : Item → Prop where
  | seed {item : Item} :
      item ∈ seeds → Reached related seeds candidates item
  | next {source item : Item} :
      Reached related seeds candidates source →
      item ∈ candidates → related source item = true →
      Reached related seeds candidates item

variable {related : Item → Item → Bool} {fuel : ℕ}
variable {found candidates : List Item} {item : Item}

theorem Reached.of_round
    (reached :
      Reached related
        (found ++ candidates.filter fun item =>
          found.any fun source => related source item)
        (candidates.filter fun item =>
          !found.any fun source => related source item) item) :
    Reached related found candidates item := by
  induction reached with
  | seed member =>
      rcases List.mem_append.mp member with old | new
      · exact Reached.seed old
      · obtain ⟨isCandidate, hasSource⟩ := List.mem_filter.mp new
        obtain ⟨source, sourceFound, isRelated⟩ := List.any_eq_true.mp hasSource
        exact Reached.next (Reached.seed sourceFound) isCandidate isRelated
  | next _ member isRelated inductionHypothesis =>
      exact Reached.next inductionHypothesis (List.mem_filter.mp member).1
        isRelated

theorem reached_of_mem_saturate
    (member : item ∈ saturate related fuel found candidates) :
    Reached related found candidates item := by
  induction fuel generalizing found candidates with
  | zero =>
      exact Reached.seed member
  | succ fuel inductionHypothesis =>
      simp only [saturate] at member
      split at member
      · exact Reached.seed member
      · exact (inductionHypothesis member).of_round

theorem mem_saturate_of_mem
    (member : item ∈ found) :
    item ∈ saturate related fuel found candidates := by
  induction fuel generalizing found candidates with
  | zero =>
      exact member
  | succ fuel inductionHypothesis =>
      simp only [saturate]
      split
      · exact member
      · exact inductionHypothesis (List.mem_append_left _ member)

/-- With enough fuel nothing related to the result is left out. -/
theorem saturate_closed
    {source : Item}
    (enough : candidates.length ≤ fuel)
    (sourceFound : source ∈ saturate related fuel found candidates)
    (isCandidate : item ∈ candidates)
    (isRelated : related source item = true) :
    item ∈ saturate related fuel found candidates := by
  induction fuel generalizing found candidates with
  | zero =>
      have none := List.length_eq_zero_iff.mp (Nat.le_zero.mp enough)
      simp [none] at isCandidate
  | succ fuel inductionHypothesis =>
      simp only [saturate] at sourceFound ⊢
      generalize reachedEq :
        (candidates.filter fun item =>
          found.any fun source => related source item) = reached at *
      generalize restEq :
        (candidates.filter fun item =>
          !found.any fun source => related source item) = rest at *
      split at sourceFound
      · rename_i noneReached
        have itemReached : item ∈ reached := by
          rw [← reachedEq]
          exact List.mem_filter.mpr
            ⟨isCandidate, List.any_eq_true.mpr ⟨source, sourceFound, isRelated⟩⟩
        simp [List.isEmpty_iff.mp noneReached] at itemReached
      · rename_i someReached
        rw [if_neg someReached]
        by_cases itemReached : item ∈ reached
        · exact mem_saturate_of_mem (List.mem_append_right _ itemReached)
        · have itemRest : item ∈ rest := by
            rw [← restEq]
            rw [← reachedEq] at itemReached
            simp only [List.mem_filter, isCandidate, true_and] at itemReached ⊢
            simpa using itemReached
          have fewer : rest.length ≤ fuel := by
            have partition :
                candidates.length = reached.length + rest.length := by
              rw [← reachedEq, ← restEq]
              exact List.length_eq_length_filter_add _
            have nonempty : 0 < reached.length := by
              cases reached with
              | nil =>
                  simp at someReached
              | cons head tail =>
                  simp
            omega
          exact inductionHypothesis fewer sourceFound itemRest

theorem mem_saturate_iff
    (enough : candidates.length ≤ fuel) :
    item ∈ saturate related fuel found candidates ↔
      Reached related found candidates item := by
  constructor
  · exact reached_of_mem_saturate
  · intro reached
    induction reached with
    | seed member =>
        exact mem_saturate_of_mem member
    | next _ isCandidate isRelated inductionHypothesis =>
        exact saturate_closed enough inductionHypothesis isCandidate isRelated

end Frameleaf.Saturation
