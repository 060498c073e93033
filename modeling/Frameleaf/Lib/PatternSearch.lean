import Mathlib.Data.List.Infix

namespace Frameleaf.PatternSearch

/-!
# Searching a list for a pattern

A search gives the list from the first place where the pattern stands.
-/

universe u

variable {α : Type u} [DecidableEq α]

/-- A list from the first place where a pattern stands. -/
def fromFirst
    (pattern : List α) : List α → Option (List α)
  | [] =>
      if pattern = [] then some [] else none
  | first :: rest =>
      if pattern <+: first :: rest then
        some (first :: rest)
      else
        fromFirst pattern rest

variable {pattern list found before after : List α}

theorem fromFirst_suffix
    (isFound : fromFirst pattern list = some found) :
    found <:+ list := by
  induction list with
  | nil =>
      rw [fromFirst] at isFound
      split at isFound
      · cases isFound
        exact List.suffix_refl _
      · exact nomatch isFound
  | cons first rest inductionHypothesis =>
      rw [fromFirst] at isFound
      split at isFound
      · cases isFound
        exact List.suffix_refl _
      · exact (inductionHypothesis isFound).trans (List.suffix_cons _ _)

theorem prefix_fromFirst
    (isFound : fromFirst pattern list = some found) :
    pattern <+: found := by
  induction list with
  | nil =>
      rw [fromFirst] at isFound
      split at isFound
      · rename_i isEmpty
        rw [isEmpty]
        exact List.nil_prefix
      · exact nomatch isFound
  | cons first rest inductionHypothesis =>
      rw [fromFirst] at isFound
      split at isFound
      · rename_i stands
        cases isFound
        exact stands
      · exact inductionHypothesis isFound

theorem fromFirst_append
    (stands : pattern <+: after)
    (nowhere : ∀ suffix, suffix <:+ before → suffix ≠ [] →
      ¬pattern <+: suffix ++ after) :
    fromFirst pattern (before ++ after) = some after := by
  induction before with
  | nil =>
      cases after with
      | nil =>
          rw [List.prefix_nil.mp stands]
          rfl
      | cons first rest =>
          rw [List.nil_append, fromFirst, if_pos stands]
  | cons first before inductionHypothesis =>
      have notHere : ¬pattern <+: first :: (before ++ after) :=
        nowhere _ (List.suffix_refl _) (List.cons_ne_nil _ _)
      rw [List.cons_append, fromFirst, if_neg notHere]
      exact inductionHypothesis fun suffix isSuffix =>
        nowhere suffix (isSuffix.trans (List.suffix_cons _ _))

omit [DecidableEq α] in
/-- A pattern of two symbols starts nowhere in a list that does not hold it,
also at its end before the pattern's own first symbol. -/
theorem nowhere_of_pair
    {first second : α}
    (differs : first ≠ second)
    (absent : ¬[first, second] <:+: before)
    (follows : after.head? = some first)
    (suffix : List α)
    (isSuffix : suffix <:+ before)
    (nonempty : suffix ≠ []) :
    ¬[first, second] <+: suffix ++ after := by
  intro stands
  cases suffix with
  | nil =>
      exact nonempty rfl
  | cons one rest =>
      cases rest with
      | nil =>
          cases after with
          | nil =>
              exact nomatch follows
          | cons next after =>
              obtain ⟨-, isSecond⟩ := List.cons_prefix_cons.mp stands
              obtain ⟨same, -⟩ := List.cons_prefix_cons.mp isSecond
              exact differs ((Option.some.inj follows).symm.trans same.symm)
      | cons two rest =>
          obtain ⟨isFirst, isRest⟩ := List.cons_prefix_cons.mp stands
          obtain ⟨isSecond, -⟩ := List.cons_prefix_cons.mp isRest
          subst isFirst
          subst isSecond
          have held : [first, second] <+: first :: second :: rest :=
            ⟨rest, rfl⟩
          exact absent (held.isInfix.trans isSuffix.isInfix)

end Frameleaf.PatternSearch
