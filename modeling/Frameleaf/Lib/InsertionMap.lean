import Mathlib.Data.List.Basic
import Mathlib.Data.List.Nodup

namespace Frameleaf.InsertionMaps

/-!
# Maps that keep the order of insertion

Setting a key that is there keeps its position; a new key comes last.  What an
operation does is stated through `get`.
-/

variable {Key Value : Type*}

/-- A map whose entries are in the order in which their keys were added. -/
structure InsertionMap (Key Value : Type*) where
  entries : List (Key × Value)
  distinct : (entries.map Prod.fst).Nodup

/-- A map without entries. -/
def InsertionMap.empty : InsertionMap Key Value where
  entries := []
  distinct := List.nodup_nil

variable [DecidableEq Key]

/-- The value of a key. -/
def InsertionMap.get
    (map : InsertionMap Key Value)
    (key : Key) : Option Value :=
  map.entries.lookup key

/-- Replace the value of a key that is there. -/
def replaceValue
    (key : Key)
    (value : Value)
    (entry : Key × Value) : Key × Value :=
  if entry.1 = key then (key, value) else entry

theorem keys_replaceValue
    (key : Key)
    (value : Value)
    (entries : List (Key × Value)) :
    (entries.map (replaceValue key value)).map Prod.fst =
      entries.map Prod.fst := by
  rw [List.map_map]
  apply List.map_congr_left
  intro entry member
  change (replaceValue key value entry).1 = entry.1
  unfold replaceValue
  split
  · rename_i same
    exact same.symm
  · rfl

/-- Set the value of a key. -/
def InsertionMap.set
    (map : InsertionMap Key Value)
    (key : Key)
    (value : Value) : InsertionMap Key Value :=
  if isThere : key ∈ map.entries.map Prod.fst then
    { entries := map.entries.map (replaceValue key value)
      distinct := by
        rw [keys_replaceValue]
        exact map.distinct }
  else
    { entries := map.entries ++ [(key, value)]
      distinct := by
        rw [List.map_append, List.nodup_append]
        refine ⟨map.distinct, List.nodup_singleton _, ?_⟩
        rintro first member _ isKey rfl
        rw [List.map_singleton, List.mem_singleton] at isKey
        subst isKey
        exact isThere member }

/-- Remove a key. -/
def InsertionMap.delete
    (map : InsertionMap Key Value)
    (key : Key) : InsertionMap Key Value where
  entries := map.entries.filter fun entry => entry.1 ≠ key
  distinct := map.distinct.sublist (List.filter_sublist.map Prod.fst)

/-- Without entries no key has a value. -/
@[simp] theorem InsertionMap.get_empty
    (key : Key) :
    (InsertionMap.empty : InsertionMap Key Value).get key = none :=
  rfl

/-- Looking a key up among entries with one value replaced. -/
theorem lookup_replaceValue
    {key : Key}
    {entries : List (Key × Value)}
    (isThere : key ∈ entries.map Prod.fst)
    (value : Value)
    (other : Key) :
    (entries.map (replaceValue key value)).lookup other =
      if other = key then some value else entries.lookup other := by
  induction entries with
  | nil =>
      cases isThere
  | cons entry entries inductionHypothesis =>
      obtain ⟨first, current⟩ := entry
      rw [List.map_cons]
      by_cases isFirst : first = key
      · subst isFirst
        rw [replaceValue, if_pos rfl]
        by_cases isOther : other = first
        · subst isOther
          rw [if_pos rfl, List.lookup_cons_self]
        · have unequal : (other == first) = false := beq_false_of_ne isOther
          rw [if_neg isOther, List.lookup_cons, List.lookup_cons, unequal]
          dsimp only
          by_cases isLater : first ∈ entries.map Prod.fst
          · rw [inductionHypothesis isLater, if_neg isOther]
          · have same : entries.map (replaceValue first value) = entries := by
              calc entries.map (replaceValue first value)
                _ = entries.map id := by
                    apply List.map_congr_left
                    intro later member
                    rw [replaceValue, if_neg]
                    · rfl
                    · rintro rfl
                      exact isLater (List.mem_map_of_mem member)
                _ = entries := List.map_id _
            rw [same]
      · have isLater : key ∈ entries.map Prod.fst := by
          rcases List.mem_cons.mp isThere with isHere | isLater
          · exact absurd isHere.symm isFirst
          · exact isLater
        rw [replaceValue, if_neg isFirst, List.lookup_cons, List.lookup_cons]
        cases isOther : other == first with
        | true =>
            have same := eq_of_beq isOther
            subst same
            rw [if_neg isFirst]
        | false =>
            exact inductionHypothesis isLater

theorem InsertionMap.get_set
    (map : InsertionMap Key Value)
    (key : Key)
    (value : Value)
    (other : Key) :
    (map.set key value).get other =
      if other = key then some value else map.get other := by
  unfold InsertionMap.set InsertionMap.get
  split
  · rename_i isThere
    exact lookup_replaceValue isThere value other
  · rename_i isNew
    dsimp only
    rw [List.lookup_append]
    by_cases isOther : other = key
    · subst isOther
      have absent : map.entries.lookup other = none := by
        rw [List.lookup_eq_none_iff]
        intro entry member
        apply bne_iff_ne.mpr
        rintro rfl
        exact isNew (List.mem_map_of_mem member)
      rw [absent, if_pos rfl, Option.none_or, List.lookup_cons_self]
    · have unequal : (other == key) = false := beq_false_of_ne isOther
      rw [if_neg isOther, List.lookup_cons, unequal, List.lookup_nil,
        Option.or_none]

theorem InsertionMap.get_delete
    (map : InsertionMap Key Value)
    (key other : Key) :
    (map.delete key).get other =
      if other = key then none else map.get other := by
  unfold InsertionMap.delete InsertionMap.get
  dsimp only
  induction map.entries with
  | nil =>
      rw [List.filter_nil, List.lookup_nil, ite_self]
  | cons entry entries inductionHypothesis =>
      obtain ⟨first, value⟩ := entry
      rw [List.filter_cons, List.lookup_cons]
      by_cases isFirst : first = key
      · subst isFirst
        rw [if_neg (by simp), inductionHypothesis]
        by_cases isOther : other = first
        · rw [if_pos isOther, if_pos isOther]
        · rw [if_neg isOther, if_neg isOther, beq_false_of_ne isOther]
      · rw [if_pos (by simpa using isFirst), List.lookup_cons]
        cases isOther : other == first with
        | true =>
            have same := eq_of_beq isOther
            subst same
            rw [if_neg isFirst]
        | false =>
            exact inductionHypothesis

theorem InsertionMap.mem_entries_of_get
    {map : InsertionMap Key Value}
    {key : Key}
    {value : Value}
    (isThere : map.get key = some value) :
    (key, value) ∈ map.entries := by
  obtain ⟨first, second, isEntries, -⟩ :=
    List.lookup_eq_some_iff.mp isThere
  rw [isEntries]
  exact List.mem_append_right _ List.mem_cons_self

end Frameleaf.InsertionMaps
