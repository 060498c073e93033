import Mathlib.Data.List.AList

namespace Frameleaf.Table

/-!
# Keyed tables and the statements that change them

A table is an association list with distinct keys.  A statement selects rows by
a condition and rewrites each of them; a row is looked up by its key.  Every
fact is stated through `lookup`, so that what a statement does to one row is
all there is to know about it.
-/

variable {Key Row : Type*}

/-- A table of rows under distinct keys. -/
abbrev Rows (Key Row : Type*) := AList fun _ : Key => Row

/-- Rewrite one entry when it meets the condition. -/
def rewriteEntry
    (condition : Key → Row → Bool)
    (change : Key → Row → Row)
    (entry : Sigma fun _ : Key => Row) : Sigma fun _ : Key => Row :=
  ⟨entry.1,
    if condition entry.1 entry.2 then change entry.1 entry.2 else entry.2⟩

theorem keys_rewriteEntry
    (condition : Key → Row → Bool)
    (change : Key → Row → Row)
    (entries : List (Sigma fun _ : Key => Row)) :
    (entries.map (rewriteEntry condition change)).keys = entries.keys := by
  simp [List.keys, rewriteEntry, Function.comp_def]

/-- Rewrite every row that meets the condition. -/
def updateWhere
    (condition : Key → Row → Bool)
    (change : Key → Row → Row)
    (table : Rows Key Row) : Rows Key Row where
  entries := table.entries.map (rewriteEntry condition change)
  nodupKeys := by
    rw [List.NodupKeys, keys_rewriteEntry]
    exact table.nodupKeys

variable [DecidableEq Key]

/-- The rows after an update, looked up by key. -/
@[simp] theorem lookup_updateWhere
    (condition : Key → Row → Bool)
    (change : Key → Row → Row)
    (table : Rows Key Row)
    (key : Key) :
    (updateWhere condition change table).lookup key =
      (table.lookup key).map fun row =>
        if condition key row then change key row else row := by
  obtain ⟨entries, distinct⟩ := table
  simp only [AList.lookup, updateWhere]
  induction entries with
  | nil =>
      rfl
  | cons entry rest inductionHypothesis =>
      have restDistinct := (List.nodupKeys_cons.mp distinct).2
      by_cases sameKey : key = entry.1
      · subst sameKey
        obtain ⟨key, row⟩ := entry
        simp [rewriteEntry]
      · have keptApart :
            key ≠ (rewriteEntry condition change entry).1 := sameKey
        rw [List.map_cons, List.dlookup_cons_ne _ _ keptApart,
          List.dlookup_cons_ne _ _ sameKey]
        exact inductionHypothesis restDistinct

/-- The keys of the rows that meet a condition, in table order. -/
def select
    (condition : Key → Row → Bool)
    (table : Rows Key Row) : List Key :=
  (table.entries.filter fun entry => condition entry.1 entry.2).keys

variable {condition : Key → Row → Bool} {table : Rows Key Row}

/-- A key is selected exactly when its row meets the condition. -/
@[simp] theorem mem_select
    {key : Key} :
    key ∈ select condition table ↔
      ∃ row, table.lookup key = some row ∧ condition key row = true := by
  simp only [select, List.keys, List.mem_map, List.mem_filter]
  constructor
  · rintro ⟨⟨found, row⟩, ⟨member, holds⟩, rfl⟩
    exact ⟨row, AList.mem_lookup_iff.mpr member, holds⟩
  · rintro ⟨row, found, holds⟩
    exact ⟨⟨key, row⟩, ⟨AList.mem_lookup_iff.mp found, holds⟩, rfl⟩

theorem updateWhere_eq_self
    {change : Key → Row → Row}
    (missed : ∀ key row, table.lookup key = some row →
      condition key row = false) :
    updateWhere condition change table = table := by
  apply AList.ext
  calc table.entries.map (rewriteEntry condition change)
    _ = table.entries.map id := by
        apply List.map_congr_left
        intro entry member
        have found := AList.mem_lookup_iff.mpr member
        rw [rewriteEntry, missed entry.1 entry.2 found]
        rfl
    _ = table.entries := List.map_id _

theorem select_eq_nil
    (missed : ∀ key row, table.lookup key = some row →
      condition key row = false) :
    select condition table = [] := by
  apply List.eq_nil_iff_forall_not_mem.mpr
  intro key member
  obtain ⟨row, found, holds⟩ := mem_select.mp member
  rw [missed key row found] at holds
  cases holds

/-- The first row that meets a condition. -/
def first
    (condition : Key → Row → Bool)
    (table : Rows Key Row) : Option (Key × Row) :=
  (table.entries.find? fun entry => condition entry.1 entry.2).map
    fun entry => (entry.1, entry.2)

theorem first_eq_some
    {key : Key}
    {row : Row}
    (found : first condition table = some (key, row)) :
    table.lookup key = some row ∧ condition key row = true := by
  simp only [first, Option.map_eq_some_iff, Prod.mk.injEq] at found
  obtain ⟨⟨foundKey, foundRow⟩, foundEntry, rfl, rfl⟩ := found
  exact ⟨AList.mem_lookup_iff.mpr (List.mem_of_find?_eq_some foundEntry),
    List.find?_some (p := fun entry : Sigma fun _ : Key => Row =>
      condition entry.1 entry.2) foundEntry⟩

theorem first_eq_none_iff :
    first condition table = none ↔
      ∀ key row, table.lookup key = some row → condition key row = false := by
  simp only [first, Option.map_eq_none_iff, List.find?_eq_none]
  constructor
  · intro none key row found
    have member := AList.mem_lookup_iff.mp found
    simpa using none ⟨key, row⟩ member
  · rintro none ⟨key, row⟩ member
    have found := none key row (AList.mem_lookup_iff.mpr member)
    simp [found]

end Frameleaf.Table
