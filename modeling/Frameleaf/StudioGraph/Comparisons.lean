import Frameleaf.StudioGraph.WalkLaws

namespace Frameleaf.StudioGraph

open Json JsonGraph JsonMerge JsonSame

/-!
# The comparisons of documents

The server's texts, the web host's texts and the history's summary tell the
same documents apart, up to names that a language does not tell apart.  A
summary keeps two hundred paths at most, so that a summary the other way round
may keep others.
-/

/-- A document: a value whose objects have each name once. -/
abbrev Document := {value : Json // value.isWritable = true}

/-- What the comparisons of two documents tell. -/
structure ComparisonLaws
    (localeCompare : Collation)
    (before after : Document) : Prop where
  /-- The server writes documents alike exactly if they are the same up to the
  order of names. -/
  canonical :
    canonicalJson before.1 = canonicalJson after.1 ↔ Same before.1 after.1
  /-- What the server writes is read as the same document. -/
  parsed :
    ∃ value, parse (canonicalJson before.1) = some value ∧
      Same value before.1
  /-- The web host writes documents alike only if they are the same. -/
  content :
    jsonContent localeCompare before.1 = jsonContent localeCompare after.1 →
      Same before.1 after.1
  /-- The web host writes the same documents alike, if no two names of an object
  in them compare equal. -/
  contentSame :
    AllNames (Untied localeCompare.notBehind) before.1 →
      Same before.1 after.1 →
        jsonContent localeCompare before.1 = jsonContent localeCompare after.1
  /-- No difference is reported exactly for the same documents. -/
  unchanged :
    diffStudioGraphs before.1 after.1 = {} ↔ Same before.1 after.1
  /-- The other way round, what was removed is added. -/
  added :
    (diffStudioGraphs after.1 before.1).added =
      (diffStudioGraphs before.1 after.1).removed
  /-- The other way round, what was added is removed. -/
  removed :
    (diffStudioGraphs after.1 before.1).removed =
      (diffStudioGraphs before.1 after.1).added
  /-- The other way round, as much is changed. -/
  changed :
    (diffStudioGraphs after.1 before.1).changed =
      (diffStudioGraphs before.1 after.1).changed
  /-- The other way round, paths are left out if they are. -/
  truncated :
    (diffStudioGraphs after.1 before.1).truncated =
      (diffStudioGraphs before.1 after.1).truncated
  /-- The other way round, the paths are the same if none are left out. -/
  paths :
    (diffStudioGraphs before.1 after.1).truncated = false →
      (diffStudioGraphs after.1 before.1).paths =
        (diffStudioGraphs before.1 after.1).paths

/-- A document with one value under every name. -/
def uniform
    (names : List String)
    (value : Json) : Json :=
  .object (names.map fun name => (name, value))

theorem get?_uniform
    {names : List String}
    {name : String}
    (member : name ∈ names)
    (value : Json) :
    Fields.get? (names.map fun name => (name, value)) name = some value := by
  induction names with
  | nil =>
      exact nomatch member
  | cons first names inductionHypothesis =>
      rw [List.map_cons, get?_cons]
      by_cases isFirst : first = name
      · rw [if_pos isFirst]
      · rw [if_neg isFirst]
        exact inductionHypothesis
          ((List.mem_cons.mp member).resolve_left (Ne.symm isFirst))

theorem walk_uniform
    {names others : List String}
    (permuted : names.Perm others)
    {value other : Json}
    (noBranches : ¬ Branches value other)
    (differs : value ≠ other)
    (remaining : ℕ) :
    walk (remaining + 1) (uniform names value) (uniform others other) "" =
      names.map fun name => (.changed, changedPath ("" ++ "/" ++ name)) := by
  have onlyNames : ∀ (names : List String) (value : Json),
      (names.map fun name => (name, value)).map Prod.fst = names := by
    intro names value
    rw [List.map_map]
    exact List.map_id names
  have keys : keysOf (members (uniform names value))
      (members (uniform others other)) = names := by
    rw [keysOf, uniform, uniform, members, members, onlyNames, onlyNames,
      List.filter_eq_nil_iff.mpr, List.append_nil]
    intro name isOther isNew
    exact of_decide_eq_true isNew (permuted.symm.subset isOther)
  have branches : Branches (uniform names value) (uniform others other) :=
    ⟨rfl, rfl, rfl⟩
  rw [walk_succ branches, keys, List.map_eq_flatMap]
  refine List.flatMap_congr fun name isName => ?_
  rw [uniform, uniform, members, members, get?_uniform isName,
    get?_uniform (permuted.subset isName), compared,
    walk_of_not_branches noBranches, if_neg differs]

theorem paths_counted
    (kind : Kind)
    (diff : StudioGraphDiff) :
    (counted kind diff).paths = diff.paths := by
  cases kind <;> rfl

theorem mem_paths_foldl
    {path : String}
    (differences : List Difference)
    {diff : StudioGraphDiff}
    (isKept : path ∈ diff.paths) :
    path ∈ (differences.foldl StudioGraphDiff.note diff).paths := by
  induction differences generalizing diff with
  | nil =>
      exact isKept
  | cons difference differences inductionHypothesis =>
      refine inductionHypothesis ?_
      rw [note_eq, StudioGraphDiff.record, paths_counted]
      split
      · split
        · rw [paths_counted]
          exact isKept
        · exact List.mem_append_left _ isKept
      · split <;>
        · simp only [paths_counted]
          exact isKept

theorem first_mem_paths
    (difference : Difference)
    (differences : List Difference) :
    difference.2 ∈
      ((difference :: differences).foldl StudioGraphDiff.note {}).paths := by
  refine mem_paths_foldl differences ?_
  rw [note_eq, StudioGraphDiff.record, paths_counted,
    if_pos (show List.length [] < STUDIO_DIFF_MAX_PATHS from
      Nat.zero_lt_succ _), if_neg List.not_mem_nil]
  exact List.mem_singleton_self _

theorem last_not_mem_paths
    {differences : List Difference}
    (distinct : (differences.map Prod.snd).Nodup)
    (isFull : differences.length = STUDIO_DIFF_MAX_PATHS)
    {difference : Difference}
    (isNew : difference.2 ∉ differences.map Prod.snd) :
    difference.2 ∉ ((differences ++ [difference]).foldl
      StudioGraphDiff.note {}).paths := by
  obtain ⟨-, -, -, kept⟩ := reports_foldl differences
  rw [List.foldl_append]
  generalize differences.foldl StudioGraphDiff.note {} = diff at kept
  have noRoom : ¬ diff.paths.length < STUDIO_DIFF_MAX_PATHS := by
    cases isTruncated : diff.truncated with
    | true =>
        exact (kept.full isTruncated).1.ge.not_gt
    | false =>
        have count := (List.subperm_of_subset distinct
          (kept.complete isTruncated)).length_le
        rw [List.length_map, isFull] at count
        exact count.not_gt
  have notKept : difference.2 ∉ diff.paths :=
    fun isKept => isNew (kept.reported isKept)
  rw [List.foldl_cons, List.foldl_nil, note_eq, StudioGraphDiff.record,
    paths_counted, if_neg noRoom, if_neg notKept]
  exact notKept

/-- The path of a change under a name. -/
def namePath (name : String) : String :=
  changedPath ("" ++ "/" ++ name)

theorem namePath_injective :
    Function.Injective namePath := by
  have isPath : ∀ name, namePath name = "/" ++ name := by
    intro name
    have isFilled : "" ++ "/" ++ name ≠ "" := by
      intro isEmpty
      have characters := congrArg String.toList isEmpty
      simp at characters
    rw [namePath, changedPath, if_neg isFilled]
    exact congrArg (· ++ name) String.empty_append
  intro first second alike
  rw [isPath, isPath] at alike
  exact String.append_right_inj _ |>.mp alike

/-- Documents with one difference more than is kept are summarised with other
paths the other way round. -/
theorem paths_ne_of_many
    {early : List String}
    {last : String}
    (distinct : (early ++ [last]).Nodup)
    (isFull : early.length = STUDIO_DIFF_MAX_PATHS)
    {value other : Json}
    (noBranches : ¬ Branches value other)
    (differs : value ≠ other) :
    (diffStudioGraphs (uniform (early ++ [last]).reverse other)
        (uniform (early ++ [last]) value)).paths ≠
      (diffStudioGraphs (uniform (early ++ [last]) value)
        (uniform (early ++ [last]).reverse other)).paths := by
  intro samePaths
  have reversed := (early ++ [last]).reverse_perm
  let change (name : String) : Difference := (.changed, namePath name)
  have oneWay : walk STUDIO_DIFF_MAX_DEPTH (uniform (early ++ [last]) value)
      (uniform (early ++ [last]).reverse other) "" =
        early.map change ++ [change last] := by
    rw [show STUDIO_DIFF_MAX_DEPTH = 3 + 1 from rfl,
      walk_uniform reversed.symm noBranches differs, List.map_append]
    rfl
  -- The last name is the first one that a walk the other way round comes to.
  have otherWay : walk STUDIO_DIFF_MAX_DEPTH
      (uniform (early ++ [last]).reverse other)
      (uniform (early ++ [last]) value) "" =
        change last :: early.reverse.map change := by
    rw [show STUDIO_DIFF_MAX_DEPTH = 3 + 1 from rfl,
      walk_uniform reversed (mt Branches.symm noBranches) (Ne.symm differs),
      List.reverse_append, List.map_append]
    rfl
  have isKept := first_mem_paths (change last) (early.reverse.map change)
  obtain ⟨distinctEarly, -, isNew⟩ := List.nodup_append'.mp distinct
  have notKept : (change last).2 ∉ ((early.map change ++ [change last]).foldl
      StudioGraphDiff.note {}).paths := by
    refine last_not_mem_paths ?_ ?_ ?_
    · rw [List.map_map]
      exact distinctEarly.map namePath_injective
    · rw [List.length_map, isFull]
    · rw [List.map_map]
      intro isEarly
      obtain ⟨name, isName, alike⟩ := List.mem_map.mp isEarly
      rw [namePath_injective alike] at isName
      exact isNew isName (List.mem_singleton_self _)
  rw [← otherWay] at isKept
  rw [← oneWay] at notKept
  have isReported : (change last).2 ∈ (diffStudioGraphs
      (uniform (early ++ [last]).reverse other)
      (uniform (early ++ [last]) value)).paths :=
    List.mem_mergeSort.mpr isKept
  rw [samePaths] at isReported
  exact notKept (List.mem_mergeSort.mp isReported)

/-- A document with one value under each of some names. -/
def uniformDocument
    (names : List String)
    (distinct : names.Nodup)
    (value : Json)
    (writable : value.isWritable = true) : Document :=
  ⟨uniform names value, by
    rw [uniform, Json.isWritable, Bool.and_eq_true, isWritableFields_iff]
    refine ⟨decide_eq_true ?_, List.forall_mem_map.mpr fun _ _ => writable⟩
    rw [List.map_map]
    exact (List.map_id names).symm ▸ distinct⟩

end Frameleaf.StudioGraph
