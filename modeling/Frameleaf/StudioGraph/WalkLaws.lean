import Frameleaf.StudioGraph.Diff
import Mathlib.Data.List.Induction

namespace Frameleaf.StudioGraph

open Json JsonGraph JsonMerge JsonSame

/-!
# What a walk of two graphs finds

A walk finds nothing exactly if the two graphs are the same, and a walk the
other way round finds the same paths, with what was added removed.  What is
reported of a walk depends on what it finds and not on the order of that,
unless more paths differ than are kept.
-/

/-! ## Walks -/

variable {before after : Json}

theorem same_iff_of_not_branches
    (noBranches : ¬ Branches before after) :
    Same before after ↔ before = after := by
  constructor
  · intro same
    cases same with
    | null | bool _ | number _ | string _ =>
        rfl
    | array _ _ | object _ _ =>
        exact absurd ⟨rfl, rfl, rfl⟩ noBranches
  · rintro rfl
    cases before with
    | null => exact .null
    | bool value => exact .bool value
    | number text => exact .number text
    | string value => exact .string value
    | array _ | object _ =>
        exact absurd ⟨rfl, rfl, rfl⟩ noBranches

theorem walk_of_not_branches
    (noBranches : ¬ Branches before after)
    (remaining : ℕ)
    (path : String) :
    walk remaining before after path =
      if before = after then [] else [(.changed, changedPath path)] := by
  rw [walk.eq_def]
  dsimp only
  by_cases same : before = after
  · subst same
    have isEnd : isLeaf before = true := by
      by_contra isBranch
      rw [Bool.not_eq_true] at isBranch
      exact noBranches ⟨isBranch, isBranch, rfl⟩
    rw [isEnd, decide_eq_true rfl, Bool.and_self, if_pos rfl, if_pos rfl]
  · have differs : (isLeaf before || isLeaf after ||
        isArray before != isArray after) = true := by
      by_contra alike
      rw [Bool.not_eq_true, Bool.or_eq_false_iff, Bool.or_eq_false_iff,
        bne_eq_false_iff_eq] at alike
      exact noBranches ⟨alike.1.1, alike.1.2, alike.2⟩
    rw [decide_eq_false same, Bool.and_false, if_neg Bool.false_ne_true,
      differs, if_pos rfl, if_neg same]

theorem walk_zero
    (branches : Branches before after)
    (path : String) :
    walk 0 before after path =
      if canonicalJson before ≠ canonicalJson after then
        [(.changed, changedPath path)]
      else
        [] := by
  obtain ⟨hasMembers, afterHasMembers, sameKind⟩ := branches
  rw [walk, hasMembers, afterHasMembers, sameKind, Bool.false_and,
    if_neg Bool.false_ne_true, bne_self_eq_false, Bool.or_self, Bool.or_self,
    if_neg Bool.false_ne_true]

/-- What is found at a key. -/
def compared
    (remaining : ℕ)
    (path : String) :
    Option Json → Option Json → List Difference
  | some _, none =>
      [(.removed, path)]
  | none, some _ =>
      [(.added, path)]
  | some left, some right =>
      walk remaining left right path
  | none, none =>
      []

theorem walk_succ
    (branches : Branches before after)
    (remaining : ℕ)
    (path : String) :
    walk (remaining + 1) before after path =
      (keysOf (members before) (members after)).flatMap fun key =>
        compared remaining (path ++ "/" ++ key)
          (Fields.get? (members before) key)
          (Fields.get? (members after) key) := by
  obtain ⟨hasMembers, afterHasMembers, sameKind⟩ := branches
  rw [walk, hasMembers, afterHasMembers, sameKind, Bool.false_and,
    if_neg Bool.false_ne_true, bne_self_eq_false, Bool.or_self, Bool.or_self,
    if_neg Bool.false_ne_true]
  rfl

variable {left right : Fields}

theorem mem_keysOf
    {key : String} :
    key ∈ keysOf left right ↔
      key ∈ left.map Prod.fst ∨ key ∈ right.map Prod.fst := by
  rw [keysOf, List.mem_append, List.mem_filter, decide_eq_true_eq]
  tauto

theorem compared_of_not_mem_keysOf
    {key : String}
    (missing : key ∉ keysOf left right) :
    Fields.get? left key = none ∧ Fields.get? right key = none := by
  rw [mem_keysOf, not_or] at missing
  exact ⟨get?_eq_none missing.1, get?_eq_none missing.2⟩

theorem nil_of_alike_iff
    {alike : Prop}
    [Decidable alike]
    {difference : Difference} :
    (if alike then [] else [difference]) = [] ↔ alike := by
  by_cases isAlike : alike
  · rw [if_pos isAlike]
    exact ⟨fun _ => isAlike, fun _ => rfl⟩
  · rw [if_neg isAlike]
    exact ⟨(nomatch ·), fun alike => absurd alike isAlike⟩

/-- A walk finds nothing exactly if the two values are the same. -/
theorem walk_eq_nil_iff
    (writable : before.isWritable = true)
    (afterWritable : after.isWritable = true)
    (remaining : ℕ)
    (path : String) :
    walk remaining before after path = [] ↔ Same before after := by
  induction remaining generalizing before after path with
  | zero =>
      by_cases branches : Branches before after
      · rw [walk_zero branches, ite_not, nil_of_alike_iff,
          canonicalJson_eq_iff writable afterWritable]
      · rw [walk_of_not_branches branches, nil_of_alike_iff,
          same_iff_of_not_branches branches]
  | succ remaining inductionHypothesis =>
      by_cases branches : Branches before after
      · have atKey : ∀ key,
            compared remaining (path ++ "/" ++ key)
              (Fields.get? (members before) key)
              (Fields.get? (members after) key) = [] ↔
            Option.Rel Same (Fields.get? (members before) key)
              (Fields.get? (members after) key) := by
          intro key
          cases found : Fields.get? (members before) key with
          | none =>
              cases Fields.get? (members after) key with
              | none => exact ⟨fun _ => .none, fun _ => rfl⟩
              | some right => exact ⟨(nomatch ·), (nomatch ·)⟩
          | some left =>
              cases foundAfter : Fields.get? (members after) key with
              | none => exact ⟨(nomatch ·), (nomatch ·)⟩
              | some right =>
                  have same := inductionHypothesis
                    (isWritable_member writable found)
                    (isWritable_member afterWritable foundAfter)
                    (path ++ "/" ++ key)
                  refine ⟨fun none => .some (same.mp none), fun related => ?_⟩
                  cases related with
                  | some alike => exact same.mpr alike
        rw [walk_succ branches, List.flatMap_eq_nil_iff,
          same_iff_members branches writable afterWritable]
        refine ⟨fun none key => ?_, fun each key _ => (atKey key).mpr (each key)⟩
        by_cases member : key ∈ keysOf (members before) (members after)
        · exact (atKey key).mp (none key member)
        · obtain ⟨missing, missingAfter⟩ := compared_of_not_mem_keysOf member
          rw [missing, missingAfter]
          exact .none
      · rw [walk_of_not_branches branches, nil_of_alike_iff,
          same_iff_of_not_branches branches]

/-! ## Walks the other way round -/

/-- A difference of two values as one of the values exchanged. -/
def exchanged : Difference → Difference
  | (.added, path) =>
      (.removed, path)
  | (.removed, path) =>
      (.added, path)
  | (.changed, path) =>
      (.changed, path)

theorem keysOf_perm
    (distinct : (left.map Prod.fst).Nodup)
    (rightDistinct : (right.map Prod.fst).Nodup) :
    (keysOf right left).Perm (keysOf left right) := by
  have nodup : ∀ {left right : Fields}, (left.map Prod.fst).Nodup →
      (right.map Prod.fst).Nodup → (keysOf left right).Nodup := by
    intro left right distinct rightDistinct
    refine distinct.append (rightDistinct.filter _) fun key isLeft isOther => ?_
    exact of_decide_eq_true (List.mem_filter.mp isOther).2 isLeft
  refine (List.perm_ext_iff_of_nodup (nodup rightDistinct distinct)
    (nodup distinct rightDistinct)).mpr fun key => ?_
  rw [mem_keysOf, mem_keysOf, or_comm]

theorem changed_exchanged
    {alike opposite : Prop}
    [Decidable alike]
    [Decidable opposite]
    (same : alike ↔ opposite)
    (path : String) :
    (if opposite then [] else [(Kind.changed, changedPath path)]).Perm
      ((if alike then [] else
        [(Kind.changed, changedPath path)]).map exchanged) := by
  by_cases isAlike : alike
  · rw [if_pos isAlike, if_pos (same.mp isAlike)]
    exact .nil
  · rw [if_neg isAlike, if_neg (mt same.mpr isAlike)]
    exact .refl _

theorem Branches.symm
    (branches : Branches before after) :
    Branches after before :=
  ⟨branches.2.1, branches.1, branches.2.2.symm⟩

theorem walk_exchanged
    (writable : before.isWritable = true)
    (afterWritable : after.isWritable = true)
    (remaining : ℕ)
    (path : String) :
    (walk remaining after before path).Perm
      ((walk remaining before after path).map exchanged) := by
  induction remaining generalizing before after path with
  | zero =>
      by_cases branches : Branches before after
      · rw [walk_zero branches, walk_zero branches.symm, ite_not,
          ite_not]
        exact changed_exchanged eq_comm _
      · rw [walk_of_not_branches branches,
          walk_of_not_branches (mt Branches.symm branches)]
        exact changed_exchanged eq_comm _
  | succ remaining inductionHypothesis =>
      by_cases branches : Branches before after
      · rw [walk_succ branches, walk_succ branches.symm,
          List.map_flatMap]
        refine (keysOf_perm (nodup_members writable)
          (nodup_members afterWritable)).flatMap fun key _ => ?_
        cases found : Fields.get? (members before) key with
        | none =>
            cases Fields.get? (members after) key with
            | none => exact .nil
            | some right => exact .refl _
        | some left =>
            cases foundAfter : Fields.get? (members after) key with
            | none => exact .refl _
            | some right =>
                exact inductionHypothesis (isWritable_member writable found)
                  (isWritable_member afterWritable foundAfter) _
      · rw [walk_of_not_branches branches,
          walk_of_not_branches (mt Branches.symm branches)]
        exact changed_exchanged eq_comm _

/-! ## What is reported -/

/-- What is kept of some paths: each of them once, until there is no room for
one. -/
structure Kept
    (paths : List String)
    (diff : StudioGraphDiff) : Prop where
  nodup : diff.paths.Nodup
  bounded : diff.paths.length ≤ STUDIO_DIFF_MAX_PATHS
  reported : diff.paths ⊆ paths
  complete : diff.truncated = false → paths ⊆ diff.paths
  full : diff.truncated = true → diff.paths.length = STUDIO_DIFF_MAX_PATHS ∧
    ∃ path ∈ paths, path ∉ diff.paths

variable {paths others : List String} {diff : StudioGraphDiff}

/-- Keeping a path keeps it once, if there is room. -/
theorem Kept.record
    (kept : Kept paths diff)
    (path : String) :
    Kept (paths ++ [path]) (diff.record path) := by
  have earlier : paths ⊆ paths ++ [path] := List.subset_append_left _ _
  unfold StudioGraphDiff.record
  by_cases isKept : path ∈ diff.paths
  · rw [if_pos isKept, if_pos isKept, ite_self]
    exact {
      nodup := kept.nodup
      bounded := kept.bounded
      reported := List.Subset.trans kept.reported earlier
      complete isComplete := List.append_subset.mpr
        ⟨kept.complete isComplete, List.cons_subset.mpr ⟨isKept, List.nil_subset _⟩⟩
      full isTruncated :=
        let ⟨isFull, missing, isPath, notKept⟩ := kept.full isTruncated
        ⟨isFull, missing, earlier isPath, notKept⟩ }
  · rw [if_neg isKept, if_neg isKept]
    by_cases hasRoom : diff.paths.length < STUDIO_DIFF_MAX_PATHS
    · rw [if_pos hasRoom]
      have notTruncated : diff.truncated = false := by
        by_contra isTruncated
        rw [Bool.not_eq_false] at isTruncated
        exact hasRoom.ne (kept.full isTruncated).1
      refine {
        nodup := kept.nodup.append (List.nodup_singleton _)
          (List.disjoint_singleton.mpr isKept)
        bounded := ?_
        reported := List.append_subset.mpr
          ⟨List.Subset.trans kept.reported earlier,
            List.subset_append_right _ _⟩
        complete _ := List.append_subset.mpr
          ⟨List.Subset.trans (kept.complete notTruncated)
              (List.subset_append_left _ _),
            List.subset_append_right _ _⟩
        full isTruncated := ?_ }
      · rw [List.length_append, List.length_singleton]
        exact hasRoom
      · rw [show diff.truncated = true from isTruncated] at notTruncated
        nomatch notTruncated
    · rw [if_neg hasRoom]
      exact {
        nodup := kept.nodup
        bounded := kept.bounded
        reported := List.Subset.trans kept.reported earlier
        complete isComplete := nomatch isComplete
        full _ := ⟨kept.bounded.antisymm (not_lt.mp hasRoom), path,
          List.mem_append_right _ (List.mem_singleton_self _), isKept⟩ }

theorem Kept.of_perm
    {other : StudioGraphDiff}
    (kept : Kept paths diff)
    (keptOther : Kept others other)
    (permuted : paths.Perm others) :
    diff.truncated = other.truncated ∧
      (diff.truncated = false → diff.paths.Perm other.paths) := by
  have complete : ∀ {paths others : List String}
      {diff other : StudioGraphDiff}, Kept paths diff → Kept others other →
        paths.Perm others → diff.truncated = false →
          other.truncated = false := by
    intro paths others diff other kept keptOther permuted isComplete
    by_contra isTruncated
    rw [Bool.not_eq_false] at isTruncated
    obtain ⟨isFull, missing, isPath, notKept⟩ := keptOther.full isTruncated
    have within : missing :: other.paths ⊆ diff.paths := by
      refine List.cons_subset.mpr ⟨?_, ?_⟩
      · exact kept.complete isComplete (permuted.symm.subset isPath)
      · exact List.Subset.trans keptOther.reported
          (List.Subset.trans permuted.symm.subset (kept.complete isComplete))
    have count := (List.subperm_of_subset
      (List.nodup_cons.mpr ⟨notKept, keptOther.nodup⟩) within).length_le
    have bounded := kept.bounded
    rw [List.length_cons, isFull] at count
    omega
  have sameTruncated : diff.truncated = other.truncated := by
    rw [Bool.eq_iff_iff, ← Bool.not_eq_false, ← Bool.not_eq_false]
    exact not_congr ⟨complete kept keptOther permuted,
      complete keptOther kept permuted.symm⟩
  refine ⟨sameTruncated, fun isComplete => ?_⟩
  have otherComplete := sameTruncated ▸ isComplete
  refine (List.perm_ext_iff_of_nodup kept.nodup keptOther.nodup).mpr
    fun path => ⟨fun isKept => ?_, fun isKept => ?_⟩
  · exact keptOther.complete otherComplete
      (permuted.subset (kept.reported isKept))
  · exact kept.complete isComplete
      (permuted.symm.subset (keptOther.reported isKept))

/-- How often a kind is found. -/
abbrev countOf
    (kind : Kind)
    (differences : List Difference) : ℕ :=
  differences.countP fun found => found.1 = kind

/-- What is reported of some differences. -/
structure Reports
    (differences : List Difference)
    (diff : StudioGraphDiff) : Prop where
  added : diff.added = countOf .added differences
  removed : diff.removed = countOf .removed differences
  changed : diff.changed = countOf .changed differences
  kept : Kept (differences.map Prod.snd) diff

theorem counts_record
    (path : String)
    (diff : StudioGraphDiff) :
    (diff.record path).added = diff.added ∧
      (diff.record path).removed = diff.removed ∧
        (diff.record path).changed = diff.changed := by
  unfold StudioGraphDiff.record
  split
  · split <;> exact ⟨rfl, rfl, rfl⟩
  · split <;> exact ⟨rfl, rfl, rfl⟩

/-- What is counted of a difference. -/
def counted
    (kind : Kind)
    (diff : StudioGraphDiff) : StudioGraphDiff :=
  match kind with
  | .added =>
      { diff with added := diff.added + 1 }
  | .removed =>
      { diff with removed := diff.removed + 1 }
  | .changed =>
      { diff with changed := diff.changed + 1 }

theorem note_eq
    (diff : StudioGraphDiff)
    (difference : Difference) :
    diff.note difference = (counted difference.1 diff).record difference.2 := by
  obtain ⟨kind, path⟩ := difference
  cases kind <;> rfl

theorem counts_counted
    (kind : Kind)
    (diff : StudioGraphDiff) :
    (counted kind diff).added = diff.added + countOf .added [(kind, "")] ∧
      (counted kind diff).removed =
        diff.removed + countOf .removed [(kind, "")] ∧
        (counted kind diff).changed =
          diff.changed + countOf .changed [(kind, "")] := by
  cases kind <;> exact ⟨rfl, rfl, rfl⟩

theorem Kept.counted
    (kept : Kept paths diff)
    (kind : Kind) :
    Kept paths (counted kind diff) := by
  obtain ⟨nodup, bounded, reported, complete, full⟩ := kept
  cases kind <;> exact ⟨nodup, bounded, reported, complete, full⟩

theorem Reports.note
    {differences : List Difference}
    (reports : Reports differences diff)
    (difference : Difference) :
    Reports (differences ++ [difference]) (diff.note difference) := by
  obtain ⟨added, removed, changed⟩ := counts_counted difference.1 diff
  obtain ⟨keptAdded, keptRemoved, keptChanged⟩ :=
    counts_record difference.2 (counted difference.1 diff)
  have count : ∀ kind, countOf kind (differences ++ [difference]) =
      countOf kind differences + countOf kind [(difference.1, "")] :=
    fun _ => List.countP_append
  rw [note_eq]
  refine ⟨?_, ?_, ?_, ?_⟩
  · rw [keptAdded, added, reports.added, count]
  · rw [keptRemoved, removed, reports.removed, count]
  · rw [keptChanged, changed, reports.changed, count]
  · rw [List.map_append, List.map_singleton]
    exact (reports.kept.counted difference.1).record difference.2

theorem reports_foldl
    (differences : List Difference) :
    Reports differences (differences.foldl StudioGraphDiff.note {}) := by
  induction differences using List.reverseRec with
  | nil =>
      exact ⟨rfl, rfl, rfl, List.nodup_nil, Nat.zero_le _,
        List.Subset.refl _, fun _ => List.Subset.refl _, (nomatch ·)⟩
  | append_singleton differences difference inductionHypothesis =>
      rw [List.foldl_append]
      exact inductionHypothesis.note difference

theorem diffStudioGraphs_eq
    (before after : Json) :
    ∃ diff, Reports (walk STUDIO_DIFF_MAX_DEPTH before after "") diff ∧
      diffStudioGraphs before after =
        { diff with paths := diff.paths.mergeSort unitsLe } :=
  ⟨_, reports_foldl _, rfl⟩

theorem diffStudioGraphs_eq_empty_iff
    (before after : Json) :
    diffStudioGraphs before after = {} ↔
      walk STUDIO_DIFF_MAX_DEPTH before after "" = [] := by
  constructor
  · intro unchanged
    obtain ⟨diff, reports, isReported⟩ := diffStudioGraphs_eq before after
    rw [unchanged] at isReported
    have added := congrArg StudioGraphDiff.added isReported
    have removed := congrArg StudioGraphDiff.removed isReported
    have changed := congrArg StudioGraphDiff.changed isReported
    have none : ∀ kind,
        countOf kind (walk STUDIO_DIFF_MAX_DEPTH before after "") = 0 := by
      intro kind
      cases kind with
      | added => exact reports.added.symm.trans added.symm
      | removed => exact reports.removed.symm.trans removed.symm
      | changed => exact reports.changed.symm.trans changed.symm
    refine List.eq_nil_iff_forall_not_mem.mpr fun found isFound => ?_
    exact List.countP_eq_zero.mp (none found.1) found isFound
      (decide_eq_true rfl)
  · intro unchanged
    rw [diffStudioGraphs, unchanged, List.foldl_nil, List.mergeSort_nil]

theorem mergeSort_unitsLe_eq
    (permuted : paths.Perm others) :
    paths.mergeSort unitsLe = others.mergeSort unitsLe := by
  have sorted : ∀ paths : List String,
      (paths.mergeSort unitsLe).Pairwise fun first second =>
        unitsLe first second = true :=
    List.pairwise_mergeSort unitsLe_trans unitsLe_total
  refine List.Perm.eq_of_pairwise ?_ (sorted paths) (sorted others)
    (((List.mergeSort_perm _ _).trans permuted).trans
      (List.mergeSort_perm _ _).symm)
  intro first second isFirst isSecond isBefore isAfter
  exact untied_unitsLe [first, second] first List.mem_cons_self second
    (List.mem_cons_of_mem _ (List.mem_singleton_self _)) isBefore isAfter

/-- A comparison the other way round exchanges what was added and what was
removed, and keeps the paths as long as all of them are kept. -/
theorem diffStudioGraphs_exchanged
    (writable : before.isWritable = true)
    (afterWritable : after.isWritable = true) :
    (diffStudioGraphs after before).added =
        (diffStudioGraphs before after).removed ∧
      (diffStudioGraphs after before).removed =
          (diffStudioGraphs before after).added ∧
        (diffStudioGraphs after before).changed =
            (diffStudioGraphs before after).changed ∧
          (diffStudioGraphs after before).truncated =
              (diffStudioGraphs before after).truncated ∧
            ((diffStudioGraphs before after).truncated = false →
              (diffStudioGraphs after before).paths =
                (diffStudioGraphs before after).paths) := by
  obtain ⟨diff, reports, isReported⟩ := diffStudioGraphs_eq before after
  obtain ⟨other, reportsOther, isOther⟩ := diffStudioGraphs_eq after before
  have permuted :=
    walk_exchanged writable afterWritable STUDIO_DIFF_MAX_DEPTH ""
  have count : ∀ kind opposite : Kind,
      (∀ found : Difference, (exchanged found).1 = kind ↔
        found.1 = opposite) →
        countOf kind (walk STUDIO_DIFF_MAX_DEPTH after before "") =
          countOf opposite (walk STUDIO_DIFF_MAX_DEPTH before after "") := by
    intro kind opposite isOpposite
    rw [countOf, permuted.countP_eq, List.countP_map]
    exact List.countP_congr fun found _ => by
      rw [Function.comp_apply, decide_eq_true_eq, decide_eq_true_eq]
      exact isOpposite found
  have paths : ((walk STUDIO_DIFF_MAX_DEPTH after before "").map
      Prod.snd).Perm
        ((walk STUDIO_DIFF_MAX_DEPTH before after "").map Prod.snd) := by
    have same := permuted.map Prod.snd
    rw [List.map_map] at same
    refine same.trans (.of_eq (List.map_congr_left fun found _ => ?_))
    obtain ⟨kind, path⟩ := found
    cases kind <;> rfl
  obtain ⟨sameTruncated, samePaths⟩ :=
    reports.kept.of_perm reportsOther.kept paths.symm
  rw [isReported, isOther]
  refine ⟨?_, ?_, ?_, sameTruncated.symm, fun isComplete => ?_⟩
  · rw [reportsOther.added, reports.removed]
    refine count .added .removed fun found => ?_
    obtain ⟨kind, path⟩ := found
    cases kind <;> simp [exchanged]
  · rw [reportsOther.removed, reports.added]
    refine count .removed .added fun found => ?_
    obtain ⟨kind, path⟩ := found
    cases kind <;> simp [exchanged]
  · rw [reportsOther.changed, reports.changed]
    refine count .changed .changed fun found => ?_
    obtain ⟨kind, path⟩ := found
    cases kind <;> simp [exchanged]
  · exact (mergeSort_unitsLe_eq (samePaths isComplete)).symm

end Frameleaf.StudioGraph
