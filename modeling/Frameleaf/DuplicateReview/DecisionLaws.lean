import Frameleaf.DuplicateReview.Decisions
import Mathlib.Algebra.BigOperators.Group.List.Basic

namespace Frameleaf.DuplicateReview

open Aligned

/-!
# What accepted decisions promise

Groups that are accepted have members of their own, and the asset ids of their
job are these members group by group.  The batches of the job are the members
of successive groups, and every group keeps a member.
-/

/-- A decision about a group that can run. -/
structure DuplicateGroupDecision.CanRun
    (group : DuplicateGroupDecision) : Prop where
  several : 2 ≤ group.memberIds.length
  keepers : group.keepAssetIds ⊆ group.memberIds
  chosen : group.decision = .keepers → group.keepAssetIds ≠ []

/-- The groups and the asset ids of an accepted job. -/
structure Accepted
    (groups : List DuplicateGroupDecision)
    (assetIds : List String) : Prop where
  distinct : (groups.map DuplicateGroupDecision.duplicateId).Nodup
  apart : (duplicateGroupAssetIds groups).Nodup
  canRun : ∀ group ∈ groups, group.CanRun
  listed : duplicateGroupAssetIds groups = assetIds

variable {group : DuplicateGroupDecision}

theorem DuplicateGroupDecision.CanRun.of_problem
    (noProblem : duplicateGroupProblem group = none) :
    group.CanRun := by
  unfold duplicateGroupProblem at noProblem
  split at noProblem
  · exact nomatch noProblem
  · rename_i several
    split at noProblem
    · exact nomatch noProblem
    · rename_i keepers
      split at noProblem
      · exact nomatch noProblem
      · rename_i chosen
        refine ⟨Nat.le_of_not_lt several, ?_, ?_⟩
        · intro id kept
          exact Decidable.byContradiction fun missing =>
            keepers ⟨id, kept, missing⟩
        · intro isKeepers none
          exact chosen ⟨isKeepers, by rw [none]; rfl⟩

theorem addMembers_eq_some
    {seenAssets members after : List String}
    (added : addMembers seenAssets members = some after) :
    members.Nodup ∧ (∀ id ∈ members, id ∉ seenAssets) ∧
      ∀ id, id ∈ after ↔ id ∈ members ∨ id ∈ seenAssets := by
  induction members generalizing seenAssets with
  | nil =>
      cases added
      exact ⟨List.nodup_nil, nofun, fun id => by simp⟩
  | cons first rest inductionHypothesis =>
      rw [addMembers] at added
      split at added
      · exact nomatch added
      · rename_i unseen
        obtain ⟨nodup, fresh, seen⟩ := inductionHypothesis added
        refine ⟨List.nodup_cons.mpr ⟨?_, nodup⟩, ?_, ?_⟩
        · exact fun member => fresh first member List.mem_cons_self
        · intro id member
          rcases List.mem_cons.mp member with rfl | inRest
          · exact unseen
          · exact fun wasSeen =>
              fresh id inRest (List.mem_cons_of_mem first wasSeen)
        · intro id
          rw [seen, List.mem_cons, List.mem_cons]
          tauto

variable {groups rest before : List DuplicateGroupDecision}

/-- Groups without a problem have ids and members of their own that were not
seen before, and each of them can run. -/
theorem duplicateGroupsProblem_eq_none
    {undo : Bool}
    {seenGroups seenAssets : List String}
    (noProblem :
      duplicateGroupsProblem undo seenGroups seenAssets groups = none) :
    (groups.map DuplicateGroupDecision.duplicateId).Nodup ∧
      (∀ group ∈ groups, group.duplicateId ∉ seenGroups) ∧
      (duplicateGroupAssetIds groups).Nodup ∧
      (∀ id ∈ duplicateGroupAssetIds groups, id ∉ seenAssets) ∧
      ∀ group ∈ groups, group.CanRun := by
  induction groups generalizing seenGroups seenAssets with
  | nil =>
      exact ⟨List.nodup_nil, nofun, List.nodup_nil, nofun, nofun⟩
  | cons first rest inductionHypothesis =>
      rw [duplicateGroupsProblem] at noProblem
      split at noProblem
      · exact nomatch noProblem
      rename_i newGroup
      split at noProblem
      · exact nomatch noProblem
      rename_i noGroupProblem
      split at noProblem
      · exact nomatch noProblem
      split at noProblem
      · exact nomatch noProblem
      rename_i after added
      obtain ⟨distinct, freshGroups, apart, freshAssets, canRun⟩ :=
        inductionHypothesis noProblem
      obtain ⟨nodup, fresh, seen⟩ := addMembers_eq_some added
      refine ⟨?_, ?_, ?_, ?_, ?_⟩
      · refine List.nodup_cons.mpr ⟨?_, distinct⟩
        intro isThere
        obtain ⟨group, member, same⟩ := List.mem_map.mp isThere
        exact freshGroups group member (same ▸ List.mem_cons_self)
      · intro group member
        rcases List.mem_cons.mp member with rfl | inRest
        · exact newGroup
        · exact fun wasSeen =>
            freshGroups group inRest (List.mem_cons_of_mem _ wasSeen)
      · refine List.nodup_append'.mpr ⟨nodup, apart, ?_⟩
        intro id inFirst inRest
        exact freshAssets id inRest ((seen id).mpr (Or.inl inFirst))
      · intro id member
        rcases List.mem_append.mp member with inFirst | inRest
        · exact fresh id inFirst
        · exact fun wasSeen =>
            freshAssets id inRest ((seen id).mpr (Or.inr wasSeen))
      · intro group member
        rcases List.mem_cons.mp member with rfl | inRest
        · exact .of_problem noGroupProblem
        · exact canRun group inRest

theorem Accepted.of_problem
    {assetIds : List String}
    {undo : Bool}
    (noProblem : duplicateDecisionProblem groups assetIds undo = none) :
    Accepted groups assetIds := by
  unfold duplicateDecisionProblem at noProblem
  split at noProblem
  · exact nomatch noProblem
  split at noProblem
  · exact nomatch noProblem
  split at noProblem
  · exact nomatch noProblem
  rename_i noGroupsProblem
  dsimp only at noProblem
  split at noProblem
  · exact nomatch noProblem
  rename_i alike
  obtain ⟨distinct, -, apart, -, canRun⟩ :=
    duplicateGroupsProblem_eq_none noGroupsProblem
  obtain ⟨sameLength, sameIds⟩ := not_or.mp alike
  refine ⟨distinct, apart, canRun, ?_⟩
  refine List.ext_getElem (not_not.mp sameLength) fun index inGroups inIds => ?_
  have same : assetIds[index]? =
      some (duplicateGroupAssetIds groups)[index] := by
    refine Decidable.byContradiction fun differs => sameIds ?_
    refine ⟨((duplicateGroupAssetIds groups)[index], index), ?_, differs⟩
    exact List.mk_mem_zipIdx_iff_getElem?.mpr (List.getElem?_eq_getElem _)
  rw [List.getElem?_eq_getElem inIds] at same
  exact (Option.some.inj same).symm

/-- The label and the items of a group. -/
def DuplicateGroupDecision.labelled
    (group : DuplicateGroupDecision) : String × List String :=
  (group.duplicateId, group.memberIds)

theorem members_labelled
    (groups : List DuplicateGroupDecision) :
    members (groups.map DuplicateGroupDecision.labelled) =
      duplicateGroupAssetIds groups :=
  List.flatMap_map ..

theorem index_members
    (index : GroupIndex)
    (memberIds : List String)
    (duplicateId id : String) :
    memberIds.foldl
        (fun index member => Function.update index member (some duplicateId))
        index id =
      if id ∈ memberIds then some duplicateId else index id := by
  induction memberIds generalizing index with
  | nil =>
      rfl
  | cons first rest inductionHypothesis =>
      rw [List.foldl_cons, inductionHypothesis]
      by_cases inRest : id ∈ rest
      · rw [if_pos inRest, if_pos (List.mem_cons_of_mem first inRest)]
      · rw [if_neg inRest, Function.update_apply]
        simp only [List.mem_cons, inRest, or_false]

theorem index_groups
    (index : GroupIndex)
    (apart : (duplicateGroupAssetIds groups).Nodup)
    (id : String) :
    (∀ group ∈ groups, id ∈ group.memberIds →
      groups.foldl
          (fun index group =>
            group.memberIds.foldl
              (fun index id =>
                Function.update index id (some group.duplicateId))
              index)
          index id =
        some group.duplicateId) ∧
      (id ∉ duplicateGroupAssetIds groups →
        groups.foldl
            (fun index group =>
              group.memberIds.foldl
                (fun index id =>
                  Function.update index id (some group.duplicateId))
                index)
            index id =
          index id) := by
  induction groups generalizing index with
  | nil =>
      exact ⟨nofun, fun _ => rfl⟩
  | cons first rest inductionHypothesis =>
      obtain ⟨-, restApart, disjoint⟩ := List.nodup_append'.mp apart
      obtain ⟨known, unknown⟩ := inductionHypothesis
        (first.memberIds.foldl
          (fun index id => Function.update index id (some first.duplicateId))
          index) restApart
      refine ⟨?_, ?_⟩
      · intro group member inGroup
        rw [List.foldl_cons]
        rcases List.mem_cons.mp member with rfl | inRest
        · rw [unknown (disjoint inGroup), index_members, if_pos inGroup]
        · exact known group inRest inGroup
      · intro missing
        obtain ⟨notFirst, notRest⟩ :=
          not_or.mp (mt List.mem_append.mpr missing)
        rw [List.foldl_cons, unknown notRest, index_members, if_neg notFirst]

variable
  {groups : List DuplicateGroupDecision}
  {assetIds : List String}

theorem Accepted.labelled
    (accepted : Accepted groups assetIds) :
    Labelled (duplicateGroupIndex groups)
      (groups.map DuplicateGroupDecision.labelled) where
  nonempty := by
    intro labelled member none
    obtain ⟨group, isGroup, rfl⟩ := List.mem_map.mp member
    have several := (accepted.canRun group isGroup).several
    have noMembers : group.memberIds = [] := none
    rw [noMembers] at several
    exact absurd several (by decide)
  known := by
    intro labelled member id inGroup
    obtain ⟨group, isGroup, rfl⟩ := List.mem_map.mp member
    exact (index_groups _ accepted.apart id).1 group isGroup inGroup
  distinct := by
    rw [List.map_map]
    exact accepted.distinct

theorem duplicateGroupAssetIds_append
    (first second : List DuplicateGroupDecision) :
    duplicateGroupAssetIds (first ++ second) =
      duplicateGroupAssetIds first ++ duplicateGroupAssetIds second :=
  List.flatMap_append

theorem Accepted.length_pos
    (accepted : Accepted groups assetIds)
    (inGroups : rest ⊆ groups)
    (more : rest ≠ []) :
    0 < (duplicateGroupAssetIds rest).length := by
  obtain ⟨group, others, rfl⟩ := List.exists_cons_of_ne_nil more
  have several :=
    (accepted.canRun group (inGroups List.mem_cons_self)).several
  have counted : (duplicateGroupAssetIds (group :: others)).length =
      group.memberIds.length + (duplicateGroupAssetIds others).length :=
    List.length_append
  omega

/-- After whole groups the next batch is of whole groups. -/
theorem Accepted.bulkBatchLength_eq
    (accepted : Accepted groups assetIds)
    (size : ℕ)
    (shape : groups = before ++ rest)
    (more : rest ≠ []) :
    ∃ chunk after,
      rest = chunk ++ after ∧ chunk ≠ [] ∧
        bulkBatchLength assetIds (duplicateGroupAssetIds before).length size
            (some (duplicateGroupIndex groups)) =
          (duplicateGroupAssetIds chunk).length := by
  have labelled : Labelled (duplicateGroupIndex groups)
      (rest.map DuplicateGroupDecision.labelled) := by
    have all := accepted.labelled
    rw [shape, List.map_append] at all
    rw [shape]
    exact all.of_append
  have idsShape : assetIds =
      duplicateGroupAssetIds before ++ duplicateGroupAssetIds rest := by
    rw [← accepted.listed, shape, duplicateGroupAssetIds_append]
  have left : 0 < (duplicateGroupAssetIds rest).length := by
    refine accepted.length_pos ?_ more
    rw [shape]
    exact List.subset_append_right before rest
  have idsLength : assetIds.length =
      (duplicateGroupAssetIds before).length +
        (duplicateGroupAssetIds rest).length := by
    rw [idsShape, List.length_append]
  -- The size counts at least one, and no more than are left.
  obtain ⟨count, countEq⟩ : ∃ count,
      count = min (duplicateGroupAssetIds rest).length (max 1 size) :=
    ⟨_, rfl⟩
  have positive : 0 < count := by omega
  have inRange : count ≤ (duplicateGroupAssetIds rest).length := by omega
  have stop : min assetIds.length
      ((duplicateGroupAssetIds before).length + max 1 size) =
      (duplicateGroupAssetIds before).length + count := by omega
  rw [← members_labelled rest] at inRange
  obtain ⟨earlier, last, later, split, lastLabel, reached⟩ :=
    labelled.exists_end positive inRange
  obtain ⟨first, second, rfl, rfl, secondShape⟩ :=
    List.map_eq_append_iff.mp split
  obtain ⟨group, after, rfl, rfl, rfl⟩ := List.map_eq_cons_iff.mp secondShape
  refine ⟨first ++ [group], after, by simp, by simp, ?_⟩
  have position : assetIds[(duplicateGroupAssetIds before).length + count - 1]? =
      (duplicateGroupAssetIds (first ++ group :: after))[count - 1]? := by
    rw [Nat.add_sub_assoc positive, idsShape,
      List.getElem?_append_right (Nat.le_add_right _ _),
      Nat.add_sub_cancel_left]
  have rest : assetIds.drop
      ((duplicateGroupAssetIds before).length + count) =
      (duplicateGroupAssetIds (first ++ group :: after)).drop count := by
    rw [idsShape, List.drop_append,
      List.drop_eq_nil_of_le (Nat.le_add_right _ _), List.nil_append,
      Nat.add_sub_cancel_left]
  rw [members_labelled] at lastLabel reached
  have chunkLabels : first.map DuplicateGroupDecision.labelled ++
      [group.labelled] =
      (first ++ [group]).map DuplicateGroupDecision.labelled := by simp
  rw [chunkLabels, members_labelled] at reached
  rw [bulkBatchLength, groupAlignedBatchSize, if_neg (by omega)]
  dsimp only
  rw [stop, position, lastLabel]
  dsimp only
  rw [rest, ← reached]
  omega

theorem batchesFrom_end
    {ids : List String}
    {processed : ℕ}
    (atEnd : ids.length ≤ processed)
    (size : ℕ)
    (groupIndex : Option GroupIndex)
    (fuel : ℕ) :
    batchesFrom ids size groupIndex fuel processed = some [] := by
  unfold batchesFrom
  exact if_neg (Nat.not_lt.mpr atEnd)

/-- From whole groups on, the batches are whole groups in order. -/
theorem Accepted.batchesFrom_eq
    (accepted : Accepted groups assetIds)
    (size : ℕ)
    (shape : groups = before ++ rest)
    {fuel : ℕ}
    (enough : rest.length ≤ fuel) :
    ∃ chunks : List (List DuplicateGroupDecision),
      batchesFrom assetIds size (some (duplicateGroupIndex groups)) fuel
          (duplicateGroupAssetIds before).length =
        some (chunks.map duplicateGroupAssetIds) ∧
      chunks.flatten = rest ∧ [] ∉ chunks := by
  have idsShape : assetIds =
      duplicateGroupAssetIds before ++ duplicateGroupAssetIds rest := by
    rw [← accepted.listed, shape, duplicateGroupAssetIds_append]
  induction fuel generalizing before rest with
  | zero =>
      cases List.length_eq_zero_iff.mp (Nat.le_zero.mp enough)
      refine ⟨[], batchesFrom_end ?_ .., rfl, List.not_mem_nil⟩
      rw [idsShape, List.length_append]
      exact Nat.le_refl _
  | succ fuel inductionHypothesis =>
      by_cases atEnd : rest = []
      · subst atEnd
        refine ⟨[], batchesFrom_end ?_ .., rfl, List.not_mem_nil⟩
        rw [idsShape, List.length_append]
        exact Nat.le_refl _
      · have left : 0 < (duplicateGroupAssetIds rest).length := by
          refine accepted.length_pos ?_ atEnd
          rw [shape]
          exact List.subset_append_right before rest
        obtain ⟨chunk, after, rfl, nonempty, taken⟩ :=
          accepted.bulkBatchLength_eq size shape atEnd
        have batch : (assetIds.drop (duplicateGroupAssetIds before).length).take
            (duplicateGroupAssetIds chunk).length =
            duplicateGroupAssetIds chunk := by
          rw [idsShape, List.drop_left, duplicateGroupAssetIds_append,
            List.take_left]
        have shape' : groups = (before ++ chunk) ++ after := by
          rw [shape, List.append_assoc]
        have shorter : after.length ≤ fuel := by
          have counted : (chunk ++ after).length =
              chunk.length + after.length := List.length_append
          have := List.length_pos_iff.mpr nonempty
          omega
        obtain ⟨chunks, others, flattened, noneEmpty⟩ :=
          inductionHypothesis shape' shorter (by
            rw [← accepted.listed, shape', duplicateGroupAssetIds_append])
        refine ⟨chunk :: chunks, ?_, ?_, ?_⟩
        · have inside : (duplicateGroupAssetIds before).length <
              assetIds.length := by
            rw [idsShape, List.length_append]
            omega
          rw [duplicateGroupAssetIds_append, List.length_append] at others
          rw [batchesFrom, if_pos inside]
          dsimp only
          rw [taken, batch, others]
          rfl
        · rw [List.flatten_cons, flattened]
        · intro isThere
          rcases List.mem_cons.mp isThere with isChunk | inChunks
          · exact nonempty isChunk.symm
          · exact noneEmpty inChunks

theorem Accepted.length_le
    (accepted : Accepted groups assetIds) :
    groups.length ≤ assetIds.length := by
  rw [← accepted.listed, duplicateGroupAssetIds, List.length_flatMap]
  have several : ∀ count ∈ groups.map fun group => group.memberIds.length,
      1 ≤ count := by
    intro count member
    obtain ⟨group, isGroup, rfl⟩ := List.mem_map.mp member
    exact Nat.le_of_succ_le (accepted.canRun group isGroup).several
  have := List.length_le_sum_of_one_le _ several
  rwa [List.length_map] at this

theorem duplicateTrashIds_subset
    (group : DuplicateGroupDecision) :
    duplicateTrashIds group ⊆ group.memberIds := by
  unfold duplicateTrashIds
  split
  · exact List.nil_subset _
  · exact List.filter_subset_self _

theorem DuplicateGroupDecision.CanRun.exists_kept
    (canRun : group.CanRun) :
    ∃ id ∈ group.memberIds, id ∉ duplicateTrashIds group := by
  unfold duplicateTrashIds
  split
  · obtain ⟨id, isMember⟩ := List.exists_mem_of_length_pos
      (Nat.lt_of_lt_of_le Nat.zero_lt_two canRun.several)
    exact ⟨id, isMember, List.not_mem_nil⟩
  · rename_i isKeepers
    obtain ⟨id, isKept⟩ := List.exists_mem_of_ne_nil _
      (canRun.chosen (not_not.mp isKeepers))
    refine ⟨id, canRun.keepers isKept, ?_⟩
    intro isTrashed
    exact of_decide_eq_true (List.mem_filter.mp isTrashed).2 isKept

theorem Accepted.group_unique
    (accepted : Accepted groups assetIds)
    {first second : DuplicateGroupDecision}
    (isFirst : first ∈ groups)
    (isSecond : second ∈ groups)
    {id : String}
    (inFirst : id ∈ first.memberIds)
    (inSecond : id ∈ second.memberIds) :
    first = second := by
  have known := (index_groups (fun _ => none) accepted.apart id).1
  have same : some first.duplicateId = some second.duplicateId :=
    (known first isFirst inFirst).symm.trans (known second isSecond inSecond)
  exact List.inj_on_of_nodup_map accepted.distinct isFirst isSecond
    (Option.some.inj same)

/-- A job whose groups were accepted. -/
structure AcceptedJob where
  groups : List DuplicateGroupDecision
  assetIds : List String
  undo : Bool
  accepted : duplicateDecisionProblem groups assetIds undo = none

/-- The batches of an accepted job. -/
def AcceptedJob.batches
    (job : AcceptedJob)
    (size : ℕ) : Option (List (List String)) :=
  bulkBatches job.assetIds size (some (duplicateGroupIndex job.groups))

/-- What is promised of accepted jobs. -/
structure DecisionLaws : Prop where
  /-- The asset ids are cut, in order, into the members of successive groups.
  No batch is empty, and a size of none counts as one. -/
  batches : ∀ (job : AcceptedJob) (size : ℕ),
    ∃ chunks : List (List DuplicateGroupDecision),
      job.batches size = some (chunks.map duplicateGroupAssetIds) ∧
        chunks.flatten = job.groups ∧ [] ∉ chunks ∧
        (chunks.map duplicateGroupAssetIds).flatten = job.assetIds
  /-- The members of a group stand together in one batch, and in no other. -/
  unsplit : ∀ (job : AcceptedJob) (size : ℕ) (batches : List (List String)),
    job.batches size = some batches →
      ∀ group ∈ job.groups, ∃ before batch after,
        batches = before ++ batch :: after ∧
          group.memberIds <:+: batch ∧
          ∀ other ∈ before ++ after, group.memberIds.Disjoint other
  /-- A decision trashes members of its group only. -/
  members : ∀ (job : AcceptedJob), ∀ group ∈ job.groups,
    duplicateTrashIds group ⊆ group.memberIds
  /-- Every group has a member that no decision of the job trashes. -/
  kept : ∀ (job : AcceptedJob), ∀ group ∈ job.groups,
    ∃ id ∈ group.memberIds, ∀ other ∈ job.groups,
      id ∉ duplicateTrashIds other
  /-- What was submitted without a problem is an accepted job, and its batches
  are cut by the index of its groups. -/
  submitted : ∀ snapshot : BulkOperationSnapshot,
    snapshot.action.isDuplicateDecision → snapshot.groupsProblem = none →
      ∃ job : AcceptedJob,
        job.groups = parseDuplicateGroups snapshot.duplicateGroups ∧
          job.assetIds = snapshot.assetIds ∧
          bulkGroupIndex snapshot = some (duplicateGroupIndex job.groups)

theorem AcceptedJob.batches_eq
    (job : AcceptedJob)
    (size : ℕ) :
    ∃ chunks : List (List DuplicateGroupDecision),
      job.batches size = some (chunks.map duplicateGroupAssetIds) ∧
        chunks.flatten = job.groups ∧ [] ∉ chunks := by
  have accepted := Accepted.of_problem job.accepted
  exact accepted.batchesFrom_eq size (List.nil_append _).symm
    accepted.length_le

theorem flatten_chunks
    (chunks : List (List DuplicateGroupDecision)) :
    (chunks.map duplicateGroupAssetIds).flatten =
      duplicateGroupAssetIds chunks.flatten := by
  induction chunks with
  | nil =>
      rfl
  | cons chunk rest inductionHypothesis =>
      rw [List.map_cons, List.flatten_cons, List.flatten_cons,
        duplicateGroupAssetIds_append, inductionHypothesis]

theorem AcceptedJob.unsplit
    (job : AcceptedJob)
    {size : ℕ}
    {batches : List (List String)}
    (cut : job.batches size = some batches)
    (isGroup : group ∈ job.groups) :
    ∃ before batch after,
      batches = before ++ batch :: after ∧
        group.memberIds <:+: batch ∧
        ∀ other ∈ before ++ after, group.memberIds.Disjoint other := by
  obtain ⟨chunks, cutChunks, flattened, -⟩ := job.batches_eq size
  cases cut.symm.trans cutChunks
  have accepted := Accepted.of_problem job.accepted
  have inJob := isGroup
  rw [← flattened] at isGroup
  obtain ⟨chunk, isChunk, inChunk⟩ := List.mem_flatten.mp isGroup
  obtain ⟨before, after, rfl⟩ := List.append_of_mem isChunk
  have others : chunk.Disjoint (before ++ after).flatten := by
    have nodup := accepted.distinct.of_map
    rw [← flattened, List.perm_middle.flatten.nodup_iff] at nodup
    exact List.disjoint_of_nodup_append nodup
  obtain ⟨earlier, later, rfl⟩ := List.append_of_mem inChunk
  refine ⟨before.map duplicateGroupAssetIds, _,
    after.map duplicateGroupAssetIds, List.map_append, ?_, ?_⟩
  · exact ⟨duplicateGroupAssetIds earlier, duplicateGroupAssetIds later, by
      rw [duplicateGroupAssetIds_append, List.append_assoc]
      rfl⟩
  · intro other isOther id inGroup inOther
    rw [← List.map_append] at isOther
    obtain ⟨otherChunk, isChunk, rfl⟩ := List.mem_map.mp isOther
    obtain ⟨owner, isOwner, inOwner⟩ := List.mem_flatMap.mp inOther
    have isOwnerOfJob : owner ∈ job.groups := by
      rw [← flattened, List.perm_middle.flatten.mem_iff]
      exact List.mem_append_right _
        (List.mem_flatten.mpr ⟨otherChunk, isChunk, isOwner⟩)
    cases accepted.group_unique inJob isOwnerOfJob inGroup inOwner
    exact others inChunk (List.mem_flatten.mpr ⟨otherChunk, isChunk, isOwner⟩)

/-- The laws hold. -/
theorem decisionLaws : DecisionLaws where
  batches := by
    intro job size
    obtain ⟨chunks, cut, flattened, noneEmpty⟩ := job.batches_eq size
    refine ⟨chunks, cut, flattened, noneEmpty, ?_⟩
    rw [flatten_chunks, flattened]
    exact (Accepted.of_problem job.accepted).listed
  unsplit := fun job _ _ cut _ isGroup => job.unsplit cut isGroup
  members := fun _ group _ => duplicateTrashIds_subset group
  kept := by
    intro job group isGroup
    have accepted := Accepted.of_problem job.accepted
    obtain ⟨id, isMember, isKept⟩ := (accepted.canRun group isGroup).exists_kept
    refine ⟨id, isMember, ?_⟩
    intro other isOther isTrashed
    cases accepted.group_unique isGroup isOther isMember
      (duplicateTrashIds_subset other isTrashed)
    exact isKept isTrashed
  submitted := by
    rintro ⟨action, stated, assetIds⟩ isDecision noProblem
    unfold BulkOperationSnapshot.groupsProblem at noProblem
    dsimp only at noProblem
    split at noProblem
    · split at noProblem
      · exact nomatch noProblem
      · exact ⟨⟨_, _, _, noProblem⟩, rfl, rfl, if_pos isDecision⟩
    · exact nomatch noProblem

end Frameleaf.DuplicateReview
