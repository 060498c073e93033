import Frameleaf.Lib.Batches
import Frameleaf.Lib.Json

namespace Frameleaf.DuplicateReview

open Json Aligned

/-!
# Decisions about groups of duplicates

A job decides complete groups of photos.  Its asset ids are the members of its
groups, and it is worked in batches that end on group boundaries.
-/

/-- What is done with a group. -/
inductive DuplicateDecisionKind where
  | keepers
  | keepAll
  | stack
  deriving DecidableEq

/-- The decision of a name. -/
def DuplicateDecisionKind.ofName : String → Option DuplicateDecisionKind
  | "keepers" =>
      some .keepers
  | "keep-all" =>
      some .keepAll
  | "stack" =>
      some .stack
  | _ =>
      none

/-- The most groups that one job decides. -/
def DUPLICATE_DECISION_MAX_GROUPS : ℕ := 5000

/-- One group of a decision job. -/
structure DuplicateGroupDecision where
  duplicateId : String
  decision : DuplicateDecisionKind
  memberIds : List String
  keepAssetIds : List String
  decisionId : Option String
  deriving DecidableEq

/-- The texts of a value that are not empty. -/
def strings : Option Json → List String
  | some (.array items) =>
      items.filterMap fun
        | .string text =>
            if text ≠ "" then some text else none
        | _ =>
            none
  | _ =>
      []

/-- The decision about a group that a value states. -/
def parseDuplicateGroup : Json → Option DuplicateGroupDecision
  | .object group =>
      match Fields.get? group "duplicateId",
          Fields.get? group "decision" with
      | some (.string duplicateId), some (.string decision) =>
          (DuplicateDecisionKind.ofName decision).map fun kind =>
            { duplicateId
              decision := kind
              memberIds :=
                (strings (Fields.get? group "memberIds")).eraseDups
              keepAssetIds :=
                (strings (Fields.get? group "keepAssetIds")).eraseDups
              decisionId :=
                match Fields.get? group "decisionId" with
                | some (.string decisionId) =>
                    if decisionId ≠ "" then some decisionId else none
                | _ =>
                    none }
      | _, _ =>
          none
  | _ =>
      none

/-- The groups of a payload; what states no decision is dropped. -/
def parseDuplicateGroups : Option Json → List DuplicateGroupDecision
  | some (.array groups) =>
      groups.filterMap parseDuplicateGroup
  | _ =>
      []

/-- The photos that a decision moves to the trash. -/
def duplicateTrashIds
    (group : DuplicateGroupDecision) : List String :=
  if group.decision ≠ .keepers then
    []
  else
    group.memberIds.filter fun id => id ∉ group.keepAssetIds

/-- Why the decision about one group cannot run. -/
def duplicateGroupProblem
    (group : DuplicateGroupDecision) : Option String :=
  if group.memberIds.length < 2 then
    some "A duplicate group needs at least two photos"
  else if ∃ id ∈ group.keepAssetIds, id ∉ group.memberIds then
    some "Keepers must be photos of the same group"
  else if group.decision = .keepers ∧ group.keepAssetIds.length = 0 then
    some "Choose at least one photo to keep"
  else
    none

/-- Every member, group by group. -/
def duplicateGroupAssetIds
    (groups : List DuplicateGroupDecision) : List String :=
  groups.flatMap DuplicateGroupDecision.memberIds

/-- Members after those that were seen, unless one of them was seen before. -/
def addMembers
    (seenAssets : List String) : List String → Option (List String)
  | [] =>
      some seenAssets
  | id :: rest =>
      if id ∈ seenAssets then
        none
      else
        addMembers (id :: seenAssets) rest

/-- Why groups cannot run after groups and members that were seen. -/
def duplicateGroupsProblem
    (undo : Bool) :
    List String → List String → List DuplicateGroupDecision → Option String
  | _, _, [] =>
      none
  | seenGroups, seenAssets, group :: rest =>
      if group.duplicateId ∈ seenGroups then
        some "Each duplicate group can only be decided once in a job"
      else
        match duplicateGroupProblem group with
        | some problem =>
            some problem
        | none =>
            if undo ∧ group.decisionId.getD "" = "" then
              some "Undo needs the decision it reverses"
            else
              match addMembers seenAssets group.memberIds with
              | none =>
                  some "A photo can only belong to one duplicate group"
              | some seenAssets =>
                  duplicateGroupsProblem undo
                    (group.duplicateId :: seenGroups) seenAssets rest

/-- Why the groups of a decision job cannot run. -/
def duplicateDecisionProblem
    (groups : List DuplicateGroupDecision)
    (assetIds : List String)
    (undo : Bool) : Option String :=
  if groups.length = 0 then
    some "At least one duplicate group is required for this action"
  else if groups.length > DUPLICATE_DECISION_MAX_GROUPS then
    some (s!"At most {DUPLICATE_DECISION_MAX_GROUPS} duplicate groups " ++
      "can be decided at once")
  else
    match duplicateGroupsProblem undo [] [] groups with
    | some problem =>
        some problem
    | none =>
        let ordered := duplicateGroupAssetIds groups
        if ordered.length ≠ assetIds.length ∨
            ∃ entry ∈ ordered.zipIdx, assetIds[entry.2]? ≠ some entry.1 then
          some ("The photos of the job must be the photos of its groups, " ++
            "group by group")
        else
          none

/-- The group that is known of each asset. -/
abbrev GroupIndex := String → Option String

/-- The group of each asset of a decision job. -/
def duplicateGroupIndex
    (groups : List DuplicateGroupDecision) : GroupIndex :=
  groups.foldl
    (fun index group =>
      group.memberIds.foldl
        (fun index id => Function.update index id (some group.duplicateId))
        index)
    fun _ => none

/-- How many ids a batch takes from a position: up to a size, and then on to
the end of the group of its last one. -/
def groupAlignedBatchSize
    (ids : List String)
    (start size : ℕ)
    (groupOf : GroupIndex) : ℕ :=
  if start ≥ ids.length then
    0
  else
    let stop := min ids.length (start + max 1 size)
    match ids[stop - 1]?.bind groupOf with
    | none =>
        stop - start
    | some last =>
        stop + goingOn groupOf last (ids.drop stop) - start

/-- How many ids the next batch of a job takes from a position. -/
def bulkBatchLength
    (ids : List String)
    (start size : ℕ) : Option GroupIndex → ℕ
  | some groupIndex =>
      groupAlignedBatchSize ids start size groupIndex
  | none =>
      min size (ids.length - start)

/-- The batches of the ids from a position on.  There is no result when there
are more of them than is looked for. -/
def batchesFrom
    (ids : List String)
    (size : ℕ)
    (groupIndex : Option GroupIndex) : ℕ → ℕ → Option (List (List String))
  | fuel, processed =>
      if processed < ids.length then
        match fuel with
        | 0 =>
            none
        | fuel + 1 =>
            let taken := bulkBatchLength ids processed size groupIndex
            let batch := (ids.drop processed).take taken
            (batchesFrom ids size groupIndex fuel
              (processed + batch.length)).map (batch :: ·)
      else
        some []

/-- The batches of all ids. -/
def bulkBatches
    (ids : List String)
    (size : ℕ)
    (groupIndex : Option GroupIndex) : Option (List (List String)) :=
  batchesFrom ids size groupIndex ids.length 0

/-- What a job does; of most actions only the name matters here. -/
inductive BulkAction where
  | resolveDuplicates
  | undoDuplicates
  | other (name : String)
  deriving DecidableEq

/-- What a job was submitted with. -/
structure BulkOperationSnapshot where
  action : BulkAction
  duplicateGroups : Option Json
  assetIds : List String

/-- Whether an action works through complete groups. -/
def BulkAction.isDuplicateDecision : BulkAction → Bool
  | .resolveDuplicates | .undoDuplicates =>
      true
  | .other _ =>
      false

/-- Why the groups that a decision job was submitted with cannot run. -/
def BulkOperationSnapshot.groupsProblem
    (snapshot : BulkOperationSnapshot) : Option String :=
  let groups := parseDuplicateGroups snapshot.duplicateGroups
  match snapshot.duplicateGroups with
  | some (.array stated) =>
      if groups.length ≠ stated.length then
        some "Every duplicate group needs a group, a decision and its photos"
      else
        duplicateDecisionProblem groups snapshot.assetIds
          (snapshot.action = .undoDuplicates)
  | _ =>
      some "Every duplicate group needs a group, a decision and its photos"

/-- The index that the batches of a job are cut by. -/
def bulkGroupIndex
    (snapshot : BulkOperationSnapshot) : Option GroupIndex :=
  if snapshot.action.isDuplicateDecision then
    some (duplicateGroupIndex (parseDuplicateGroups snapshot.duplicateGroups))
  else
    none

end Frameleaf.DuplicateReview
