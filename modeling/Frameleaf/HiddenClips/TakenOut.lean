import Frameleaf.HiddenClips.Clips
import Frameleaf.Lib.JsonFill

namespace Frameleaf.HiddenClips

open Json JsonGraph

/-!
# What one pass takes out

A pass keeps every value except some entries of arrays, each of which is
recorded with the path of its array.  Filling the arrays with these entries
gives the value back.
-/

/-- A value at a path without some entries of its arrays.  Elements of arrays
that stay have a property. -/
inductive TakenOut
    (keeps : Json → Prop) : Path → Json → Json → List PlacedEntry → Prop where
  | scalar
      {path : Path}
      {value : Json}
      (noContainer : isContainer value = false) :
      TakenOut keeps path value value []
  | emptyArray
      (path : Path) :
      TakenOut keeps path (.array []) (.array []) []
  | emptyObject
      (path : Path) :
      TakenOut keeps path (.object []) (.object []) []
  | held
      {path : Path}
      {item : Json}
      {items kept : List Json}
      {taken : List PlacedEntry}
      (rest : TakenOut keeps path (.array items) (.array kept) taken) :
      TakenOut keeps path (.array (item :: items)) (.array kept)
        ((path, item) :: taken)
  | element
      {path : Path}
      {name : String}
      {item other : Json}
      {items kept : List Json}
      {inner taken : List PlacedEntry}
      (isKept : keeps item)
      (isElement : idOf item = some name)
      (inside : TakenOut keeps (path ++ [.id name]) item other inner)
      (rest : TakenOut keeps path (.array items) (.array kept) taken) :
      TakenOut keeps path (.array (item :: items)) (.array (other :: kept))
        (inner ++ taken)
  | other
      {path : Path}
      {item : Json}
      {items kept : List Json}
      {taken : List PlacedEntry}
      (isKept : keeps item)
      (noElement : idOf item = none)
      (rest : TakenOut keeps path (.array items) (.array kept) taken) :
      TakenOut keeps path (.array (item :: items)) (.array (item :: kept))
        taken
  | field
      {path : Path}
      {name : String}
      {value other : Json}
      {fields kept : Fields}
      {inner taken : List PlacedEntry}
      (inside : TakenOut keeps (path ++ [.key name]) value other inner)
      (rest : TakenOut keeps path (.object fields) (.object kept) taken) :
      TakenOut keeps path (.object ((name, value) :: fields))
        (.object ((name, other) :: kept)) (inner ++ taken)

/-! ## A pass takes out what it records -/

variable {hidden : List String}
  {start held taken first second : List PlacedEntry}
  {item value other : Json}

theorem shouldHold_mono
    (earlier : start <+: held)
    (holds : shouldHold hidden start item = true) :
    shouldHold hidden held item = true := by
  obtain ⟨later, rfl⟩ := earlier
  cases item with
  | null | bool | number | string | array =>
      cases holds
  | object fields =>
      have more : ∀ name, (heldIds start).contains name = true →
          (heldIds (start ++ later)).contains name = true := by
        intro name isHeld
        unfold heldIds at isHeld ⊢
        rw [List.filterMap_append, List.contains_iff_mem, List.mem_append]
        exact .inl (List.contains_iff_mem.mp isHeld)
      unfold shouldHold pointsAt at holds ⊢
      dsimp only at holds ⊢
      obtain media | points := Bool.or_eq_true_iff.mp holds
      · rw [media, Bool.true_or]
      · obtain ⟨field, member, isPointer⟩ := List.any_eq_true.mp points
        obtain ⟨otherName, texts⟩ := Bool.and_eq_true_iff.mp isPointer
        obtain ⟨text, isText, isHeld⟩ := List.any_eq_true.mp texts
        rw [Bool.or_eq_true_iff]
        refine .inr (List.any_eq_true.mpr ⟨field, member, ?_⟩)
        rw [otherName, Bool.true_and]
        exact List.any_eq_true.mpr ⟨text, isText, more text isHeld⟩

variable {items : List Json}

theorem depthOf_lt_of_mem_items
    (member : item ∈ items) :
    depthOf item < depthOf (.array items) := by
  rw [depthOf]
  induction items with
  | nil =>
      cases member
  | cons first items inductionHypothesis =>
      rw [depthOfItems]
      obtain rfl | later := List.mem_cons.mp member
      · omega
      · have deeper := inductionHypothesis later
        omega

variable {fields : Fields}

theorem depthOf_lt_of_mem_fields
    {field : String × Json}
    (member : field ∈ fields) :
    depthOf field.2 < depthOf (.object fields) := by
  rw [depthOf]
  induction fields with
  | nil =>
      cases member
  | cons first fields inductionHypothesis =>
      rw [depthOfFields]
      obtain rfl | later := List.mem_cons.mp member
      · omega
      · have deeper := inductionHypothesis later
        omega

/-- What a pass leaves of a value: the entries that are held after it, and not
before it, are those that it took out. -/
def Passes
    (hidden : List String)
    (start : List PlacedEntry)
    (depth : ℕ)
    (value : Json) : Prop :=
  ∀ (path : Path) (held : List PlacedEntry), start <+: held →
    ∃ taken,
      (strip hidden depth path value held).2 = held ++ taken ∧
        TakenOut (fun item => shouldHold hidden start item = false) path value
          (strip hidden depth path value held).1 taken

variable {depth : ℕ}

theorem takenOut_stripItems
    (each : ∀ item ∈ items, Passes hidden start (depth + 1) item)
    (path : Path)
    (earlier : start <+: held) :
    ∃ taken,
      (stripItems hidden depth path items held).2 = held ++ taken ∧
        TakenOut (fun item => shouldHold hidden start item = false) path
          (.array items) (.array (stripItems hidden depth path items held).1)
          taken := by
  induction items generalizing held with
  | nil =>
      exact ⟨[], (List.append_nil held).symm, .emptyArray path⟩
  | cons item items inductionHypothesis =>
      obtain ⟨here, later⟩ := List.forall_mem_cons.mp each
      rw [stripItems]
      by_cases holds : shouldHold hidden held item = true
      · rw [if_pos holds]
        obtain ⟨taken, isHeld, rest⟩ := inductionHypothesis later
          (earlier.trans (List.prefix_append held [(path, item)]))
        refine ⟨(path, item) :: taken, ?_, .held rest⟩
        rw [isHeld, List.append_assoc, List.singleton_append]
      · rw [if_neg holds]
        have isKept : shouldHold hidden start item = false :=
          Bool.eq_false_iff.mpr fun held => holds (shouldHold_mono earlier held)
        cases isElement : idOf item with
        | none =>
            obtain ⟨taken, isHeld, rest⟩ := inductionHypothesis later earlier
            exact ⟨taken, isHeld, .other isKept isElement rest⟩
        | some name =>
            obtain ⟨inner, isInner, inside⟩ :=
              here (path ++ [.id name]) held earlier
            obtain ⟨taken, isHeld, rest⟩ := inductionHypothesis later
              (earlier.trans (List.prefix_append held inner))
            dsimp only
            rw [isInner]
            refine ⟨inner ++ taken, ?_, .element isKept isElement inside rest⟩
            rw [isHeld, List.append_assoc]

theorem takenOut_stripFields
    (each : ∀ field ∈ fields, Passes hidden start (depth + 1) field.2)
    (path : Path)
    (earlier : start <+: held) :
    ∃ taken,
      (stripFields hidden depth path fields held).2 = held ++ taken ∧
        TakenOut (fun item => shouldHold hidden start item = false) path
          (.object fields)
          (.object (stripFields hidden depth path fields held).1) taken := by
  induction fields generalizing held with
  | nil =>
      exact ⟨[], (List.append_nil held).symm, .emptyObject path⟩
  | cons field fields inductionHypothesis =>
      obtain ⟨here, later⟩ := List.forall_mem_cons.mp each
      obtain ⟨inner, isInner, inside⟩ :=
        here (path ++ [.key field.1]) held earlier
      obtain ⟨taken, isHeld, rest⟩ := inductionHypothesis later
        (earlier.trans (List.prefix_append held inner))
      rw [stripFields]
      dsimp only
      rw [isInner]
      refine ⟨inner ++ taken, ?_, .field inside rest⟩
      rw [isHeld, List.append_assoc]

theorem takenOut_strip
    (inside : depth + depthOf value ≤ MAX_DEPTH) :
    Passes hidden start depth value := by
  induction value using valueInduction generalizing depth with
  | null | bool | number | string =>
      intro path held earlier
      exact ⟨[], (List.append_nil held).symm, .scalar rfl⟩
  | array items inductionHypothesis =>
      intro path held earlier
      have each : ∀ item ∈ items, Passes hidden start (depth + 1) item := by
        intro item member
        have deeper := depthOf_lt_of_mem_items member
        exact inductionHypothesis item member (by omega)
      rw [strip, if_neg (by omega)]
      exact takenOut_stripItems each path earlier
  | object fields inductionHypothesis =>
      intro path held earlier
      have each : ∀ field ∈ fields,
          Passes hidden start (depth + 1) field.2 := by
        intro field member
        have deeper := depthOf_lt_of_mem_fields member
        exact inductionHypothesis field member (by omega)
      rw [strip, if_neg (by omega)]
      exact takenOut_stripFields each path earlier

/-! ## What is left of a value -/

variable {keeps : Json → Prop}

theorem TakenOut.same
    {path : Path}
    (takenOut : TakenOut keeps path value other taken) :
    idOf value = idOf other ∧
      ∀ text, value = .string text ↔ other = .string text := by
  induction takenOut with
  | scalar noContainer =>
      exact ⟨rfl, fun text => Iff.rfl⟩
  | emptyArray path | emptyObject path =>
      exact ⟨rfl, fun text => Iff.rfl⟩
  | held rest inductionHypothesis =>
      exact ⟨rfl, by simp⟩
  | element isKept isElement inside rest insideHypothesis restHypothesis =>
      exact ⟨rfl, by simp⟩
  | other isKept noElement rest inductionHypothesis =>
      exact ⟨rfl, by simp⟩
  | @field path name value other fields kept inner taken inside rest
      insideHypothesis restHypothesis =>
      refine ⟨?_, by simp⟩
      rw [← List.nil_append ((name, value) :: fields),
        idOf_of_field insideHypothesis.2, List.nil_append]
      have later := restHypothesis.1
      unfold idOf at later ⊢
      dsimp only at later ⊢
      rw [get?_cons, get?_cons]
      by_cases isId : name = "id"
      · rw [if_pos isId, if_pos isId]
      · rw [if_neg isId, if_neg isId]
        exact later

theorem TakenOut.depthOf_le
    {path : Path}
    (takenOut : TakenOut keeps path value other taken) :
    depthOf other ≤ depthOf value := by
  induction takenOut with
  | scalar noContainer =>
      exact Nat.le_refl _
  | emptyArray path | emptyObject path =>
      exact Nat.le_refl _
  | held rest inductionHypothesis =>
      rw [depthOf, depthOf] at inductionHypothesis
      rw [depthOf, depthOf, depthOfItems]
      omega
  | element isKept isElement inside rest insideHypothesis restHypothesis =>
      rw [depthOf, depthOf] at restHypothesis
      rw [depthOf, depthOf, depthOfItems, depthOfItems]
      omega
  | other isKept noElement rest inductionHypothesis =>
      rw [depthOf, depthOf] at inductionHypothesis
      rw [depthOf, depthOf, depthOfItems, depthOfItems]
      omega
  | field inside rest insideHypothesis restHypothesis =>
      rw [depthOf, depthOf] at restHypothesis
      rw [depthOf, depthOf, depthOfFields, depthOfFields]
      omega

/-- The identities that are left in an array are some of those before, and the
names that are left in an object are those before. -/
def NamesLeft : Json → Json → Prop
  | .array items, .array kept =>
      (kept.filterMap idOf).Sublist (items.filterMap idOf)
  | .object fields, .object kept =>
      kept.map Prod.fst = fields.map Prod.fst
  | _, _ =>
      True

theorem TakenOut.namesLeft
    {path : Path}
    (takenOut : TakenOut keeps path value other taken) :
    NamesLeft value other := by
  induction takenOut with
  | @scalar path value noContainer =>
      cases value with
      | null | bool | number | string =>
          trivial
      | array | object =>
          cases noContainer
  | emptyArray path =>
      exact List.Sublist.refl _
  | emptyObject path =>
      rfl
  | @held path item items kept taken rest inductionHypothesis =>
      have fewer : (items.filterMap idOf).Sublist
          ((item :: items).filterMap idOf) :=
        (List.sublist_cons_self item items).filterMap idOf
      exact List.Sublist.trans inductionHypothesis fewer
  | element isKept isElement inside rest insideHypothesis restHypothesis =>
      unfold NamesLeft at restHypothesis ⊢
      dsimp only at restHypothesis ⊢
      rw [List.filterMap_cons_some isElement,
        List.filterMap_cons_some (inside.same.1.symm.trans isElement)]
      exact restHypothesis.cons_cons _
  | other isKept noElement rest inductionHypothesis =>
      unfold NamesLeft at inductionHypothesis ⊢
      dsimp only at inductionHypothesis ⊢
      rw [List.filterMap_cons_none noElement,
        List.filterMap_cons_none noElement]
      exact inductionHypothesis
  | field inside rest insideHypothesis restHypothesis =>
      unfold NamesLeft at restHypothesis ⊢
      dsimp only at restHypothesis ⊢
      rw [List.map_cons, List.map_cons, restHypothesis]

theorem proper_array_cons
    (proper : Proper (.array (item :: items))) :
    Proper item ∧ Proper (.array items) ∧
      ∀ name, idOf item = some name → name ∉ items.filterMap idOf := by
  obtain ⟨distinct, each⟩ := proper_array_iff.mp proper
  obtain ⟨here, later⟩ := List.forall_mem_cons.mp each
  refine ⟨here, proper_array_iff.mpr ⟨?_, later⟩, ?_⟩
  · exact distinct.sublist ((List.sublist_cons_self item items).filterMap idOf)
  · intro name isElement
    rw [List.filterMap_cons_some isElement] at distinct
    exact (List.nodup_cons.mp distinct).1

theorem proper_object_cons
    {name : String}
    (proper : Proper (.object ((name, value) :: fields))) :
    Proper value ∧ Proper (.object fields) ∧
      name ∉ fields.map Prod.fst := by
  obtain ⟨distinct, each⟩ := proper_object_iff.mp proper
  obtain ⟨here, later⟩ := List.forall_mem_cons.mp each
  rw [List.map_cons] at distinct
  obtain ⟨isNew, distinct⟩ := List.nodup_cons.mp distinct
  exact ⟨here, proper_object_iff.mpr ⟨distinct, later⟩, isNew⟩

/-- What is left is proper. -/
theorem TakenOut.proper
    {path : Path}
    (takenOut : TakenOut keeps path value other taken)
    (proper : Proper value) :
    Proper other := by
  induction takenOut with
  | scalar noContainer =>
      exact proper
  | emptyArray path | emptyObject path =>
      exact proper
  | held rest inductionHypothesis =>
      exact inductionHypothesis (proper_array_cons proper).2.1
  | @element path name item other items kept inner taken isKept isElement
      inside rest insideHypothesis restHypothesis =>
      obtain ⟨first, later, distinct⟩ := proper_array_cons proper
      obtain ⟨laterDistinct, each⟩ :=
        proper_array_iff.mp (restHypothesis later)
      have sameName : idOf other = some name :=
        inside.same.1.symm.trans isElement
      refine proper_array_iff.mpr ⟨?_, ?_⟩
      · rw [List.filterMap_cons_some sameName]
        refine List.nodup_cons.mpr ⟨?_, laterDistinct⟩
        intro member
        exact distinct name isElement (rest.namesLeft.subset member)
      · exact List.forall_mem_cons.mpr ⟨insideHypothesis first, each⟩
  | other isKept noElement rest inductionHypothesis =>
      obtain ⟨first, later, -⟩ := proper_array_cons proper
      obtain ⟨laterDistinct, each⟩ :=
        proper_array_iff.mp (inductionHypothesis later)
      refine proper_array_iff.mpr ⟨?_, List.forall_mem_cons.mpr ⟨first, each⟩⟩
      rw [List.filterMap_cons_none noElement]
      exact laterDistinct
  | @field path name value other fields kept inner taken inside rest
      insideHypothesis restHypothesis =>
      obtain ⟨first, later, isNew⟩ := proper_object_cons proper
      obtain ⟨laterDistinct, each⟩ :=
        proper_object_iff.mp (restHypothesis later)
      have sameNames : kept.map Prod.fst = fields.map Prod.fst :=
        rest.namesLeft
      refine proper_object_iff.mpr ⟨?_, ?_⟩
      · rw [List.map_cons]
        refine List.nodup_cons.mpr ⟨?_, laterDistinct⟩
        rw [sameNames]
        exact isNew
      · exact List.forall_mem_cons.mpr ⟨insideHypothesis first, each⟩

/-! ## Where taken entries belong -/

/-- A path from a value to an array in it. -/
def LeadsInto
    (path : Path)
    (target : Path) : Json → Prop
  | .array items =>
      target = path ∨
        ∃ name ∈ items.filterMap idOf, path ++ [.id name] <+: target
  | .object fields =>
      ∃ name ∈ fields.map Prod.fst, path ++ [.key name] <+: target
  | _ =>
      False

theorem LeadsInto.isPrefix
    {path target : Path}
    (leads : LeadsInto path target value) :
    path <+: target := by
  cases value with
  | null | bool | number | string =>
      exact leads.elim
  | array items =>
      obtain rfl | ⟨name, -, isPrefix⟩ := leads
      · exact List.prefix_rfl
      · exact (List.prefix_append _ _).trans isPrefix
  | object fields =>
      obtain ⟨name, -, isPrefix⟩ := leads
      exact (List.prefix_append _ _).trans isPrefix

theorem TakenOut.leadsInto
    {path : Path}
    (takenOut : TakenOut keeps path value other taken)
    {placed : PlacedEntry}
    (isTaken : placed ∈ taken) :
    LeadsInto path placed.1 other := by
  induction takenOut with
  | scalar noContainer =>
      cases isTaken
  | emptyArray path | emptyObject path =>
      cases isTaken
  | held rest inductionHypothesis =>
      obtain rfl | later := List.mem_cons.mp isTaken
      · exact .inl rfl
      · exact inductionHypothesis later
  | @element path name item other items kept inner taken isKept isElement
      inside rest insideHypothesis restHypothesis =>
      have sameName : idOf other = some name :=
        inside.same.1.symm.trans isElement
      unfold LeadsInto
      dsimp only
      rw [List.filterMap_cons_some sameName]
      obtain within | later := List.mem_append.mp isTaken
      · exact .inr ⟨name, List.mem_cons_self,
          (insideHypothesis within).isPrefix⟩
      · obtain here | ⟨wanted, isWanted, isPrefix⟩ := restHypothesis later
        · exact .inl here
        · exact .inr ⟨wanted, List.mem_cons_of_mem _ isWanted, isPrefix⟩
  | other isKept noElement rest inductionHypothesis =>
      unfold LeadsInto
      dsimp only
      rw [List.filterMap_cons_none noElement]
      exact inductionHypothesis isTaken
  | field inside rest insideHypothesis restHypothesis =>
      unfold LeadsInto
      dsimp only
      rw [List.map_cons]
      obtain within | later := List.mem_append.mp isTaken
      · exact ⟨_, List.mem_cons_self, (insideHypothesis within).isPrefix⟩
      · obtain ⟨wanted, isWanted, isPrefix⟩ := restHypothesis later
        exact ⟨wanted, List.mem_cons_of_mem _ isWanted, isPrefix⟩

variable {rest : Path}

theorem arrayAt_cons
    (proper : Proper (.array (item :: items)))
    (isThere : (arrayAt rest (.array items)).isSome = true) :
    (arrayAt rest (.array (item :: items))).isSome = true := by
  obtain ⟨-, -, distinct⟩ := proper_array_cons proper
  cases rest with
  | nil =>
      rfl
  | cons step rest =>
      cases step with
      | key name =>
          cases isThere
      | id name =>
          obtain ⟨found, isFound⟩ := Option.isSome_iff_exists.mp isThere
          obtain ⟨inner, isInner, inside⟩ := Option.bind_eq_some_iff.mp isFound
          obtain ⟨before, after, rfl, isElement, isFirst⟩ :=
            exists_of_find? isInner
          have otherName : (idOf item == some name) = false := by
            apply beq_eq_false_iff_ne.mpr
            intro same
            apply distinct name same
            exact List.mem_filterMap.mpr ⟨inner, by simp, isElement⟩
          rw [arrayAt, List.find?_cons, otherName]
          exact isThere

theorem arrayAt_consField
    {name : String}
    (proper : Proper (.object ((name, value) :: fields)))
    (isThere : (arrayAt rest (.object fields)).isSome = true) :
    (arrayAt rest (.object ((name, value) :: fields))).isSome = true := by
  obtain ⟨-, -, isNew⟩ := proper_object_cons proper
  cases rest with
  | nil =>
      cases isThere
  | cons step rest =>
      cases step with
      | id wanted =>
          cases isThere
      | key wanted =>
          obtain ⟨found, isFound⟩ := Option.isSome_iff_exists.mp isThere
          obtain ⟨inner, isInner, inside⟩ := Option.bind_eq_some_iff.mp isFound
          obtain ⟨before, after, rfl, isFirst⟩ := exists_of_get? isInner
          have otherName : name ≠ wanted := by
            rintro rfl
            exact isNew (by simp)
          rw [arrayAt, get?_cons, if_neg otherName, isInner]
          exact Option.isSome_of_mem inside

/-- The arrays of taken entries are left. -/
theorem TakenOut.isThere
    {path : Path}
    (takenOut : TakenOut keeps path value other taken)
    (proper : Proper other)
    {placed : PlacedEntry}
    (isTaken : placed ∈ taken) :
    ∃ rest, placed.1 = path ++ rest ∧
      (arrayAt rest other).isSome = true := by
  induction takenOut with
  | scalar noContainer =>
      cases isTaken
  | emptyArray path | emptyObject path =>
      cases isTaken
  | held rest inductionHypothesis =>
      obtain rfl | later := List.mem_cons.mp isTaken
      · exact ⟨[], (List.append_nil _).symm, rfl⟩
      · exact inductionHypothesis proper later
  | @element path name item other items kept inner taken isKept isElement
      inside rest insideHypothesis restHypothesis =>
      obtain ⟨first, later, -⟩ := proper_array_cons proper
      have sameName : idOf other = some name :=
        inside.same.1.symm.trans isElement
      obtain within | behind := List.mem_append.mp isTaken
      · obtain ⟨way, isWay, isThere⟩ := insideHypothesis first within
        refine ⟨.id name :: way, ?_, ?_⟩
        · rw [isWay, List.append_assoc, List.singleton_append]
        · rw [arrayAt, List.find?_cons_of_pos (by simp [sameName])]
          exact isThere
      · obtain ⟨way, isWay, isThere⟩ := restHypothesis later behind
        exact ⟨way, isWay, arrayAt_cons proper isThere⟩
  | other isKept noElement rest inductionHypothesis =>
      obtain ⟨-, later, -⟩ := proper_array_cons proper
      obtain ⟨way, isWay, isThere⟩ := inductionHypothesis later isTaken
      exact ⟨way, isWay, arrayAt_cons proper isThere⟩
  | @field path name value other fields kept inner taken inside rest
      insideHypothesis restHypothesis =>
      obtain ⟨first, later, -⟩ := proper_object_cons proper
      obtain within | behind := List.mem_append.mp isTaken
      · obtain ⟨way, isWay, isThere⟩ := insideHypothesis first within
        refine ⟨.key name :: way, ?_, ?_⟩
        · rw [isWay, List.append_assoc, List.singleton_append]
        · rw [arrayAt, get?_cons, if_pos rfl]
          exact isThere
      · obtain ⟨way, isWay, isThere⟩ := restHypothesis later behind
        exact ⟨way, isWay, arrayAt_consField proper isThere⟩

/-- An array that is in no taken entry is left. -/
theorem TakenOut.stays
    {path : Path}
    (takenOut : TakenOut keeps path value other taken)
    (notInside : ∀ placed ∈ taken, ∀ name, idOf placed.2 = some name →
      ¬ placed.1 ++ [.id name] <+: path ++ rest)
    (isThere : (arrayAt rest value).isSome = true) :
    (arrayAt rest other).isSome = true := by
  induction takenOut generalizing rest with
  | scalar noContainer =>
      exact isThere
  | emptyArray path | emptyObject path =>
      exact isThere
  | @held path item items kept taken remaining inductionHypothesis =>
      obtain ⟨apart, later⟩ := List.forall_mem_cons.mp notInside
      cases rest with
      | nil =>
          rfl
      | cons step rest =>
          cases step with
          | key name =>
              cases isThere
          | id name =>
              have otherName : (idOf item == some name) = false := by
                apply beq_eq_false_iff_ne.mpr
                intro same
                apply apart name same
                rw [List.prefix_append_right_inj, List.cons_prefix_cons]
                exact ⟨rfl, List.nil_prefix⟩
              apply inductionHypothesis later
              rw [arrayAt, List.find?_cons, otherName] at isThere
              exact isThere
  | @element path name item other items kept inner taken isKept isElement
      inside remaining insideHypothesis restHypothesis =>
      obtain ⟨within, later⟩ := List.forall_mem_append.mp notInside
      have sameName : idOf other = some name :=
        inside.same.1.symm.trans isElement
      cases rest with
      | nil =>
          rfl
      | cons step rest =>
          cases step with
          | key wanted =>
              cases isThere
          | id wanted =>
              by_cases isName : name = wanted
              · subst isName
                rw [arrayAt, List.find?_cons_of_pos (by simp [isElement])]
                  at isThere
                rw [arrayAt, List.find?_cons_of_pos (by simp [sameName])]
                apply insideHypothesis _ isThere
                intro placed member entryName isEntry
                rw [List.append_assoc, List.singleton_append]
                exact within placed member entryName isEntry
              · rw [arrayAt, List.find?_cons_of_neg
                  (by simp [isElement, isName])] at isThere
                rw [arrayAt, List.find?_cons_of_neg
                  (by simp [sameName, isName])]
                exact @restHypothesis (.id wanted :: rest) later isThere
  | @other path item items kept taken isKept noElement remaining
      inductionHypothesis =>
      cases rest with
      | nil =>
          rfl
      | cons step rest =>
          cases step with
          | key wanted =>
              cases isThere
          | id wanted =>
              rw [arrayAt, List.find?_cons_of_neg (by simp [noElement])]
                at isThere ⊢
              exact @inductionHypothesis (.id wanted :: rest) notInside isThere
  | @field path name value other fields kept inner taken inside remaining
      insideHypothesis restHypothesis =>
      obtain ⟨within, later⟩ := List.forall_mem_append.mp notInside
      cases rest with
      | nil =>
          cases isThere
      | cons step rest =>
          cases step with
          | id wanted =>
              cases isThere
          | key wanted =>
              rw [arrayAt, get?_cons] at isThere ⊢
              by_cases isName : name = wanted
              · subst isName
                rw [if_pos rfl] at isThere ⊢
                apply insideHypothesis _ isThere
                intro placed member entryName isEntry
                rw [List.append_assoc, List.singleton_append]
                exact within placed member entryName isEntry
              · rw [if_neg isName] at isThere ⊢
                exact @restHypothesis (.key wanted :: rest) later isThere

/-! ## Putting taken entries back -/

theorem entriesAt_eq_nil
    {path : Path}
    (none : ∀ placed ∈ held, placed.1 ≠ path) :
    entriesAt path held = [] := by
  apply List.eq_nil_iff_forall_not_mem.mpr
  intro entry member
  exact none (path, entry) (mem_entriesAt.mp member) rfl

theorem step_eq_of_both
    {path target : Path}
    {step other : Step}
    (first : path ++ [step] <+: target)
    (second : path ++ [other] <+: target) :
    step = other := by
  obtain ⟨rest, rfl⟩ := first
  rw [List.append_assoc, List.prefix_append_right_inj, List.singleton_append,
    List.cons_prefix_cons] at second
  exact second.1.symm

theorem fill_append_left
    {path : Path}
    (none : ∀ placed ∈ second, ¬ path <+: placed.1)
    (value : Json) :
    fill (first ++ second) path value = fill first path value := by
  apply fill_congr
  intro later isLater
  have notThere : entriesAt later second = [] := by
    apply entriesAt_eq_nil
    rintro placed member rfl
    exact none placed member isLater
  rw [entriesAt_append, notThere, List.append_nil]

theorem fill_append_right
    {path : Path}
    (none : ∀ placed ∈ first, ¬ path <+: placed.1)
    (value : Json) :
    fill (first ++ second) path value = fill second path value := by
  apply fill_congr
  intro later isLater
  have notThere : entriesAt later first = [] := by
    apply entriesAt_eq_nil
    rintro placed member rfl
    exact none placed member isLater
  rw [entriesAt_append, notThere, List.nil_append]

theorem map_fillItem_cons
    (path : Path)
    (entry : Json)
    (taken : List PlacedEntry)
    (items : List Json) :
    items.map (fillItem ((path, entry) :: taken) path) =
      items.map (fillItem taken path) := by
  apply List.map_congr_left
  intro item member
  unfold fillItem
  cases idOf item with
  | none =>
      rfl
  | some name =>
      apply @fill_append_right [(path, entry)] taken
      intro placed isEntry isPrefix
      rw [List.mem_singleton.mp isEntry] at isPrefix
      have length := isPrefix.length_le
      rw [List.length_append] at length
      exact absurd length (by simp)

/-- The arrays of what is left, with the taken entries, are those before, up to
the order of their entries. -/
theorem TakenOut.fill
    {path : Path}
    (takenOut : TakenOut keeps path value other taken)
    (proper : Proper value) :
    Reordered (JsonGraph.fill taken path other) value := by
  induction takenOut with
  | scalar noContainer =>
      rw [fill_nil]
      exact .refl _
  | emptyArray path | emptyObject path =>
      rw [fill_nil]
      exact .refl _
  | @held path item items kept taken rest inductionHypothesis =>
      obtain ⟨-, later, -⟩ := proper_array_cons proper
      have restSame := inductionHypothesis later
      have here : entriesAt path ((path, item) :: taken) =
          item :: entriesAt path taken :=
        List.filterMap_cons_some (if_pos rfl)
      rw [fill_array] at restSame
      rw [fill_array, map_fillItem_cons, here]
      exact (Reordered.perm List.perm_middle).trans
        (Reordered.cons (.refl item) restSame)
  | @element path name item other items kept inner taken isKept isElement
      inside rest insideHypothesis restHypothesis =>
      obtain ⟨first, later, distinct⟩ := proper_array_cons proper
      have sameName : idOf other = some name :=
        inside.same.1.symm.trans isElement
      have namesLeft : (kept.filterMap idOf).Sublist (items.filterMap idOf) :=
        rest.namesLeft
      have isNew : name ∉ kept.filterMap idOf := fun member =>
        distinct name isElement (namesLeft.subset member)
      have within : ∀ placed ∈ inner, path ++ [.id name] <+: placed.1 :=
        fun placed member => (inside.leadsInto member).isPrefix
      have behind : ∀ placed ∈ taken, ¬ path ++ [.id name] <+: placed.1 := by
        intro placed member isPrefix
        obtain here | ⟨wanted, isWanted, otherPrefix⟩ := rest.leadsInto member
        · rw [here] at isPrefix
          have length := isPrefix.length_le
          rw [List.length_append] at length
          exact absurd length (by simp)
        · have same := step_eq_of_both isPrefix otherPrefix
          rw [Step.id.inj same] at isNew
          exact isNew isWanted
      have filledHere : fillItem (inner ++ taken) path other =
          JsonGraph.fill inner (path ++ [.id name]) other := by
        rw [fillItem_of_idOf sameName, fill_append_left behind]
      have filledLater : kept.map (fillItem (inner ++ taken) path) =
          kept.map (fillItem taken path) := by
        apply List.map_congr_left
        intro entry member
        cases isEntry : idOf entry with
        | none =>
            unfold fillItem
            rw [isEntry]
        | some wanted =>
            rw [fillItem_of_idOf isEntry, fillItem_of_idOf isEntry]
            apply fill_append_right
            intro placed isInner isPrefix
            have same := step_eq_of_both (within placed isInner) isPrefix
            apply isNew
            rw [Step.id.inj same]
            exact List.mem_filterMap.mpr ⟨entry, member, isEntry⟩
      have noneHere : entriesAt path inner = [] := by
        apply entriesAt_eq_nil
        rintro placed member rfl
        have length := (within placed member).length_le
        rw [List.length_append] at length
        exact absurd length (by simp)
      have restSame := restHypothesis later
      rw [fill_array] at restSame
      rw [fill_array, List.map_cons, filledHere, filledLater, entriesAt_append,
        noneHere, List.nil_append, List.cons_append]
      exact (insideHypothesis first).cons restSame
  | @other path item items kept taken isKept noElement rest
      inductionHypothesis =>
      obtain ⟨-, later, -⟩ := proper_array_cons proper
      have restSame := inductionHypothesis later
      have here : fillItem taken path item = item := by
        unfold fillItem
        rw [noElement]
      rw [fill_array] at restSame
      rw [fill_array, List.map_cons, here, List.cons_append]
      exact Reordered.cons (.refl item) restSame
  | @field path name value other fields kept inner taken inside rest
      insideHypothesis restHypothesis =>
      obtain ⟨first, later, isNew⟩ := proper_object_cons proper
      have namesLeft : kept.map Prod.fst = fields.map Prod.fst :=
        rest.namesLeft
      rw [← namesLeft] at isNew
      have within : ∀ placed ∈ inner, path ++ [.key name] <+: placed.1 :=
        fun placed member => (inside.leadsInto member).isPrefix
      have behind : ∀ placed ∈ taken, ¬ path ++ [.key name] <+: placed.1 := by
        intro placed member isPrefix
        obtain ⟨wanted, isWanted, otherPrefix⟩ := rest.leadsInto member
        have same := step_eq_of_both isPrefix otherPrefix
        rw [Step.key.inj same] at isNew
        exact isNew isWanted
      have filledLater : (kept.map fun field => (field.1,
          JsonGraph.fill (inner ++ taken) (path ++ [.key field.1]) field.2)) =
          kept.map fun field => (field.1,
            JsonGraph.fill taken (path ++ [.key field.1]) field.2) := by
        apply List.map_congr_left
        intro field member
        rw [fill_append_right]
        intro placed isInner isPrefix
        have same := step_eq_of_both (within placed isInner) isPrefix
        apply isNew
        rw [Step.key.inj same]
        exact List.mem_map_of_mem member
      have restSame := restHypothesis later
      rw [fill_object] at restSame
      rw [fill_object, List.map_cons, fill_append_left behind, filledLater]
      exact (insideHypothesis first).consField restSame

/-! ## What no longer stands in a value -/

/-- An entry of an array to which fields and elements with an identity lead. -/
inductive Placed : Json → Json → Prop where
  | here
      {item : Json}
      {items : List Json}
      (member : item ∈ items) :
      Placed (.array items) item
  | element
      {item entry : Json}
      {items : List Json}
      {name : String}
      (member : item ∈ items)
      (isElement : idOf item = some name)
      (inside : Placed item entry) :
      Placed (.array items) entry
  | field
      {field : String × Json}
      {entry : Json}
      {fields : Fields}
      (member : field ∈ fields)
      (inside : Placed field.2 entry) :
      Placed (.object fields) entry

/-- All entries that are left are kept, when what is left of a kept entry
is. -/
theorem TakenOut.keeps_of_placed
    (stable : ∀ {path item other taken},
      TakenOut keeps path item other taken → keeps item → keeps other)
    {path : Path}
    {entry : Json}
    (takenOut : TakenOut keeps path value other taken)
    (placed : Placed other entry) :
    keeps entry := by
  induction takenOut with
  | @scalar path value noContainer =>
      cases placed with
      | here | element | field =>
          cases noContainer
  | emptyArray path =>
      cases placed with
      | here member | element member =>
          cases member
  | emptyObject path =>
      cases placed with
      | field member =>
          cases member
  | held rest inductionHypothesis =>
      exact inductionHypothesis placed
  | element isKept isElement inside rest insideHypothesis restHypothesis =>
      cases placed with
      | here member =>
          obtain rfl | later := List.mem_cons.mp member
          · exact stable inside isKept
          · exact restHypothesis (.here later)
      | element member isWanted within =>
          obtain rfl | later := List.mem_cons.mp member
          · exact insideHypothesis within
          · exact restHypothesis (.element later isWanted within)
  | other isKept noElement rest inductionHypothesis =>
      cases placed with
      | here member =>
          obtain rfl | later := List.mem_cons.mp member
          · exact isKept
          · exact inductionHypothesis (.here later)
      | element member isWanted within =>
          obtain rfl | later := List.mem_cons.mp member
          · rw [noElement] at isWanted
            cases isWanted
          · exact inductionHypothesis (.element later isWanted within)
  | field inside rest insideHypothesis restHypothesis =>
      cases placed with
      | field member within =>
          obtain rfl | later := List.mem_cons.mp member
          · exact insideHypothesis within
          · exact restHypothesis (.field later within)

end Frameleaf.HiddenClips
