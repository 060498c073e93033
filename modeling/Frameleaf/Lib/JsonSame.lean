import Frameleaf.Lib.JsonMerge
import Frameleaf.Lib.JsonRoundTrip
import Mathlib.Data.List.Lex
import Mathlib.Data.List.Perm.Subperm

namespace Frameleaf.JsonSame

open Json JsonGraph JsonMerge

/-!
# Values that are the same up to the order of their fields

The fields of every object in a value can be brought into an order that depends
on their names alone.  Two values are then written alike exactly when they are
the same up to that order.
-/

/-- Two values are the same, whatever order the fields of objects are in. -/
inductive Same : Json → Json → Prop where
  | null : Same .null .null
  | bool (value : Bool) : Same (.bool value) (.bool value)
  | number (text : String) : Same (.number text) (.number text)
  | string (value : String) : Same (.string value) (.string value)
  | array
      {items others : List Json}
      (length : items.length = others.length)
      (each : ∀ (index : ℕ) (item other : Json), items[index]? = some item →
        others[index]? = some other → Same item other) :
      Same (.array items) (.array others)
  | object
      {fields others : Fields}
      (names : (fields.map Prod.fst).Perm (others.map Prod.fst))
      (each : ∀ name value held, Fields.get? fields name = some value →
        Fields.get? others name = some held → Same value held) :
      Same (.object fields) (.object others)

/-- A property of the names of every object in a value. -/
inductive AllNames (holds : List String → Prop) : Json → Prop where
  | null : AllNames holds .null
  | bool (value : Bool) : AllNames holds (.bool value)
  | number (text : String) : AllNames holds (.number text)
  | string (value : String) : AllNames holds (.string value)
  | array
      {items : List Json}
      (each : ∀ item ∈ items, AllNames holds item) :
      AllNames holds (.array items)
  | object
      {fields : Fields}
      (here : holds (fields.map Prod.fst))
      (each : ∀ field ∈ fields, AllNames holds field.2) :
      AllNames holds (.object fields)

/-- The names of every object in a value differ. -/
abbrev Distinct : Json → Prop :=
  AllNames List.Nodup

mutual

/-- A value with the fields of all its objects arranged. -/
def arranged
    (arrange : Fields → Fields) : Json → Json
  | .array items =>
      .array (arrangedItems arrange items)
  | .object fields =>
      .object (arrange (arrangedFields arrange fields))
  | .null =>
      .null
  | .bool value =>
      .bool value
  | .number text =>
      .number text
  | .string value =>
      .string value

/-- Items with the fields of all their objects arranged. -/
def arrangedItems
    (arrange : Fields → Fields) : List Json → List Json
  | [] =>
      []
  | item :: rest =>
      arranged arrange item :: arrangedItems arrange rest

/-- Fields with the fields of all objects in them arranged. -/
def arrangedFields
    (arrange : Fields → Fields) : Fields → Fields
  | [] =>
      []
  | (name, value) :: rest =>
      (name, arranged arrange value) :: arrangedFields arrange rest

end

section Arranged

variable {arrange : Fields → Fields}

theorem arrangedItems_eq_map
    (items : List Json) :
    arrangedItems arrange items = items.map (arranged arrange) := by
  induction items with
  | nil =>
      rw [arrangedItems, List.map_nil]
  | cons item rest inductionHypothesis =>
      rw [arrangedItems, inductionHypothesis, List.map_cons]

/-- A field with the fields of all objects in it arranged. -/
def arrangedField
    (arrange : Fields → Fields)
    (field : String × Json) : String × Json :=
  (field.1, arranged arrange field.2)

theorem arrangedFields_eq_map
    (fields : Fields) :
    arrangedFields arrange fields = fields.map (arrangedField arrange) := by
  induction fields with
  | nil =>
      rw [arrangedFields, List.map_nil]
  | cons field rest inductionHypothesis =>
      rw [arrangedFields, inductionHypothesis, List.map_cons]
      rfl

theorem map_fst_arrangedField
    (fields : Fields) :
    (fields.map (arrangedField arrange)).map Prod.fst =
      fields.map Prod.fst := by
  rw [List.map_map]
  rfl

end Arranged

variable {fields others : Fields}

theorem same_object_iff
    (distinct : (fields.map Prod.fst).Nodup)
    (othersDistinct : (others.map Prod.fst).Nodup) :
    Same (.object fields) (.object others) ↔
      (fields.map Prod.fst).Perm (others.map Prod.fst) ∧
        ∀ field ∈ fields, ∀ other ∈ others, field.1 = other.1 →
          Same field.2 other.2 := by
  constructor
  · intro same
    cases same with
    | object names each =>
        refine ⟨names, fun field isField other isOther sameName => ?_⟩
        have found := get?_of_mem distinct isField
        have foundOther := get?_of_mem othersDistinct isOther
        rw [← sameName] at foundOther
        exact each _ _ _ found foundOther
  · rintro ⟨names, each⟩
    refine .object names fun name value held found foundOther => ?_
    exact each _ (mem_of_get? found) _ (mem_of_get? foundOther) rfl

/-- Arrays are the same exactly if they have the same items at every index. -/
theorem same_array_iff_rel
    {items others : List Json} :
    Same (.array items) (.array others) ↔
      ∀ index : ℕ, Option.Rel Same items[index]? others[index]? := by
  constructor
  · intro same index
    cases same with
    | array length each =>
        by_cases isIn : index < items.length
        · have isInOthers := length ▸ isIn
          have isItem := List.getElem?_eq_getElem isIn
          have isOther := List.getElem?_eq_getElem isInOthers
          rw [isItem, isOther]
          exact .some (each index _ _ isItem isOther)
        · rw [List.getElem?_eq_none (not_lt.mp isIn),
            List.getElem?_eq_none (length ▸ not_lt.mp isIn)]
          exact .none
  · intro each
    refine .array ?_ fun index item other isItem isOther => ?_
    · rcases lt_trichotomy items.length others.length with less | same | more
      · have here := each items.length
        rw [List.getElem?_eq_none le_rfl, List.getElem?_eq_getElem less] at here
        nomatch here
      · exact same
      · have here := each others.length
        rw [List.getElem?_eq_none le_rfl, List.getElem?_eq_getElem more] at here
        nomatch here
    · have here := each index
      rw [isItem, isOther] at here
      cases here with
      | some same => exact same

/-- Objects with distinct names are the same exactly if every name has the same
value in them. -/
theorem same_object_iff_rel
    (distinct : (fields.map Prod.fst).Nodup)
    (othersDistinct : (others.map Prod.fst).Nodup) :
    Same (.object fields) (.object others) ↔
      ∀ name, Option.Rel Same
        (Fields.get? fields name) (Fields.get? others name) := by
  have isName : ∀ {fields : Fields} {name : String}
      {value : Json}, Fields.get? fields name = some value →
        name ∈ fields.map Prod.fst :=
    fun found => List.mem_map_of_mem (mem_of_get? found)
  constructor
  · intro same name
    cases same with
    | object names each =>
        cases found : Fields.get? fields name with
        | none =>
            cases foundOther : Fields.get? others name with
            | none => exact .none
            | some other =>
                obtain ⟨field, isField, rfl⟩ := List.mem_map.mp
                  (names.symm.subset (isName foundOther))
                rw [get?_of_mem distinct isField] at found
                nomatch found
        | some value =>
            obtain ⟨other, isOther, rfl⟩ := List.mem_map.mp
              (names.subset (isName found))
            have foundOther := get?_of_mem othersDistinct isOther
            rw [foundOther]
            exact .some (each _ _ _ found foundOther)
  · intro each
    refine .object ?_ fun name value held found foundOther => ?_
    · refine (List.perm_ext_iff_of_nodup distinct othersDistinct).mpr
        fun name => ⟨fun member => ?_, fun member => ?_⟩
      · obtain ⟨field, isField, rfl⟩ := List.mem_map.mp member
        have here := each field.1
        rw [get?_of_mem distinct isField] at here
        cases foundOther : Fields.get? others field.1 with
        | none =>
            rw [foundOther] at here
            nomatch here
        | some other =>
            exact isName foundOther
      · obtain ⟨other, isOther, rfl⟩ := List.mem_map.mp member
        have here := each other.1
        rw [get?_of_mem othersDistinct isOther] at here
        cases found : Fields.get? fields other.1 with
        | none =>
            rw [found] at here
            nomatch here
        | some value =>
            exact isName found
    · have here := each name
      rw [found, foundOther] at here
      cases here with
      | some same => exact same

theorem perm_fields_iff
    (distinct : (fields.map Prod.fst).Nodup)
    (othersDistinct : (others.map Prod.fst).Nodup) :
    fields.Perm others ↔
      (fields.map Prod.fst).Perm (others.map Prod.fst) ∧
        ∀ field ∈ fields, ∀ other ∈ others, field.1 = other.1 →
          field.2 = other.2 := by
  constructor
  · intro permuted
    refine ⟨permuted.map _, fun field isField other isOther sameName => ?_⟩
    have isHere := get?_of_mem othersDistinct (permuted.subset isField)
    rw [sameName, get?_of_mem othersDistinct isOther] at isHere
    exact (Option.some.inj isHere).symm
  · rintro ⟨names, each⟩
    have subset : fields ⊆ others := by
      intro field isField
      have isName : field.1 ∈ others.map Prod.fst :=
        names.subset (List.mem_map_of_mem isField)
      obtain ⟨other, isOther, sameName⟩ := List.mem_map.mp isName
      have sameValue := each field isField other isOther sameName.symm
      have isSame : field = other := Prod.ext sameName.symm sameValue
      rw [isSame]
      exact isOther
    refine (List.subperm_of_subset distinct.of_map subset).perm_of_length_le ?_
    have count := names.length_eq
    rw [List.length_map, List.length_map] at count
    exact count.ge

section Arranging

variable {arrange : Fields → Fields}
  (permutes : ∀ fields, (arrange fields).Perm fields)

include permutes

variable {value other : Json}

theorem Distinct.arranged
    (distinct : Distinct value) :
    Distinct (arranged arrange value) := by
  induction distinct with
  | null | bool _ | number _ | string _ =>
      constructor
  | array _ inductionHypothesis =>
      rw [JsonSame.arranged, arrangedItems_eq_map]
      exact .array (List.forall_mem_map.mpr inductionHypothesis)
  | @object fields here _ inductionHypothesis =>
      rw [JsonSame.arranged, arrangedFields_eq_map]
      have permuted := permutes (fields.map (arrangedField arrange))
      refine .object ?_ fun field member => ?_
      · rw [(permuted.map Prod.fst).nodup_iff, map_fst_arrangedField]
        exact here
      · obtain ⟨old, isOld, rfl⟩ := List.mem_map.mp (permuted.subset member)
        exact inductionHypothesis old isOld

theorem same_arranged
    (distinct : Distinct value) :
    Same (arranged arrange value) value := by
  induction distinct with
  | null => exact .null
  | bool value => exact .bool value
  | number text => exact .number text
  | string value => exact .string value
  | @array items _ inductionHypothesis =>
      rw [arranged, arrangedItems_eq_map]
      refine .array (List.length_map _) fun index item other isItem isOther => ?_
      rw [List.getElem?_map, isOther, Option.map_some] at isItem
      cases isItem
      exact inductionHypothesis other (List.mem_of_getElem? isOther)
  | @object fields here _ inductionHypothesis =>
      rw [arranged, arrangedFields_eq_map]
      have permuted := permutes (fields.map (arrangedField arrange))
      have names := permuted.map Prod.fst
      rw [map_fst_arrangedField] at names
      refine (same_object_iff (names.nodup_iff.mpr here) here).mpr
        ⟨names, fun field isField other isOther sameName => ?_⟩
      obtain ⟨old, isOld, rfl⟩ := List.mem_map.mp (permuted.subset isField)
      have isHere := get?_of_mem here isOld
      have sameOld : old.1 = other.1 := sameName
      rw [sameOld, get?_of_mem here isOther] at isHere
      rw [Option.some.inj isHere]
      exact inductionHypothesis old isOld

/-- Values that are arranged alike are the same. -/
theorem same_of_arranged_eq
    (distinct : Distinct value)
    (otherDistinct : Distinct other)
    (alike : arranged arrange value = arranged arrange other) :
    Same value other := by
  induction distinct generalizing other with
  | null =>
      cases otherDistinct <;> simp only [arranged, reduceCtorEq] at alike
      exact .null
  | bool value =>
      cases otherDistinct <;>
        simp only [arranged, reduceCtorEq, Json.bool.injEq] at alike
      rw [alike]
      exact .bool _
  | number text =>
      cases otherDistinct <;>
        simp only [arranged, reduceCtorEq, Json.number.injEq] at alike
      rw [alike]
      exact .number _
  | string value =>
      cases otherDistinct <;>
        simp only [arranged, reduceCtorEq, Json.string.injEq] at alike
      rw [alike]
      exact .string _
  | @array items _ inductionHypothesis =>
      cases otherDistinct with
      | @array others othersDistinct =>
          simp only [arranged, Json.array.injEq, arrangedItems_eq_map] at alike
          have length := congrArg List.length alike
          rw [List.length_map, List.length_map] at length
          refine .array length fun index item other isItem isOther => ?_
          have sameAt := congrArg (·[index]?) alike
          simp only [List.getElem?_map, isItem, isOther, Option.map_some,
            Option.some.injEq] at sameAt
          exact inductionHypothesis item (List.mem_of_getElem? isItem)
            (othersDistinct other (List.mem_of_getElem? isOther)) sameAt
      | _ =>
          simp only [arranged, reduceCtorEq] at alike
  | @object fields here _ inductionHypothesis =>
      cases otherDistinct with
      | @object others othersHere othersDistinct =>
          simp only [arranged, Json.object.injEq,
            arrangedFields_eq_map] at alike
          have permuted : (fields.map (arrangedField arrange)).Perm
              (others.map (arrangedField arrange)) :=
            ((permutes _).symm.trans (List.Perm.of_eq alike)).trans (permutes _)
          obtain ⟨names, each⟩ := (perm_fields_iff
            (by rwa [map_fst_arrangedField])
            (by rwa [map_fst_arrangedField])).mp permuted
          rw [map_fst_arrangedField, map_fst_arrangedField] at names
          refine (same_object_iff here othersHere).mpr
            ⟨names, fun field isField other isOther sameName => ?_⟩
          exact inductionHypothesis field isField (othersDistinct other isOther)
            (each _ (List.mem_map_of_mem isField) _
              (List.mem_map_of_mem isOther) sameName)
      | _ =>
          simp only [arranged, reduceCtorEq] at alike

omit permutes in
/-- Values that are the same are arranged alike, where the order of arranged
fields depends on the fields alone. -/
theorem arranged_eq_of_same
    {holds : List String → Prop}
    (determined : ∀ fields others : Fields, holds (fields.map Prod.fst) →
      (fields.map Prod.fst).Nodup → fields.Perm others →
        arrange fields = arrange others)
    (same : Same value other)
    (distinct : Distinct value)
    (otherDistinct : Distinct other)
    (suitable : AllNames holds value) :
    arranged arrange value = arranged arrange other := by
  induction same with
  | null | bool _ | number _ | string _ =>
      rfl
  | @array items others length _ inductionHypothesis =>
      cases distinct with | array distinct =>
      cases otherDistinct with | array otherDistinct =>
      cases suitable with | array suitable =>
      rw [arranged, arranged, arrangedItems_eq_map, arrangedItems_eq_map]
      congr 1
      refine List.ext_getElem (by simpa using length) fun index isIn isOther => ?_
      rw [List.length_map] at isIn isOther
      rw [List.getElem_map, List.getElem_map]
      exact inductionHypothesis index _ _ (List.getElem?_eq_getElem isIn)
        (List.getElem?_eq_getElem isOther)
        (distinct _ (List.getElem_mem _)) (otherDistinct _ (List.getElem_mem _))
        (suitable _ (List.getElem_mem _))
  | @object fields others names each inductionHypothesis =>
      cases distinct with | object here distinct =>
      cases otherDistinct with | object othersHere otherDistinct =>
      cases suitable with | object isSuitable suitable =>
      rw [arranged, arranged, arrangedFields_eq_map, arrangedFields_eq_map]
      congr 1
      have permuted : (fields.map (arrangedField arrange)).Perm
          (others.map (arrangedField arrange)) := by
        refine (perm_fields_iff (by rwa [map_fst_arrangedField])
          (by rwa [map_fst_arrangedField])).mpr ⟨?_, ?_⟩
        · rwa [map_fst_arrangedField, map_fst_arrangedField]
        · intro field isField other isOther sameName
          obtain ⟨old, isOld, rfl⟩ := List.mem_map.mp isField
          obtain ⟨held, isHeld, rfl⟩ := List.mem_map.mp isOther
          have sameOld : old.1 = held.1 := sameName
          have found := get?_of_mem here isOld
          rw [sameOld] at found
          exact inductionHypothesis _ _ _ found (get?_of_mem othersHere isHeld)
            (distinct old isOld) (otherDistinct held isHeld)
            (suitable old isOld)
      refine determined _ _ ?_ ?_ permuted
      · rwa [map_fst_arrangedField]
      · rwa [map_fst_arrangedField]

end Arranging

/-! ## Values that can be written -/

theorem isWritableItems_iff
    {items : List Json} :
    isWritableItems items = true ↔
      ∀ item ∈ items, item.isWritable = true := by
  induction items with
  | nil =>
      simp [isWritableItems]
  | cons item others inductionHypothesis =>
      rw [isWritableItems, Bool.and_eq_true, inductionHypothesis,
        List.forall_mem_cons]

theorem distinct_of_isWritable
    {value : Json}
    (writable : value.isWritable = true) :
    Distinct value := by
  induction value using valueInduction with
  | null | bool _ | number _ | string _ =>
      constructor
  | array items inductionHypothesis =>
      rw [Json.isWritable, isWritableItems_iff] at writable
      exact .array fun item member =>
        inductionHypothesis item member (writable item member)
  | object fields inductionHypothesis =>
      rw [Json.isWritable, Bool.and_eq_true, isWritableFields_iff] at writable
      exact .object (of_decide_eq_true writable.1) fun field member =>
        inductionHypothesis field member (writable.2 field member)

theorem isWritable_arranged
    {arrange : Fields → Fields}
    (permutes : ∀ fields, (arrange fields).Perm fields)
    {value : Json}
    (writable : value.isWritable = true) :
    (arranged arrange value).isWritable = true := by
  induction value using valueInduction with
  | null | bool _ | number _ | string _ =>
      exact writable
  | array items inductionHypothesis =>
      rw [arranged, arrangedItems_eq_map]
      rw [Json.isWritable, isWritableItems_iff] at writable ⊢
      exact List.forall_mem_map.mpr fun item member =>
        inductionHypothesis item member (writable item member)
  | object fields inductionHypothesis =>
      have distinct := (distinct_of_isWritable writable).arranged permutes
      rw [arranged] at distinct ⊢
      rw [arrangedFields_eq_map] at distinct ⊢
      rw [Json.isWritable, Bool.and_eq_true, isWritableFields_iff] at writable ⊢
      cases distinct with
      | object here _ =>
          refine ⟨decide_eq_true here, fun field member => ?_⟩
          obtain ⟨old, isOld, rfl⟩ :=
            List.mem_map.mp ((permutes _).subset member)
          exact inductionHypothesis old isOld (writable.2 old isOld)

/-! ## Sorted fields -/

/-- Fields in the order of their names. -/
def sortFields
    (before : String → String → Bool)
    (fields : Fields) : Fields :=
  fields.mergeSort fun first second => before first.1 second.1

theorem sortFields_perm
    (before : String → String → Bool)
    (fields : Fields) :
    (sortFields before fields).Perm fields :=
  List.mergeSort_perm _ _

/-- No two names of a list are in either order. -/
def Untied
    (before : String → String → Bool)
    (names : List String) : Prop :=
  ∀ first ∈ names, ∀ second ∈ names, before first second = true →
    before second first = true → first = second

theorem sortFields_eq_of_perm
    {before : String → String → Bool}
    (trans : ∀ first second third, before first second = true →
      before second third = true → before first third = true)
    (total : ∀ first second, (before first second || before second first) = true)
    (untied : Untied before (fields.map Prod.fst))
    (distinct : (fields.map Prod.fst).Nodup)
    (permuted : fields.Perm others) :
    sortFields before fields = sortFields before others := by
  have sorted : ∀ fields : Fields, (sortFields before fields).Pairwise
      fun first second => before first.1 second.1 = true :=
    fun fields => List.pairwise_mergeSort
      (fun first second third => trans first.1 second.1 third.1)
      (fun first second => total first.1 second.1) fields
  refine List.Perm.eq_of_pairwise ?_ (sorted fields) (sorted others)
    (((sortFields_perm before fields).trans permuted).trans
      (sortFields_perm before others).symm)
  intro first second isFirst isSecond isBefore isAfter
  have firstMember := (sortFields_perm before fields).subset isFirst
  have secondMember := permuted.symm.subset
    ((sortFields_perm before others).subset isSecond)
  have sameName := untied _ (List.mem_map_of_mem firstMember) _
    (List.mem_map_of_mem secondMember) isBefore isAfter
  have found := get?_of_mem distinct firstMember
  rw [sameName, get?_of_mem distinct secondMember] at found
  exact Prod.ext sameName (Option.some.inj found).symm

/-! ## The order of code units -/

/-- The code units of a character. -/
def unitsOf (character : Char) : List ℕ :=
  let point := character.toNat
  if point < 0x10000 then
    [point]
  else
    [0xD800 + (point - 0x10000) / 0x400, 0xDC00 + (point - 0x10000) % 0x400]

/-- The code units of a text. -/
def codeUnits (text : String) : List ℕ :=
  text.toList.flatMap unitsOf

/-- A text is before another, or equal, in the order of their code units. -/
def unitsLe (first second : String) : Bool :=
  decide (codeUnits first ≤ codeUnits second)

theorem unitsOf_append_inj
    {first second : Char}
    {rest others : List ℕ}
    (alike : unitsOf first ++ rest = unitsOf second ++ others) :
    first = second ∧ rest = others := by
  have firstValid := first.valid
  have secondValid := second.valid
  unfold unitsOf at alike
  dsimp only at alike
  have sameCode : ∀ {first second : Char}, first.toNat = second.toNat →
      first = second := Char.toNat_inj.mp
  change first.toNat.isValidChar at firstValid
  change second.toNat.isValidChar at secondValid
  unfold Nat.isValidChar at firstValid secondValid
  split at alike <;> split at alike <;>
    simp only [List.cons_append, List.nil_append, List.cons.injEq] at alike
  · exact ⟨sameCode alike.1, alike.2⟩
  · omega
  · omega
  · exact ⟨sameCode (by omega), alike.2.2⟩

/-- Texts with the same code units are equal. -/
theorem codeUnits_inj
    {first second : String}
    (alike : codeUnits first = codeUnits second) :
    first = second := by
  have characters : ∀ {first second : List Char},
      first.flatMap unitsOf = second.flatMap unitsOf → first = second := by
    intro first
    have neverEmpty : ∀ character : Char, unitsOf character ≠ [] := by
      intro character
      unfold unitsOf
      dsimp only
      split <;> exact List.cons_ne_nil _ _
    induction first with
    | nil =>
        intro second alike
        cases second with
        | nil => rfl
        | cons character second =>
            rw [List.flatMap_nil, List.flatMap_cons] at alike
            exact absurd (List.append_eq_nil_iff.mp alike.symm).1
              (neverEmpty character)
    | cons character first inductionHypothesis =>
        intro second alike
        cases second with
        | nil =>
            rw [List.flatMap_nil, List.flatMap_cons] at alike
            exact absurd (List.append_eq_nil_iff.mp alike).1
              (neverEmpty character)
        | cons other second =>
            rw [List.flatMap_cons, List.flatMap_cons] at alike
            obtain ⟨rfl, rest⟩ := unitsOf_append_inj alike
            rw [inductionHypothesis rest]
  exact String.toList_inj.mp (characters alike)

theorem unitsLe_trans
    (first second third : String)
    (isBefore : unitsLe first second = true)
    (isAfter : unitsLe second third = true) :
    unitsLe first third = true :=
  decide_eq_true
    ((of_decide_eq_true isBefore).trans (of_decide_eq_true isAfter))

theorem unitsLe_total
    (first second : String) :
    (unitsLe first second || unitsLe second first) = true := by
  rw [Bool.or_eq_true, unitsLe, unitsLe, decide_eq_true_eq, decide_eq_true_eq]
  exact le_total _ _

theorem untied_unitsLe
    (names : List String) :
    Untied unitsLe names := by
  intro first _ second _ isBefore isAfter
  exact codeUnits_inj ((of_decide_eq_true isBefore).antisymm
    (of_decide_eq_true isAfter))

end Frameleaf.JsonSame
