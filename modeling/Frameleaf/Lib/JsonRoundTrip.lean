import Frameleaf.Lib.JsonText
import Mathlib.Data.List.TakeDrop
import Mathlib.Data.List.TakeWhile
import Mathlib.Data.Option.Basic

namespace Frameleaf.Json

open Utf8

/-!
# What was written as JSON reads as it was

Each kind of token reads back whatever follows it; numbers end where no
character of a number follows.  Values then read back by induction over them.
-/

theorem hexValue_hexDigit :
    ∀ value < 16, hexValue (hexDigit value) = some value := by
  decide

theorem parseString_letter
    (text : Text) :
    ∀ escape ∈ escapes,
      parseString (backslash :: escape.2 :: text) =
        (parseString text).map fun (points, rest) =>
          (escape.1.toNat :: points, rest) := by
  intro escape member
  simp only [escapes, List.mem_cons, List.not_mem_nil, or_false] at member
  rcases member with rfl | rfl | rfl | rfl | rfl | rfl | rfl
  all_goals
    rw [parseString.eq_def]
    change (parseString text).bind _ = _
    cases parseString text with
    | none => rfl
    | some parsed => rfl

/-- A written character reads back, whatever follows it. -/
theorem parseString_escapeChar
    (character : Char)
    (text : Text) :
    parseString (escapeChar character ++ text) =
      (parseString text).map fun (points, rest) =>
        (character.toNat :: points, rest) := by
  rw [escapeChar]
  cases found : escapes.find? fun escape => escape.1 = character with
  | some escape =>
      have member := List.mem_of_find?_eq_some found
      have named := List.find?_some found
      rw [decide_eq_true_eq] at named
      rw [← named]
      exact parseString_letter text escape member
  | none =>
      dsimp only
      rw [List.find?_eq_none] at found
      have notQuote : character ≠ quote := by
        rintro rfl
        exact found (quote, quote) (by simp [escapes]) (by simp)
      have notBackslash : character ≠ backslash := by
        rintro rfl
        exact found (backslash, backslash) (by simp [escapes]) (by simp)
      split
      · rename_i isControl
        have value : hexUnit '0' '0' (hexDigit (character.toNat / 16))
            (hexDigit (character.toNat % 16)) = some character.toNat := by
          rw [hexUnit, hexValue_hexDigit _ (by omega),
            hexValue_hexDigit _ (by omega)]
          change some ((0 * 16 + character.toNat / 16) * 16 +
            character.toNat % 16) = _
          congr 1
          omega
        rw [parseString.eq_def]
        change (hexUnit '0' '0' _ _).bind _ = _
        rw [value]
        change (parseString text).bind _ = _
        cases parseString text with
        | none => rfl
        | some parsed => rfl
      · rename_i printable
        rw [List.singleton_append, parseString.eq_def]
        dsimp only
        rw [if_neg notQuote, if_neg notBackslash, if_neg printable]
        cases parseString text with
        | none => rfl
        | some parsed => rfl

theorem parseString_flatMap
    (text rest : Text) :
    parseString (text.flatMap escapeChar ++ quote :: rest) =
      some (text.map Char.toNat, rest) := by
  induction text with
  | nil =>
      rw [List.flatMap_nil, List.nil_append, parseString.eq_def]
      exact if_pos rfl
  | cons character others inductionHypothesis =>
      rw [List.flatMap_cons, List.append_assoc, parseString_escapeChar,
        inductionHypothesis]
      rfl

theorem pointChar_toNat
    (character : Char) :
    pointChar character.toNat = character := by
  have valid : character.toNat.isValidChar := character.valid
  rw [pointChar, if_pos valid]
  exact Char.ofNat_toNat character

theorem ofPoints_toNat
    (text : Text) :
    ofPoints (text.map Char.toNat) = text := by
  induction text with
  | nil =>
      rfl
  | cons first others inductionHypothesis =>
      cases others with
      | nil =>
          rw [List.map_singleton, ofPoints, pointChar_toNat]
      | cons second rest =>
          have valid := first.valid
          have notPair : ¬(0xD800 ≤ first.toNat ∧ first.toNat < 0xDC00 ∧
              0xDC00 ≤ second.toNat ∧ second.toNat < 0xE000) := by
            change first.toNat.isValidChar at valid
            rw [Nat.isValidChar] at valid
            omega
          rw [List.map_cons, List.map_cons, ofPoints, if_neg notPair,
            pointChar_toNat]
          exact congrArg _ inductionHypothesis

theorem parseString_stringify
    (value : String)
    (rest : Text) :
    ∃ points,
      parseString (value.toList.flatMap escapeChar ++ quote :: rest) =
          some (points, rest) ∧
        String.ofList (ofPoints points) = value := by
  refine ⟨_, parseString_flatMap value.toList rest, ?_⟩
  rw [ofPoints_toNat]
  exact String.ofList_toList

/-- Nothing that follows belongs to a number. -/
def EndsNumber
    (rest : Text) : Prop :=
  ∀ character ∈ rest.head?, isNumberChar character = false

variable {rest text : Text}

theorem parseNumber_append
    {text : String}
    (written : isNumber text.toList = true)
    (ends : EndsNumber rest) :
    parseNumber (text.toList ++ rest) = some (.number text, rest) := by
  have all : ∀ character ∈ text.toList, isNumberChar character = true :=
    List.all_eq_true.mp (Bool.and_eq_true_iff.mp written).1
  have none : rest.takeWhile isNumberChar = [] ∧
      rest.dropWhile isNumberChar = rest := by
    cases rest with
    | nil =>
        exact ⟨rfl, rfl⟩
    | cons first others =>
        have notNumber := ends first rfl
        rw [List.takeWhile_cons, List.dropWhile_cons, notNumber]
        exact ⟨rfl, rfl⟩
  rw [parseNumber, List.takeWhile_append_of_pos all,
    List.dropWhile_append_of_pos all, none.1, none.2, List.append_nil,
    if_pos written]
  exact congrArg (fun text => some (Json.number text, rest))
    String.ofList_toList

/-- A character that starts no written value. -/
def isSpace
    (character : Char) : Bool :=
  character = ' ' || character = '\t' || character = '\n' ||
    character = '\r'

variable {character : Char}

theorem skipSpace_cons
    (rest : Text)
    (notSpace : isSpace character = false) :
    skipSpace (character :: rest) = character :: rest := by
  rw [skipSpace, List.dropWhile_cons]
  change (if isSpace character = true then _ else _) = _
  rw [notSpace]
  rfl

/-- How the text of a value starts. -/
structure Starts
    (character : Char) : Prop where
  notSpace : isSpace character = false
  notClosing : character ≠ ']'

theorem isNumberChar_ne
    (isNumeric : isNumberChar character = true) :
    character ≠ quote ∧ character ≠ '[' ∧ character ≠ '{' ∧
      character ≠ 't' ∧ character ≠ 'f' ∧ character ≠ 'n' ∧
        Starts character := by
  refine ⟨?_, ?_, ?_, ?_, ?_, ?_, ?_, ?_⟩
  · rintro rfl
    exact absurd isNumeric (by decide)
  · rintro rfl
    exact absurd isNumeric (by decide)
  · rintro rfl
    exact absurd isNumeric (by decide)
  · rintro rfl
    exact absurd isNumeric (by decide)
  · rintro rfl
    exact absurd isNumeric (by decide)
  · rintro rfl
    exact absurd isNumeric (by decide)
  · by_contra space
    rw [Bool.not_eq_false] at space
    simp only [isSpace, Bool.or_eq_true, decide_eq_true_eq] at space
    rcases space with ((rfl | rfl) | rfl) | rfl
    all_goals exact absurd isNumeric (by decide)
  · rintro rfl
    exact absurd isNumeric (by decide)

theorem isNumber_head
    (written : isNumber text = true) :
    ∃ first rest, text = first :: rest ∧ isNumberChar first = true := by
  cases text with
  | nil =>
      exact absurd written (by decide)
  | cons first rest =>
      have all := List.all_eq_true.mp (Bool.and_eq_true_iff.mp written).1
      exact ⟨first, rest, rfl, all first List.mem_cons_self⟩

variable {value : Json}

theorem stringify_starts
    (written : value.isWritable = true) :
    ∃ first rest, stringify value = first :: rest ∧ Starts first := by
  cases value with
  | null =>
      exact ⟨_, _, stringify.eq_1, ⟨by decide, by decide⟩⟩
  | bool truth =>
      cases truth with
      | true =>
          exact ⟨_, _, stringify.eq_2, ⟨by decide, by decide⟩⟩
      | false =>
          exact ⟨_, _, stringify.eq_3, ⟨by decide, by decide⟩⟩
  | number text =>
      rw [Json.isWritable] at written
      obtain ⟨first, rest, starts, isNumeric⟩ := isNumber_head written
      rw [stringify]
      exact ⟨first, rest, starts,
        (isNumberChar_ne isNumeric).2.2.2.2.2.2⟩
  | string text =>
      rw [stringify, stringifyText]
      exact ⟨_, _, rfl, ⟨by decide, by decide⟩⟩
  | array items =>
      rw [stringify]
      exact ⟨_, _, rfl, ⟨by decide, by decide⟩⟩
  | object fields =>
      rw [stringify]
      exact ⟨_, _, rfl, ⟨by decide, by decide⟩⟩

variable {fields : Fields}

theorem Fields.set_of_not_mem
    {name : String}
    (isNew : name ∉ fields.map Prod.fst)
    (value : Json) :
    fields.set name value = fields ++ [(name, value)] := by
  induction fields with
  | nil =>
      rfl
  | cons field others inductionHypothesis =>
      obtain ⟨other, held⟩ := field
      rw [List.map_cons, List.mem_cons, not_or] at isNew
      rw [Fields.set, if_neg (Ne.symm isNew.1), inductionHypothesis isNew.2]
      rfl

theorem ofEntries_of_nodup
    (distinct : (fields.map Prod.fst).Nodup) :
    ofEntries fields = fields := by
  have added : ∀ before : Fields,
      ((before ++ fields).map Prod.fst).Nodup →
        fields.foldl (fun fields entry => fields.set entry.1 entry.2) before =
          before ++ fields := by
    clear distinct
    induction fields with
    | nil =>
        intro before _
        exact (List.append_nil before).symm
    | cons field others inductionHypothesis =>
        intro before distinct
        have isNew : field.1 ∉ before.map Prod.fst := by
          rw [List.map_append, List.nodup_append] at distinct
          intro member
          exact distinct.2.2 field.1 member field.1 (by simp) rfl
        rw [List.foldl_cons, Fields.set_of_not_mem isNew,
          inductionHypothesis _ (by simpa using distinct)]
        simp
  exact added [] distinct

theorem endsNumber_cons
    (rest : Text)
    (notNumber : isNumberChar character = false) :
    EndsNumber (character :: rest) := by
  rintro other ⟨⟩
  exact notNumber

theorem stringifyItems_starts
    {item : Json}
    (items : List Json)
    (written : item.isWritable = true) :
    ∃ first rest, stringifyItems (item :: items) = first :: rest ∧
      Starts first := by
  obtain ⟨first, rest, starts, isStart⟩ := stringify_starts written
  rw [stringifyItems.eq_def]
  dsimp only
  rw [starts]
  exact ⟨first, _, rfl, isStart⟩

theorem stringifyFields_starts
    (field : String × Json)
    (fields : Fields) :
    ∃ rest, stringifyFields (field :: fields) = quote :: rest := by
  rw [stringifyFields.eq_def]
  exact ⟨_, rfl⟩

mutual

/-- A written value reads back, whatever follows it. -/
theorem parseValue_stringify
    (value : Json)
    (written : value.isWritable = true)
    (fuel : ℕ)
    (rest : Text)
    (ends : EndsNumber rest)
    (enough : (stringify value).length ≤ fuel) :
    parseValue fuel (stringify value ++ rest) = some (value, rest) := by
  obtain ⟨first, others, starts, isStart⟩ := stringify_starts written
  obtain ⟨depth, rfl⟩ : ∃ depth, fuel = depth + 1 := by
    rw [starts, List.length_cons] at enough
    exact ⟨fuel - 1, by omega⟩
  have noSpace : skipSpace (stringify value ++ rest) =
      stringify value ++ rest := by
    rw [starts, List.cons_append, skipSpace_cons _ isStart.notSpace]
  rw [parseValue, noSpace]
  cases value with
  | null =>
      rw [stringify]
      rfl
  | bool truth =>
      cases truth with
      | true =>
          rw [stringify]
          rfl
      | false =>
          rw [stringify]
          rfl
  | number text =>
      rw [Json.isWritable] at written
      have reads := parseNumber_append written ends
      obtain ⟨first, others, starts, isNumeric⟩ := isNumber_head written
      obtain ⟨notQuote, notArray, notObject, notTrue, notFalse, notNull, _⟩ :=
        isNumberChar_ne isNumeric
      rw [stringify]
      rw [starts] at reads ⊢
      dsimp only [List.cons_append] at reads ⊢
      rw [if_neg notQuote, if_neg notArray, if_neg notObject, if_neg notTrue,
        if_neg notFalse, if_neg notNull]
      exact reads
  | string text =>
      obtain ⟨points, reads, value⟩ := parseString_stringify text rest
      rw [stringify, stringifyText]
      dsimp only [List.cons_append]
      rw [if_pos rfl, List.append_assoc]
      change (parseString (_ ++ quote :: rest)).bind _ = _
      rw [reads]
      change some (Json.string (String.ofList (ofPoints points)), rest) = _
      rw [value]
  | array items =>
      rw [stringify] at enough ⊢
      dsimp only [List.cons_append]
      rw [if_neg (by decide), if_pos rfl]
      cases items with
      | nil =>
          rfl
      | cons item items =>
          rw [Json.isWritable] at written
          have isItem : item.isWritable = true := by
            rw [isWritableItems, Bool.and_eq_true] at written
            exact written.1
          have reads := parseItems_stringify item items written depth rest
            (by simp only [List.length_append, List.length_cons] at enough ⊢
                omega)
          obtain ⟨first, others, starts, isStart⟩ :=
            stringifyItems_starts items isItem
          rw [List.append_assoc, List.singleton_append]
          rw [starts] at reads ⊢
          rw [List.cons_append] at reads ⊢
          rw [skipSpace_cons _ isStart.notSpace]
          split
          · rename_i closes
            exact absurd (List.cons.inj closes).1 isStart.notClosing
          · rw [reads]
            rfl
  | object fields =>
      rw [stringify] at enough ⊢
      dsimp only [List.cons_append]
      rw [if_neg (by decide), if_neg (by decide), if_pos rfl]
      cases fields with
      | nil =>
          rfl
      | cons field fields =>
          rw [Json.isWritable, Bool.and_eq_true, decide_eq_true_eq] at written
          have reads := parseFields_stringify field fields written.2 depth rest
            (by simp only [List.length_append, List.length_cons] at enough ⊢
                omega)
          obtain ⟨others, starts⟩ := stringifyFields_starts field fields
          rw [List.append_assoc, List.singleton_append]
          rw [starts] at reads ⊢
          rw [List.cons_append] at reads ⊢
          rw [skipSpace_cons _ (by decide)]
          split
          · rename_i closes
            exact absurd (List.cons.inj closes).1 (by decide)
          · rw [reads]
            change some (Json.object (ofEntries _), rest) = _
            rw [ofEntries_of_nodup written.1]
termination_by fuel

/-- Written items read back up to the end of their array. -/
theorem parseItems_stringify
    (item : Json)
    (items : List Json)
    (written : isWritableItems (item :: items) = true)
    (fuel : ℕ)
    (rest : Text)
    (enough : (stringifyItems (item :: items)).length + 1 ≤ fuel) :
    parseItems fuel (stringifyItems (item :: items) ++ ']' :: rest) =
      some (item :: items, rest) := by
  obtain ⟨depth, rfl⟩ : ∃ depth, fuel = depth + 1 := ⟨fuel - 1, by omega⟩
  rw [isWritableItems, Bool.and_eq_true] at written
  obtain ⟨first, others, starts, _⟩ := stringify_starts written.1
  rw [stringifyItems.eq_def] at enough ⊢
  dsimp only at enough ⊢
  rw [List.length_append] at enough
  rw [List.append_assoc, parseItems]
  cases items with
  | nil =>
      have reads := parseValue_stringify item written.1 depth (']' :: rest)
        (endsNumber_cons rest (by decide)) (by
          rw [List.length_nil] at enough
          omega)
      dsimp only [List.nil_append]
      rw [reads]
      rfl
  | cons next items =>
      dsimp only [List.cons_append] at enough ⊢
      rw [List.length_cons] at enough
      have reads := parseValue_stringify item written.1 depth
        (',' :: (stringifyItems (next :: items) ++ ']' :: rest))
        (endsNumber_cons _ (by decide)) (by omega)
      have others := parseItems_stringify next items written.2 depth rest (by
        rw [starts, List.length_cons] at enough
        omega)
      rw [reads]
      change (parseItems depth _).bind _ = _
      rw [others]
      rfl
termination_by fuel

/-- Written fields read back up to the end of their object. -/
theorem parseFields_stringify
    (field : String × Json)
    (fields : Fields)
    (written : isWritableFields (field :: fields) = true)
    (fuel : ℕ)
    (rest : Text)
    (enough : (stringifyFields (field :: fields)).length + 1 ≤ fuel) :
    parseFields fuel (stringifyFields (field :: fields) ++ '}' :: rest) =
      some (field :: fields, rest) := by
  obtain ⟨depth, rfl⟩ : ∃ depth, fuel = depth + 1 := ⟨fuel - 1, by omega⟩
  obtain ⟨name, value⟩ := field
  rw [isWritableFields, Bool.and_eq_true] at written
  rw [stringifyFields.eq_def] at enough ⊢
  dsimp only at enough ⊢
  rw [stringifyText] at enough ⊢
  simp only [List.length_append, List.length_cons] at enough
  simp only [List.cons_append, List.append_assoc]
  rw [parseFields, skipSpace_cons _ (by decide)]
  dsimp only
  rw [if_pos rfl]
  have isValue : value.isWritable = true := written.1
  cases fields with
  | nil =>
      obtain ⟨points, reads, isName⟩ := parseString_stringify name
        (':' :: (stringify value ++ '}' :: rest))
      have others := parseValue_stringify value isValue depth ('}' :: rest)
        (endsNumber_cons rest (by decide)) (by omega)
      dsimp only [List.nil_append]
      change (parseString (_ ++ quote :: ':' :: _)).bind _ = _
      rw [reads]
      change (parseValue depth _).bind _ = _
      rw [others, isName]
      rfl
  | cons next fields =>
      obtain ⟨points, reads, isName⟩ := parseString_stringify name
        (':' :: (stringify value ++
          ',' :: (stringifyFields (next :: fields) ++ '}' :: rest)))
      rw [List.length_cons] at enough
      have others := parseValue_stringify value isValue depth
        (',' :: (stringifyFields (next :: fields) ++ '}' :: rest))
        (endsNumber_cons _ (by decide)) (by omega)
      have more := parseFields_stringify next fields written.2 depth rest
        (by omega)
      dsimp only [List.cons_append]
      change (parseString (_ ++ quote :: ':' :: _)).bind _ = _
      rw [reads]
      change (parseValue depth _).bind _ = _
      rw [others, isName]
      change (parseFields depth _).bind _ = _
      rw [more]
      rfl
termination_by fuel

end

theorem parse_stringify
    (written : value.isWritable = true) :
    parse (stringify value) = some value := by
  have reads := parseValue_stringify value written
    ((stringify value).length + 1) [] (by rintro _ ⟨⟩) (by omega)
  rw [List.append_nil] at reads
  rw [parse, reads]
  rfl

/-- Setting a field keeps the names of an object different. -/
theorem Fields.nodup_set
    (distinct : (fields.map Prod.fst).Nodup)
    (name : String)
    (value : Json) :
    ((fields.set name value).map Prod.fst).Nodup := by
  by_cases isOld : name ∈ fields.map Prod.fst
  · have same : (fields.set name value).map Prod.fst =
        fields.map Prod.fst := by
      clear distinct
      induction fields with
      | nil =>
          simp at isOld
      | cons field others inductionHypothesis =>
          obtain ⟨other, held⟩ := field
          rw [Fields.set]
          split
          · rename_i isSame
            rw [List.map_cons, List.map_cons, isSame]
          · rename_i differs
            rw [List.map_cons, List.mem_cons] at isOld
            rw [List.map_cons, List.map_cons, inductionHypothesis
              (isOld.resolve_left fun isSame => differs isSame.symm)]
    rw [same]
    exact distinct
  · rw [Fields.set_of_not_mem isOld, List.map_append, List.nodup_append]
    refine ⟨distinct, by simp, ?_⟩
    intro first isFirst second isSecond
    rw [List.map_singleton, List.mem_singleton] at isSecond
    rintro rfl
    have isName : first = name := isSecond
    exact isOld (isName ▸ isFirst)

theorem isWritableFields_iff :
    isWritableFields fields = true ↔
      ∀ field ∈ fields, field.2.isWritable = true := by
  induction fields with
  | nil =>
      simp [isWritableFields]
  | cons field others inductionHypothesis =>
      obtain ⟨name, value⟩ := field
      rw [isWritableFields, Bool.and_eq_true, inductionHypothesis,
        List.forall_mem_cons]

theorem Fields.mem_set
    {name : String}
    {field : String × Json}
    (member : field ∈ fields.set name value) :
    field = (name, value) ∨ field ∈ fields := by
  induction fields with
  | nil =>
      exact .inl (List.mem_singleton.mp member)
  | cons first others inductionHypothesis =>
      obtain ⟨other, held⟩ := first
      rw [Fields.set] at member
      split at member
      · rcases List.mem_cons.mp member with isSet | inRest
        · exact .inl isSet
        · exact .inr (List.mem_cons_of_mem _ inRest)
      · rcases List.mem_cons.mp member with isFirst | inRest
        · exact .inr (isFirst ▸ List.mem_cons_self)
        · rcases inductionHypothesis inRest with isSet | isOld
          · exact .inl isSet
          · exact .inr (List.mem_cons_of_mem _ isOld)

theorem isWritable_ofEntries
    {entries : Fields}
    (written : isWritableFields entries = true) :
    (Json.object (ofEntries entries)).isWritable = true := by
  have kept : ∀ before : Fields, (before.map Prod.fst).Nodup →
      isWritableFields before = true →
        ((entries.foldl (fun fields entry => fields.set entry.1 entry.2)
            before).map Prod.fst).Nodup ∧
          isWritableFields (entries.foldl
            (fun fields entry => fields.set entry.1 entry.2) before) = true := by
    induction entries with
    | nil =>
        exact fun before distinct isWritten => ⟨distinct, isWritten⟩
    | cons entry others inductionHypothesis =>
        intro before distinct isWritten
        rw [isWritableFields_iff, List.forall_mem_cons,
          ← isWritableFields_iff] at written
        apply inductionHypothesis written.2 _
          (Fields.nodup_set distinct entry.1 entry.2)
        rw [isWritableFields_iff] at isWritten ⊢
        intro field member
        rcases Fields.mem_set member with rfl | isOld
        · exact written.1
        · exact isWritten field isOld
  rw [Json.isWritable, Bool.and_eq_true, decide_eq_true_eq]
  exact kept [] List.nodup_nil rfl

theorem parseNumber_isWritable
    (reads : parseNumber text = some (value, rest)) :
    value.isWritable = true := by
  rw [parseNumber] at reads
  split at reads
  · rename_i written
    cases reads
    rw [Json.isWritable, String.toList_ofList]
    exact written
  · cases reads

theorem parseWord_eq
    {word : Text}
    {held : Json}
    (reads : parseWord word held text = some (value, rest)) :
    value = held := by
  rw [parseWord] at reads
  split at reads
  · cases reads
    rfl
  · cases reads

/-- What is read within some depth can be written. -/
structure ReadsWritable
    (fuel : ℕ) : Prop where
  value : ∀ text value rest,
    parseValue fuel text = some (value, rest) → value.isWritable = true
  items : ∀ text items rest,
    parseItems fuel text = some (items, rest) → isWritableItems items = true
  fields : ∀ text fields rest,
    parseFields fuel text = some (fields, rest) →
      isWritableFields fields = true

variable {fuel : ℕ}

/-- A value that is read one level deeper can be written. -/
theorem ReadsWritable.parseValue
    (reads : ReadsWritable fuel)
    (isRead : parseValue (fuel + 1) text = some (value, rest)) :
    value.isWritable = true := by
  rw [Json.parseValue] at isRead
  split at isRead
  · cases isRead
  · split at isRead
    · obtain ⟨parsed, _, isValue⟩ := Option.bind_eq_some_iff.mp isRead
      cases isValue
      rw [Json.isWritable]
    · split at isRead
      · split at isRead
        · cases isRead
          rfl
        · obtain ⟨⟨items, after⟩, isItems, isValue⟩ :=
            Option.bind_eq_some_iff.mp isRead
          cases isValue
          rw [Json.isWritable]
          exact reads.items _ _ _ isItems
      · split at isRead
        · split at isRead
          · cases isRead
            rfl
          · obtain ⟨⟨entries, after⟩, isFields, isValue⟩ :=
              Option.bind_eq_some_iff.mp isRead
            cases isValue
            exact isWritable_ofEntries (reads.fields _ _ _ isFields)
        · split at isRead
          · rw [parseWord_eq isRead, Json.isWritable]
          · split at isRead
            · rw [parseWord_eq isRead, Json.isWritable]
            · split at isRead
              · rw [parseWord_eq isRead, Json.isWritable]
              · exact parseNumber_isWritable isRead

theorem ReadsWritable.parseItems
    (reads : ReadsWritable fuel)
    {items : List Json}
    (isRead : parseItems (fuel + 1) text = some (items, rest)) :
    isWritableItems items = true := by
  rw [Json.parseItems] at isRead
  obtain ⟨⟨item, after⟩, isItem, others⟩ := Option.bind_eq_some_iff.mp isRead
  have written := reads.value _ _ _ isItem
  dsimp only at others
  split at others
  · obtain ⟨⟨more, last⟩, isMore, isItems⟩ := Option.bind_eq_some_iff.mp others
    cases isItems
    rw [isWritableItems, written, reads.items _ _ _ isMore]
    rfl
  · cases others
    rw [isWritableItems, written, isWritableItems]
    rfl
  · cases others

theorem ReadsWritable.parseFields
    (reads : ReadsWritable fuel)
    (isRead : parseFields (fuel + 1) text = some (fields, rest)) :
    isWritableFields fields = true := by
  rw [Json.parseFields] at isRead
  split at isRead
  · split at isRead
    · obtain ⟨⟨points, after⟩, _, named⟩ := Option.bind_eq_some_iff.mp isRead
      dsimp only at named
      split at named
      · obtain ⟨⟨value, later⟩, isValue, others⟩ :=
          Option.bind_eq_some_iff.mp named
        have written := reads.value _ _ _ isValue
        dsimp only at others
        split at others
        · obtain ⟨⟨more, last⟩, isMore, isFields⟩ :=
            Option.bind_eq_some_iff.mp others
          cases isFields
          rw [isWritableFields, written, reads.fields _ _ _ isMore]
          rfl
        · cases others
          rw [isWritableFields, written, isWritableFields]
          rfl
        · cases others
      · cases named
    · cases isRead
  · cases isRead

theorem readsWritable
    (fuel : ℕ) : ReadsWritable fuel := by
  induction fuel with
  | zero =>
      exact {
        value := by
          intro text value rest isRead
          rw [Json.parseValue] at isRead
          cases isRead
        items := by
          intro text items rest isRead
          rw [Json.parseItems] at isRead
          cases isRead
        fields := by
          intro text fields rest isRead
          rw [Json.parseFields] at isRead
          cases isRead }
  | succ fuel inductionHypothesis =>
      exact {
        value := fun _ _ _ => inductionHypothesis.parseValue
        items := fun _ _ _ => inductionHypothesis.parseItems
        fields := fun _ _ _ => inductionHypothesis.parseFields }

theorem isWritable_of_parse
    (isRead : parse text = some value) :
    value.isWritable = true := by
  rw [parse] at isRead
  obtain ⟨⟨found, rest⟩, isValue, isOnly⟩ := Option.bind_eq_some_iff.mp isRead
  dsimp only at isOnly
  split at isOnly
  · cases isOnly
    exact (readsWritable _).value _ _ _ isValue
  · cases isOnly

open Utf8

/-!
# Written values that say what they were

A natural number is written as its decimal digits.  Values that can be written
have the same text only when they are equal, so a text that somebody signed or
hashed stands for one value.
-/

/-- A natural number as a value. -/
def ofNat
    (value : ℕ) : Json :=
  .number value.repr

theorem ofNat_injective :
    Function.Injective ofNat := by
  intro first second same
  have sameDigits : Nat.toDigits 10 first = Nat.toDigits 10 second := by
    rw [← Nat.toList_repr, ← Nat.toList_repr, Json.number.inj same]
  rw [← Nat.ofDigitChars_ten_toDigits (n := first), sameDigits,
    Nat.ofDigitChars_ten_toDigits]

theorem digits_of_all_isDigit
    {text : Text}
    (nonempty : text ≠ [])
    (allDigits : ∀ character ∈ text, character.isDigit = true) :
    digits text = some [] := by
  have split : text.span Char.isDigit = (text, []) := by
    rw [List.span_eq_takeWhile_dropWhile,
      List.takeWhile_eq_self_iff.mpr allDigits,
      List.dropWhile_eq_nil_iff.mpr allDigits]
  cases text with
  | nil =>
      exact absurd rfl nonempty
  | cons first rest =>
      rw [digits, split]

theorem toDigits_eq_zero_cons
    {value : ℕ}
    {rest : Text}
    (starts : Nat.toDigits 10 value = '0' :: rest) :
    rest = [] := by
  induction value using Nat.strong_induction_on generalizing rest with
  | _ value inductionHypothesis =>
      rcases Nat.lt_or_ge value 10 with small | large
      · rw [Nat.toDigits_of_lt_base small] at starts
        exact (List.cons.inj starts).2.symm
      · rw [Nat.toDigits_of_base_le (by decide) large] at starts
        cases front : Nat.toDigits 10 (value / 10) with
        | nil =>
            exact absurd front Nat.toDigits_ne_nil
        | cons first others =>
            rw [front, List.cons_append, List.cons.injEq] at starts
            obtain ⟨rfl, rfl⟩ := starts
            have alone := inductionHypothesis (value / 10) (by omega) front
            subst alone
            have zero : value / 10 = 0 := by
              have read := Nat.ofDigitChars_ten_toDigits (n := value / 10)
              rw [front] at read
              exact read.symm
            omega

theorem integerPart_toDigits
    (value : ℕ) :
    integerPart (Nat.toDigits 10 value) = some [] := by
  have allDigits : ∀ character ∈ Nat.toDigits 10 value,
      character.isDigit = true :=
    fun _ member => Nat.isDigit_of_mem_toDigits (by decide) (by decide) member
  rw [integerPart.eq_def]
  split
  · next rest starts =>
      rw [toDigits_eq_zero_cons starts]
  · exact digits_of_all_isDigit Nat.toDigits_ne_nil allDigits

theorem isWritable_ofNat
    (value : ℕ) :
    (ofNat value).isWritable = true := by
  have allDigits : ∀ character ∈ Nat.toDigits 10 value,
      character.isDigit = true :=
    fun _ member => Nat.isDigit_of_mem_toDigits (by decide) (by decide) member
  have unsigned : ∀ rest, Nat.toDigits 10 value ≠ '-' :: rest := by
    intro rest starts
    exact absurd (allDigits '-' (starts ▸ List.mem_cons_self)) (by decide)
  have allNumber : (Nat.toDigits 10 value).all isNumberChar = true := by
    refine List.all_eq_true.mpr fun character member => ?_
    simp [isNumberChar, allDigits character member]
  rw [ofNat, Json.isWritable, Nat.toList_repr, isNumber, allNumber,
    integerPart_toDigits]
  · rfl
  · exact unsigned

theorem stringify_injOn
    {first second : Json}
    (firstWritten : first.isWritable = true)
    (secondWritten : second.isWritable = true)
    (same : stringify first = stringify second) :
    first = second := by
  have reads := parse_stringify firstWritten
  rw [same, parse_stringify secondWritten] at reads
  exact (Option.some.inj reads).symm

theorem isWritableItems_map_string
    (values : List String) :
    isWritableItems (values.map Json.string) = true := by
  induction values with
  | nil =>
      rfl
  | cons value rest inductionHypothesis =>
      rw [List.map_cons, isWritableItems, inductionHypothesis]
      rfl

end Frameleaf.Json
