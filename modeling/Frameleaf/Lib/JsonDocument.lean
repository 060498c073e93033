import Frameleaf.Lib.JsonText
import Mathlib.Data.List.Nodup

namespace Frameleaf.JsonDocument

open Json Utf8

/-!
# JSON texts with all their entries

A text that is valid JSON may name an entry of an object twice, and readers
differ in what they make of that.  A document keeps every entry as it stands in
the text; what one reader makes of it is the document with the entries of each
object resolved.  Names are compared by their code units.
-/

/-- A text as code points and the code units of escapes. -/
abbrev Points := List ℕ

/-- The code units of a code point. -/
def unitsOfPoint (point : ℕ) : List ℕ :=
  if point < 0x10000 then
    [point]
  else
    [0xD800 + (point - 0x10000) / 0x400, 0xDC00 + (point - 0x10000) % 0x400]

/-- The code units of a text. -/
def units (points : Points) : List ℕ :=
  points.flatMap unitsOfPoint

/-- A document with every entry of its objects; a string is its code units. -/
inductive Document where
  | leaf (value : Json)
  | string (value : List ℕ)
  | array (items : List Document)
  | object (entries : List (List ℕ × Document))

/-- The entries of an object. -/
abbrev Entries := List (List ℕ × Document)

/-- Keep what is read as a leaf. -/
def leafOf (read : Json × Text) : Document × Text :=
  (.leaf read.1, read.2)

mutual

/-- Read a value, as deep as the fuel allows. -/
def readValue : ℕ → Text → Option (Document × Text)
  | 0, _ =>
      none
  | fuel + 1, text =>
      match skipSpace text with
      | [] =>
          none
      | character :: rest =>
          if character = quote then do
            let (points, rest) ← parseString rest
            return (.string (units points), rest)
          else if character = '[' then
            match skipSpace rest with
            | ']' :: rest =>
                some (.array [], rest)
            | rest => do
                let (items, rest) ← readItems fuel rest
                return (.array items, rest)
          else if character = '{' then
            match skipSpace rest with
            | '}' :: rest =>
                some (.object [], rest)
            | rest => do
                let (entries, rest) ← readEntries fuel rest
                return (.object entries, rest)
          else if character = 't' then
            (parseWord ['t', 'r', 'u', 'e'] (.bool true)
              (character :: rest)).map leafOf
          else if character = 'f' then
            (parseWord ['f', 'a', 'l', 's', 'e'] (.bool false)
              (character :: rest)).map leafOf
          else if character = 'n' then
            (parseWord ['n', 'u', 'l', 'l'] .null (character :: rest)).map
              leafOf
          else
            (parseNumber (character :: rest)).map leafOf

/-- Read the items of an array and its end. -/
def readItems : ℕ → Text → Option (List Document × Text)
  | 0, _ =>
      none
  | fuel + 1, text => do
      let (item, rest) ← readValue fuel text
      match skipSpace rest with
      | ',' :: rest => do
          let (items, rest) ← readItems fuel rest
          return (item :: items, rest)
      | ']' :: rest =>
          return ([item], rest)
      | _ =>
          none

/-- Read the entries of an object and its end. -/
def readEntries : ℕ → Text → Option (Entries × Text)
  | 0, _ =>
      none
  | fuel + 1, text =>
      match skipSpace text with
      | character :: rest =>
          if character = quote then do
            let (points, rest) ← parseString rest
            match skipSpace rest with
            | ':' :: rest => do
                let (value, rest) ← readValue fuel rest
                match skipSpace rest with
                | ',' :: rest => do
                    let (entries, rest) ← readEntries fuel rest
                    return ((units points, value) :: entries, rest)
                | '}' :: rest =>
                    return ([(units points, value)], rest)
                | _ =>
                    none
            | _ =>
                none
          else
            none
      | [] =>
          none

end

/-- Read a text that is one value. -/
def read (text : Text) : Option Document := do
  let (document, rest) ← readValue (text.length + 1) text
  if skipSpace rest = [] then
    return document
  else
    none

mutual

/-- How deep the values of a document lie: the outermost one at zero. -/
def nesting : Document → ℕ
  | .leaf _ | .string _ =>
      0
  | .array items =>
      nestingItems items
  | .object entries =>
      nestingEntries entries

/-- How deep the values of items lie below what holds them. -/
def nestingItems : List Document → ℕ
  | [] =>
      0
  | item :: rest =>
      max (nesting item + 1) (nestingItems rest)

/-- How deep the values of entries lie below what holds them. -/
def nestingEntries : Entries → ℕ
  | [] =>
      0
  | (_, value) :: rest =>
      max (nesting value + 1) (nestingEntries rest)

end

mutual

/-- No object holds the same name twice. -/
def isUnambiguous : Document → Bool
  | .leaf _ | .string _ =>
      true
  | .array items =>
      areUnambiguous items
  | .object entries =>
      (entries.map Prod.fst).Nodup && entriesUnambiguous entries

/-- No object in items holds the same name twice. -/
def areUnambiguous : List Document → Bool
  | [] =>
      true
  | item :: rest =>
      isUnambiguous item && areUnambiguous rest

/-- No object in entries holds the same name twice. -/
def entriesUnambiguous : Entries → Bool
  | [] =>
      true
  | (_, value) :: rest =>
      isUnambiguous value && entriesUnambiguous rest

end

/-! ## Readers -/

/-- What a reader makes of the entries of an object: entries with different
names stay as they are. -/
structure Reader where
  resolve : Entries → Entries
  keeps :
    ∀ entries, (entries.map Prod.fst).Nodup → resolve entries = entries

mutual

/-- What a reader makes of a document. -/
def Reader.resolved
    (reader : Reader) : Document → Document
  | .leaf value =>
      .leaf value
  | .string value =>
      .string value
  | .array items =>
      .array (reader.resolvedItems items)
  | .object entries =>
      .object (reader.resolve (reader.resolvedEntries entries))

/-- What a reader makes of items. -/
def Reader.resolvedItems
    (reader : Reader) : List Document → List Document
  | [] =>
      []
  | item :: rest =>
      reader.resolved item :: reader.resolvedItems rest

/-- What a reader makes of entries, each for itself. -/
def Reader.resolvedEntries
    (reader : Reader) : Entries → Entries
  | [] =>
      []
  | (name, value) :: rest =>
      (name, reader.resolved value) :: reader.resolvedEntries rest

end

/-- Give a name its value, at its old place if it has one. -/
def setEntry
    (name : List ℕ)
    (value : Document) : Entries → Entries
  | [] =>
      [(name, value)]
  | entry :: rest =>
      if entry.1 = name then (name, value) :: rest
      else entry :: setEntry name value rest

theorem setEntry_of_not_mem
    {name : List ℕ}
    {entries : Entries}
    (isNew : name ∉ entries.map Prod.fst)
    (value : Document) :
    setEntry name value entries = entries ++ [(name, value)] := by
  induction entries with
  | nil =>
      rfl
  | cons entry rest inductionHypothesis =>
      rw [List.map_cons, List.mem_cons, not_or] at isNew
      rw [setEntry, if_neg (Ne.symm isNew.1), inductionHypothesis isNew.2,
        List.cons_append]

/-- The entries that are left when a later one replaces an earlier one. -/
def lastOf (entries : Entries) : Entries :=
  entries.foldl (fun kept entry => setEntry entry.1 entry.2 kept) []

theorem foldl_setEntry
    {entries kept : Entries}
    (distinct : ((kept ++ entries).map Prod.fst).Nodup) :
    entries.foldl (fun kept entry => setEntry entry.1 entry.2 kept) kept =
      kept ++ entries := by
  induction entries generalizing kept with
  | nil =>
      rw [List.foldl_nil, List.append_nil]
  | cons entry rest inductionHypothesis =>
      have isNew : entry.1 ∉ kept.map Prod.fst := by
        rw [List.map_append, List.map_cons] at distinct
        intro isOld
        exact (List.nodup_append'.mp distinct).2.2 isOld List.mem_cons_self
      rw [List.foldl_cons, setEntry_of_not_mem isNew, inductionHypothesis]
      · rw [List.append_assoc, List.singleton_append]
      · rwa [List.append_assoc, List.singleton_append]

/-- The reader of the language: the last entry of a name counts. -/
def lastEntry : Reader where
  resolve := lastOf
  keeps _ distinct := foldl_setEntry distinct

/-- What the language reads in a text. -/
def parseJson (text : Text) : Option Document :=
  (read text).map lastEntry.resolved

mutual

theorem Reader.resolved_eq
    (reader : Reader) : (document : Document) →
      isUnambiguous document = true → reader.resolved document = document
  | .leaf value, _ => by
      rw [Reader.resolved]
  | .string value, _ => by
      rw [Reader.resolved]
  | .array items, unambiguous => by
      rw [isUnambiguous] at unambiguous
      rw [Reader.resolved, reader.resolvedItems_eq items unambiguous]
  | .object entries, unambiguous => by
      rw [isUnambiguous, Bool.and_eq_true, decide_eq_true_eq] at unambiguous
      rw [Reader.resolved, reader.resolvedEntries_eq entries unambiguous.2,
        reader.keeps entries unambiguous.1]

theorem Reader.resolvedItems_eq
    (reader : Reader) : (items : List Document) →
      areUnambiguous items = true → reader.resolvedItems items = items
  | [], _ => by
      rw [Reader.resolvedItems]
  | item :: rest, unambiguous => by
      rw [areUnambiguous, Bool.and_eq_true] at unambiguous
      rw [Reader.resolvedItems, reader.resolved_eq item unambiguous.1,
        reader.resolvedItems_eq rest unambiguous.2]

theorem Reader.resolvedEntries_eq
    (reader : Reader) : (entries : Entries) →
      entriesUnambiguous entries = true →
        reader.resolvedEntries entries = entries
  | [], _ => by
      rw [Reader.resolvedEntries]
  | (name, value) :: rest, unambiguous => by
      rw [entriesUnambiguous, Bool.and_eq_true] at unambiguous
      rw [Reader.resolvedEntries, reader.resolved_eq value unambiguous.1,
        reader.resolvedEntries_eq rest unambiguous.2]

end

end Frameleaf.JsonDocument
