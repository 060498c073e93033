import Frameleaf.Lib.Json
import Frameleaf.Lib.Utf8

namespace Frameleaf.Json

open Utf8

/-!
# JSON texts

A value is written without space and read with any space that JSON allows.  A
number is kept as the text that it is written as; a string that names half of a
surrogate pair reads as the replacement character.  What was written reads as
it was, whatever follows it.
-/

/-- The character around a string. -/
def quote : Char := Char.ofNat 0x22

/-- The character before an escaped one. -/
def backslash : Char := Char.ofNat 0x5C

/-- Characters with an escape of one letter. -/
def escapes : List (Char × Char) :=
  [(quote, quote), (backslash, backslash), (Char.ofNat 0x08, 'b'),
    (Char.ofNat 0x0C, 'f'), ('\n', 'n'), ('\r', 'r'), ('\t', 't')]

/-- A digit of a hexadecimal number. -/
def hexDigit
    (value : ℕ) : Char :=
  if value < 10 then Char.ofNat (0x30 + value) else Char.ofNat (0x57 + value)

/-- The value of a hexadecimal digit. -/
def hexValue
    (digit : Char) : Option ℕ :=
  let code := digit.toNat
  if 0x30 ≤ code ∧ code ≤ 0x39 then
    some (code - 0x30)
  else if 0x61 ≤ code ∧ code ≤ 0x66 then
    some (code - 0x57)
  else if 0x41 ≤ code ∧ code ≤ 0x46 then
    some (code - 0x37)
  else
    none

/-- A character as it is written in a string. -/
def escapeChar
    (character : Char) : Text :=
  match escapes.find? fun escape => escape.1 = character with
  | some (_, letter) =>
      [backslash, letter]
  | none =>
      if character.toNat < 0x20 then
        [backslash, 'u', '0', '0', hexDigit (character.toNat / 16),
          hexDigit (character.toNat % 16)]
      else
        [character]

/-- A string as it is written. -/
def stringifyText
    (text : Text) : Text :=
  quote :: text.flatMap escapeChar ++ [quote]

mutual

/-- A value as it is written. -/
def stringify : Json → Text
  | .null =>
      ['n', 'u', 'l', 'l']
  | .bool true =>
      ['t', 'r', 'u', 'e']
  | .bool false =>
      ['f', 'a', 'l', 's', 'e']
  | .number text =>
      text.toList
  | .string value =>
      stringifyText value.toList
  | .array items =>
      '[' :: stringifyItems items ++ [']']
  | .object fields =>
      '{' :: stringifyFields fields ++ ['}']

/-- The items of an array as they are written. -/
def stringifyItems : List Json → Text
  | [] =>
      []
  | item :: rest =>
      stringify item ++
        match rest with
        | [] => []
        | _ :: _ => ',' :: stringifyItems rest

/-- The fields of an object as they are written. -/
def stringifyFields : Fields → Text
  | [] =>
      []
  | (name, value) :: rest =>
      stringifyText name.toList ++ ':' :: stringify value ++
        match rest with
        | [] => []
        | _ :: _ => ',' :: stringifyFields rest

end

/-- Leave out the space before a token. -/
def skipSpace
    (text : Text) : Text :=
  text.dropWhile fun character =>
    character = ' ' || character = '\t' || character = '\n' ||
      character = '\r'

/-- Read four hexadecimal digits. -/
def hexUnit
    (first second third fourth : Char) : Option ℕ := do
  let first ← hexValue first
  let second ← hexValue second
  let third ← hexValue third
  let fourth ← hexValue fourth
  return ((first * 16 + second) * 16 + third) * 16 + fourth

/-- Read a string after its opening quote, as code points and code units. -/
def parseString : Text → Option (List ℕ × Text)
  | [] =>
      none
  | character :: rest =>
      if character = quote then
        some ([], rest)
      else if character = backslash then
        match rest with
        | 'u' :: first :: second :: third :: fourth :: rest => do
            let unit ← hexUnit first second third fourth
            let (points, rest) ← parseString rest
            return (unit :: points, rest)
        | letter :: rest => do
            let (escaped, _) ← (('/', '/') :: escapes).find? fun escape =>
              escape.2 = letter
            let (points, rest) ← parseString rest
            return (escaped.toNat :: points, rest)
        | [] =>
            none
      else if character.toNat < 0x20 then
        none
      else do
        let (points, rest) ← parseString rest
        return (character.toNat :: points, rest)

/-- The character of a code point that is not half of a pair. -/
def pointChar
    (point : ℕ) : Char :=
  if point.isValidChar then Char.ofNat point else replacement

/-- The text of code points and code units. -/
def ofPoints : List ℕ → Text
  | high :: low :: rest =>
      if 0xD800 ≤ high ∧ high < 0xDC00 ∧ 0xDC00 ≤ low ∧ low < 0xE000 then
        pointChar (0x10000 + (high - 0xD800) * 0x400 + (low - 0xDC00)) ::
          ofPoints rest
      else
        pointChar high :: ofPoints (low :: rest)
  | [point] =>
      [pointChar point]
  | [] =>
      []

/-- A character that can be part of a number. -/
def isNumberChar
    (character : Char) : Bool :=
  character.isDigit || character = '-' || character = '+' ||
    character = '.' || character = 'e' || character = 'E'

/-- Read digits, of which there has to be one. -/
def digits
    (text : Text) : Option Text :=
  match text.span Char.isDigit with
  | ([], _) =>
      none
  | (_ :: _, rest) =>
      some rest

/-- Read the integer part of a number. -/
def integerPart : Text → Option Text
  | '0' :: rest =>
      some rest
  | text =>
      digits text

/-- Read the fraction of a number, if there is one. -/
def fractionPart : Text → Option Text
  | '.' :: rest =>
      digits rest
  | text =>
      some text

/-- Read the exponent of a number, if there is one. -/
def exponentPart : Text → Option Text
  | character :: rest =>
      if character = 'e' ∨ character = 'E' then
        digits (match rest with
          | '+' :: rest => rest
          | '-' :: rest => rest
          | rest => rest)
      else
        some (character :: rest)
  | [] =>
      some []

/-- The text is that of a number. -/
def isNumber
    (text : Text) : Bool :=
  text.all isNumberChar &&
    (((integerPart (match text with
        | '-' :: rest => rest
        | text => text)).bind fractionPart).bind exponentPart) = some []

/-- Read a word. -/
def parseWord
    (word : Text)
    (value : Json)
    (text : Text) : Option (Json × Text) :=
  if word.isPrefixOf text then some (value, text.drop word.length) else none

/-- Read a number. -/
def parseNumber
    (text : Text) : Option (Json × Text) :=
  let token := text.takeWhile isNumberChar
  if isNumber token then
    some (.number (String.ofList token), text.dropWhile isNumberChar)
  else
    none

/-- The object with some entries; a later one replaces an earlier one. -/
def ofEntries
    (entries : Fields) : Fields :=
  entries.foldl (fun fields entry => fields.set entry.1 entry.2) []

mutual

/-- Read a value, as deep as the fuel allows. -/
def parseValue : ℕ → Text → Option (Json × Text)
  | 0, _ =>
      none
  | fuel + 1, text =>
      match skipSpace text with
      | [] =>
          none
      | character :: rest =>
          if character = quote then do
            let (points, rest) ← parseString rest
            return (.string (String.ofList (ofPoints points)), rest)
          else if character = '[' then
            match skipSpace rest with
            | ']' :: rest =>
                some (.array [], rest)
            | rest => do
                let (items, rest) ← parseItems fuel rest
                return (.array items, rest)
          else if character = '{' then
            match skipSpace rest with
            | '}' :: rest =>
                some (.object [], rest)
            | rest => do
                let (entries, rest) ← parseFields fuel rest
                return (.object (ofEntries entries), rest)
          else if character = 't' then
            parseWord ['t', 'r', 'u', 'e'] (.bool true) (character :: rest)
          else if character = 'f' then
            parseWord ['f', 'a', 'l', 's', 'e'] (.bool false)
              (character :: rest)
          else if character = 'n' then
            parseWord ['n', 'u', 'l', 'l'] .null (character :: rest)
          else
            parseNumber (character :: rest)

/-- Read the items of an array and its end. -/
def parseItems : ℕ → Text → Option (List Json × Text)
  | 0, _ =>
      none
  | fuel + 1, text => do
      let (item, rest) ← parseValue fuel text
      match skipSpace rest with
      | ',' :: rest => do
          let (items, rest) ← parseItems fuel rest
          return (item :: items, rest)
      | ']' :: rest =>
          return ([item], rest)
      | _ =>
          none

/-- Read the fields of an object and its end. -/
def parseFields : ℕ → Text → Option (Fields × Text)
  | 0, _ =>
      none
  | fuel + 1, text =>
      match skipSpace text with
      | character :: rest =>
          if character = quote then do
            let (points, rest) ← parseString rest
            let name := String.ofList (ofPoints points)
            match skipSpace rest with
            | ':' :: rest => do
                let (value, rest) ← parseValue fuel rest
                match skipSpace rest with
                | ',' :: rest => do
                    let (fields, rest) ← parseFields fuel rest
                    return ((name, value) :: fields, rest)
                | '}' :: rest =>
                    return ([(name, value)], rest)
                | _ =>
                    none
            | _ =>
                none
          else
            none
      | [] =>
          none

end

/-- Read a text that is one value. -/
def parse
    (text : Text) : Option Json := do
  let (value, rest) ← parseValue (text.length + 1) text
  if skipSpace rest = [] then
    return value
  else
    none

mutual

/-- A value that can be written: its numbers are numbers and names differ. -/
def Json.isWritable : Json → Bool
  | .null | .bool _ | .string _ =>
      true
  | .number text =>
      isNumber text.toList
  | .array items =>
      isWritableItems items
  | .object fields =>
      (fields.map Prod.fst).Nodup && isWritableFields fields

/-- Items that can be written. -/
def isWritableItems : List Json → Bool
  | [] =>
      true
  | item :: rest =>
      item.isWritable && isWritableItems rest

/-- Fields that can be written. -/
def isWritableFields : Fields → Bool
  | [] =>
      true
  | (_, value) :: rest =>
      value.isWritable && isWritableFields rest

end

end Frameleaf.Json
