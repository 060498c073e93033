import Frameleaf.Lib.JsonDocument
import Mathlib.Algebra.GroupWithZero.Nat

namespace Frameleaf.StudioVector

open Json JsonDocument Utf8

/-!
# Looking for repeated names before a text is read

A pattern cuts a text into tokens, whatever lies between them is left out, and
a scanner walks the tokens with the names that it has seen.  The archive reader
and the reader of dependencies look at a text in the same way.  Texts are
without lone surrogates.
-/

instance lawfulUnits : LawfulBEq (List ℕ) :=
  inferInstance

/-! ## Tokens -/

/-- A character that the dot of a pattern does not match. -/
def isLineEnd (character : Char) : Bool :=
  character = '\n' || character = '\r' || character.toNat = 0x2028 ||
    character.toNat = 0x2029

/-- The rest of a string that a pattern matches after the opening quote. -/
def stringBody : Text → Option Text
  | [] =>
      none
  | character :: rest =>
      if character = quote then
        some [quote]
      else if character = backslash then
        match rest with
        | [] =>
            none
        | escaped :: rest =>
            if isLineEnd escaped then none
            else (stringBody rest).map (character :: escaped :: ·)
      else
        (stringBody rest).map (character :: ·)

/-- A fraction that a pattern matches, or nothing, and what follows. -/
def matchFraction : Text → Text × Text
  | '.' :: rest =>
      match rest.span Char.isDigit with
      | ([], _) => ([], '.' :: rest)
      | (digits, after) => ('.' :: digits, after)
  | text =>
      ([], text)

/-- The sign of an exponent, if there is one, and what follows. -/
def matchSign : Text → Text × Text
  | '+' :: rest =>
      (['+'], rest)
  | '-' :: rest =>
      (['-'], rest)
  | text =>
      ([], text)

/-- An exponent that a pattern matches, or nothing. -/
def matchExponent : Text → Text
  | [] =>
      []
  | character :: rest =>
      if character = 'e' ∨ character = 'E' then
        match (matchSign rest).2.span Char.isDigit with
        | ([], _) => []
        | (digits, _) => character :: (matchSign rest).1 ++ digits
      else
        []

/-- The sign of a number, if there is one, and what follows. -/
def matchMinus : Text → Text × Text
  | '-' :: rest =>
      (['-'], rest)
  | text =>
      ([], text)

/-- A number that a pattern matches. -/
def matchNumber (text : Text) : Option Text :=
  match (matchMinus text).2.span Char.isDigit with
  | ([], _) =>
      none
  | (whole, after) =>
      some ((matchMinus text).1 ++ whole ++ (matchFraction after).1 ++
        matchExponent (matchFraction after).2)

/-- The words that are values. -/
def words : List Text :=
  [['t', 'r', 'u', 'e'], ['f', 'a', 'l', 's', 'e'], ['n', 'u', 'l', 'l']]

/-- The characters that are tokens. -/
def punctuation : List Char :=
  ['{', '}', '[', ']', ':', ',']

/-- The token that the pattern matches at the start of a text. -/
def matchAt : Text → Option Text
  | [] =>
      none
  | character :: rest =>
      if character = quote then
        (stringBody rest).map (quote :: ·)
      else if character ∈ punctuation then
        some [character]
      else
        (matchNumber (character :: rest)).or
          (words.find? fun word => word.isPrefixOf (character :: rest))

/-- The tokens of a text after some characters of it: each match leaves out the
characters that it covers. -/
def tokensAfter : ℕ → Text → List Text
  | _, [] =>
      []
  | skipped + 1, _ :: rest =>
      tokensAfter skipped rest
  | 0, character :: rest =>
      match matchAt (character :: rest) with
      | some token =>
          token :: tokensAfter (token.length - 1) rest
      | none =>
          tokensAfter 0 rest

/-- The tokens of a text. -/
def tokensOf (text : Text) : List Text :=
  tokensAfter 0 text

/-! ## The scanner -/

/-- The code units that a token is read as, if it is a string. -/
def keyOf : Text → Option (List ℕ)
  | [] =>
      none
  | character :: rest =>
      if character = quote then
        match parseString rest with
        | some (points, []) => some (units points)
        | _ => none
      else
        none

/-- The depth below which no value may lie. -/
def MAX_DEPTH : ℕ := 64

/-- What a scan leaves of the tokens, unless it refuses them.  There is no
result when the fuel does not last. -/
abbrev Scan := Option (Option (List Text))

/-- Go on with what a scan has left, unless it refused. -/
def Scan.andThen
    (scan : Scan)
    (next : List Text → Scan) : Scan :=
  scan.bind fun
    | none => some none
    | some rest => next rest

mutual

/-- Scan a value at a depth. -/
def scanValue : ℕ → ℕ → List Text → Scan
  | 0, _, _ =>
      none
  | fuel + 1, depth, tokens =>
      if MAX_DEPTH < depth then
        some none
      else
        match tokens with
        | [] =>
            some none
        | token :: rest =>
            if token = ['{'] then
              match rest with
              | ['}'] :: rest => some (some rest)
              | rest => scanEntries fuel depth [] rest
            else if token = ['['] then
              match rest with
              | [']'] :: rest => some (some rest)
              | rest => scanItems fuel depth rest
            else if token ∈ [['}'], [']'], [':'], [',']] then
              some none
            else
              some (some rest)

/-- Scan the items of an array and its end. -/
def scanItems : ℕ → ℕ → List Text → Scan
  | 0, _, _ =>
      none
  | fuel + 1, depth, tokens =>
      (scanValue fuel (depth + 1) tokens).andThen fun
        | [']'] :: rest => some (some rest)
        | [','] :: rest => scanItems fuel depth rest
        | _ => some none

/-- Scan the entries of an object and its end, with the names seen so far. -/
def scanEntries : ℕ → ℕ → List (List ℕ) → List Text → Scan
  | 0, _, _, _ =>
      none
  | fuel + 1, depth, keys, tokens =>
      match tokens with
      | token :: [':'] :: rest =>
          match keyOf token with
          | none =>
              some none
          | some key =>
              if key ∈ keys then
                some none
              else
                (scanValue fuel (depth + 1) rest).andThen fun
                  | ['}'] :: rest => some (some rest)
                  | [','] :: rest =>
                      scanEntries fuel depth (key :: keys) rest
                  | _ => some none
      | _ =>
          some none

end

/-- Whether the scanner lets a text through.  There is no answer when it goes
on. -/
def assertUnambiguousJson (text : Text) : Option Bool :=
  let tokens := tokensOf text
  (scanValue (2 * tokens.length + 1) 0 tokens).map fun left => left = some []

/-! ## The archive reader -/

/-- How many bytes a text of an archive may have. -/
def MAX_BYTES : ℕ := 16 * 1024 * 1024

/-- Whether a document is an object. -/
def isObject : Document → Bool
  | .object _ =>
      true
  | _ =>
      false

/-- Read a text of an archive, unless it is refused.  There is no answer when
the scanner goes on. -/
def parseArchiveJson (text : Text) : Option (Option Document) :=
  if MAX_BYTES < (encode text).length then
    some none
  else
    (assertUnambiguousJson text).map fun passes =>
      if passes then (parseJson text).filter isObject else none

end Frameleaf.StudioVector
