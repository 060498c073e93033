import Frameleaf.StudioVector.Scanner
import Frameleaf.Lib.JsonRoundTrip
import Mathlib.Data.List.TakeDrop

namespace Frameleaf.StudioVector

open Json JsonDocument Utf8

/-!
# The tokens of what is read

In a text that is valid JSON the pattern finds exactly the tokens that a reader
reads: a string with its escapes, a number with all its parts, a word, and the
characters of the grammar between them.
-/

/-! ## Tokens -/

theorem tokensAfter_eq
    (skipped : ℕ)
    (text : Text) :
    tokensAfter skipped text = tokensOf (text.drop skipped) := by
  induction text generalizing skipped with
  | nil =>
      rw [List.drop_nil, tokensAfter, tokensOf, tokensAfter]
  | cons character rest inductionHypothesis =>
      cases skipped with
      | zero =>
          rfl
      | succ skipped =>
          rw [tokensAfter, inductionHypothesis, List.drop_succ_cons]

theorem tokensOf_match
    {first : Char}
    {token after : Text}
    (matched : matchAt (first :: (token ++ after)) = some (first :: token)) :
    tokensOf (first :: (token ++ after)) =
      (first :: token) :: tokensOf after := by
  rw [tokensOf, tokensAfter, matched]
  dsimp only
  rw [tokensAfter_eq, List.length_cons, Nat.add_sub_cancel, List.drop_left]

variable {character letter : Char}

theorem tokensOf_space
    (space : isSpace character = true)
    (rest : Text) :
    tokensOf (character :: rest) = tokensOf rest := by
  have noMatch : matchAt (character :: rest) = none := by
    simp only [isSpace, Bool.or_eq_true, decide_eq_true_eq] at space
    rcases space with ((rfl | rfl) | rfl) | rfl <;> rfl
  rw [tokensOf, tokensAfter, noMatch]
  rfl

theorem tokensOf_skipSpace
    (text : Text) :
    tokensOf (skipSpace text) = tokensOf text := by
  induction text with
  | nil =>
      rfl
  | cons character rest inductionHypothesis =>
      cases space : isSpace character with
      | true =>
          rw [tokensOf_space space, ← inductionHypothesis, skipSpace,
            List.dropWhile_cons]
          change tokensOf (if isSpace character = true then _ else _) = _
          rw [if_pos space]
          rfl
      | false =>
          rw [skipSpace_cons rest space]

theorem tokensOf_punctuation
    (isMark : character ∈ punctuation)
    (rest : Text) :
    tokensOf (character :: rest) = [character] :: tokensOf rest := by
  refine @tokensOf_match character [] rest ?_
  have notQuote : character ≠ quote := by
    rintro rfl
    exact absurd isMark (by decide)
  rw [matchAt, if_neg notQuote, if_pos isMark]

/-! ## Strings -/

/-- A string that a reader reads: the pattern matches it, and it is read for
itself alone. -/
structure IsString
    (text : Text)
    (points : List ℕ)
    (after : Text) : Prop where
  split : ∃ body, text = body ++ after ∧ stringBody text = some body ∧
    parseString body = some (points, [])

theorem hexValue_plain
    {digit : Char}
    {value : ℕ}
    (isDigit : hexValue digit = some value) :
    digit ≠ quote ∧ digit ≠ backslash := by
  constructor <;>
  · rintro rfl
    exact absurd isDigit (by decide +revert)

theorem stringBody_plain
    (notQuote : character ≠ quote)
    (notBackslash : character ≠ backslash)
    (rest : Text) :
    stringBody (character :: rest) =
      (stringBody rest).map (character :: ·) := by
  rw [stringBody.eq_def]
  dsimp only
  rw [if_neg notQuote, if_neg notBackslash]

theorem stringBody_escape
    {escaped : Char}
    (notEnd : isLineEnd escaped = false)
    (rest : Text) :
    stringBody (backslash :: escaped :: rest) =
      (stringBody rest).map (backslash :: escaped :: ·) := by
  rw [stringBody.eq_def]
  dsimp only
  rw [if_neg (by decide), if_pos rfl, notEnd, if_neg Bool.false_ne_true]

/-- Read on after a code unit. -/
def consUnit
    (unit : ℕ)
    (read : List ℕ × Text) : List ℕ × Text :=
  (unit :: read.1, read.2)

theorem parseString_unit
    (first second third fourth : Char)
    (rest : Text) :
    parseString (backslash :: 'u' :: first :: second :: third :: fourth ::
        rest) =
      (hexUnit first second third fourth).bind fun unit =>
        (parseString rest).map (consUnit unit) := by
  rw [parseString.eq_def]
  dsimp only
  rw [if_neg (by decide), if_pos rfl]
  split
  · rename_i sameText
    cases sameText
    cases hexUnit first second third fourth with
    | none => rfl
    | some unit =>
        cases parseString rest <;> rfl
  · rename_i noUnit sameText
    cases sameText
    exact (noUnit _ _ _ _ _ rfl rfl).elim
  · rename_i sameText
    nomatch sameText

variable {rest text : Text}

theorem parseString_escape
    (noUnit : ∀ first second third fourth others, letter = 'u' →
      rest = first :: second :: third :: fourth :: others → False) :
    parseString (backslash :: letter :: rest) =
      ((('/', '/') :: escapes).find? fun escape => escape.2 = letter).bind
        fun escape => (parseString rest).map (consUnit escape.1.toNat) := by
  rw [parseString.eq_def]
  dsimp only
  rw [if_neg (by decide), if_pos rfl]
  split
  · rename_i sameText
    cases sameText
    exact (noUnit _ _ _ _ _ rfl rfl).elim
  · rename_i sameText
    cases sameText
    cases (('/', '/') :: escapes).find? fun escape => escape.2 = letter with
    | none => rfl
    | some escape =>
        cases parseString rest <;> rfl
  · rename_i sameText
    nomatch sameText

theorem parseString_plain
    (notQuote : character ≠ quote)
    (notBackslash : character ≠ backslash)
    (notControl : ¬ character.toNat < 0x20)
    (rest : Text) :
    parseString (character :: rest) =
      (parseString rest).map (consUnit character.toNat) := by
  rw [parseString.eq_def]
  dsimp only
  rw [if_neg notQuote, if_neg notBackslash, if_neg notControl]
  cases parseString rest <;> rfl

theorem isLineEnd_of_escape
    {escape : Char × Char}
    (found : (('/', '/') :: escapes).find? (fun escape =>
      escape.2 = letter) = some escape) :
    isLineEnd letter = false := by
  have isLetter := List.find?_some found
  rw [decide_eq_true_eq] at isLetter
  have each : ∀ escape ∈ ('/', '/') :: escapes,
      isLineEnd escape.2 = false := by
    decide
  rw [← isLetter]
  exact each escape (List.mem_of_find?_eq_some found)

/-- A string that is read is matched. -/
theorem isString_of_parseString
    {points : List ℕ}
    {after : Text}
    (reads : parseString text = some (points, after)) :
    IsString text points after := by
  induction text using parseString.induct generalizing points with
  | case1 =>
      cases reads
  | case2 rest =>
      rw [parseString.eq_def] at reads
      dsimp only at reads
      rw [if_pos rfl] at reads
      cases reads
      refine ⟨[quote], rfl, ?_, ?_⟩
      · rw [stringBody.eq_def]
        exact if_pos rfl
      · rw [parseString, if_pos rfl]
  | case3 first second third fourth rest notQuote inductionHypothesis =>
      rw [parseString_unit] at reads
      obtain ⟨unit, isUnit, others⟩ := Option.bind_eq_some_iff.mp reads
      obtain ⟨⟨more, end_⟩, readsMore, isRead⟩ :=
        Option.map_eq_some_iff.mp others
      cases isRead
      obtain ⟨body, rfl, matched, alone⟩ := (inductionHypothesis readsMore).split
      obtain ⟨one, isOne, two⟩ := Option.bind_eq_some_iff.mp isUnit
      obtain ⟨second', isSecond, three⟩ := Option.bind_eq_some_iff.mp two
      obtain ⟨third', isThird, four⟩ := Option.bind_eq_some_iff.mp three
      obtain ⟨fourth', isFourth, -⟩ := Option.bind_eq_some_iff.mp four
      refine ⟨backslash :: 'u' :: first :: second :: third :: fourth :: body,
        rfl, ?_, ?_⟩
      · have plain : ∀ {digit value}, hexValue digit = some value →
            ∀ rest, stringBody (digit :: rest) =
              (stringBody rest).map (digit :: ·) :=
          fun isDigit => stringBody_plain (hexValue_plain isDigit).1
            (hexValue_plain isDigit).2
        rw [stringBody_escape (by decide), plain isOne, plain isSecond,
          plain isThird, plain isFourth, matched]
        rfl
      · rw [parseString_unit, isUnit, alone]
        rfl
  | case4 letter rest noUnit notQuote inductionHypothesis =>
      rw [parseString_escape noUnit] at reads
      obtain ⟨escape, isEscape, others⟩ := Option.bind_eq_some_iff.mp reads
      obtain ⟨⟨more, end_⟩, readsMore, isRead⟩ :=
        Option.map_eq_some_iff.mp others
      cases isRead
      obtain ⟨body, rfl, matched, alone⟩ := (inductionHypothesis readsMore).split
      refine ⟨backslash :: letter :: body, rfl, ?_, ?_⟩
      · rw [stringBody_escape (isLineEnd_of_escape isEscape), matched]
        rfl
      · rw [parseString_escape, isEscape, alone]
        · rfl
        · rintro first second third fourth others isLetter rfl
          exact noUnit _ _ _ _ _ isLetter rfl
  | case5 notQuote =>
      cases reads
  | case6 character rest notQuote notBackslash isControl =>
      rw [parseString.eq_def] at reads
      dsimp only at reads
      rw [if_neg notQuote, if_neg notBackslash, if_pos isControl] at reads
      cases reads
  | case7 character rest notQuote notBackslash notControl inductionHypothesis =>
      rw [parseString_plain notQuote notBackslash notControl] at reads
      obtain ⟨⟨more, end_⟩, readsMore, isRead⟩ :=
        Option.map_eq_some_iff.mp reads
      cases isRead
      obtain ⟨body, rfl, matched, alone⟩ := (inductionHypothesis readsMore).split
      refine ⟨character :: body, rfl, ?_, ?_⟩
      · rw [stringBody_plain notQuote notBackslash, matched]
        rfl
      · rw [parseString_plain notQuote notBackslash notControl, alone]
        rfl

/-! ## Numbers -/

/-- No digit comes first. -/
def NoDigit (text : Text) : Prop :=
  ∀ character ∈ text.head?, character.isDigit = false

theorem span_digits
    {after : Text}
    (noDigit : NoDigit after) :
    (text ++ after).span Char.isDigit =
      (text.takeWhile Char.isDigit, text.dropWhile Char.isDigit ++ after) := by
  rw [List.span_eq_takeWhile_dropWhile]
  induction text with
  | nil =>
      cases after with
      | nil => rfl
      | cons first after =>
          rw [List.nil_append, List.takeWhile_cons, List.dropWhile_cons,
            noDigit first rfl]
          rfl
  | cons first text inductionHypothesis =>
      rw [Prod.mk.injEq] at inductionHypothesis
      rw [List.cons_append, List.takeWhile_cons, List.takeWhile_cons,
        List.dropWhile_cons, List.dropWhile_cons, inductionHypothesis.1,
        inductionHypothesis.2]
      cases first.isDigit <;> rfl

theorem noDigit_of_ends
    {after : Text}
    (ends : EndsNumber after) :
    NoDigit after := by
  intro character isFirst
  have noNumber := ends character isFirst
  simp only [isNumberChar, Bool.or_eq_false_iff] at noNumber
  exact noNumber.1.1.1.1.1

theorem digits_eq_some
    (reads : digits text = some rest) :
    text.takeWhile Char.isDigit ≠ [] ∧
      text.dropWhile Char.isDigit = rest := by
  rw [digits, List.span_eq_takeWhile_dropWhile] at reads
  split at reads
  · cases reads
  · rename_i isSplit
    cases reads
    obtain ⟨taken, dropped⟩ := Prod.mk.inj isSplit
    rw [taken]
    exact ⟨List.cons_ne_nil _ _, dropped⟩

theorem fraction_of_ne
    (noPoint : ∀ character ∈ text.head?, character ≠ '.') :
    fractionPart text = some text ∧ matchFraction text = ([], text) := by
  constructor
  · rw [fractionPart.eq_def]
    split
    · exact absurd rfl (noPoint _ rfl)
    · rfl
  · rw [matchFraction.eq_def]
    split
    · exact absurd rfl (noPoint _ rfl)
    · rfl

theorem noPoint_of_ends
    {after : Text}
    (ends : EndsNumber after) :
    ∀ character ∈ after.head?, character ≠ '.' := by
  rintro character isFirst rfl
  exact absurd (ends '.' isFirst) (by decide)

theorem matchFraction_append
    {after : Text}
    (reads : fractionPart text = some rest)
    (ends : EndsNumber after) :
    ∃ fraction, text = fraction ++ rest ∧
      matchFraction (text ++ after) = (fraction, rest ++ after) := by
  cases text with
  | nil =>
      cases reads
      exact ⟨[], rfl, (fraction_of_ne (noPoint_of_ends ends)).2⟩
  | cons character text =>
      by_cases isPoint : character = '.'
      · subst isPoint
        obtain ⟨isFilled, dropped⟩ := digits_eq_some reads
        refine ⟨'.' :: text.takeWhile Char.isDigit, ?_, ?_⟩
        · rw [← dropped, List.cons_append, List.takeWhile_append_dropWhile]
        · rw [List.cons_append, matchFraction, span_digits (noDigit_of_ends ends),
            dropped]
          cases taken : text.takeWhile Char.isDigit with
          | nil => exact absurd taken isFilled
          | cons first others => rfl
      · have noPoint : ∀ first ∈ (character :: (text ++ after)).head?,
            first ≠ '.' := by
          rintro first ⟨⟩
          exact isPoint
        have noFraction := (@fraction_of_ne (character :: text)
          (by rintro first ⟨⟩; exact isPoint)).1
        rw [noFraction] at reads
        cases reads
        exact ⟨[], rfl, (fraction_of_ne noPoint).2⟩

theorem exponentPart_cons
    (character : Char)
    (text : Text) :
    exponentPart (character :: text) =
      if character = 'e' ∨ character = 'E' then digits (matchSign text).2
      else some (character :: text) := by
  rw [exponentPart.eq_def, matchSign.eq_def]
  refine congrArg (fun rest => if character = 'e' ∨ character = 'E' then
    digits rest else some (character :: text)) ?_
  split
  · rfl
  · rfl
  · rename_i noPlus noMinus
    split
    · exact absurd rfl (noPlus _)
    · exact absurd rfl (noMinus _)
    · rfl

theorem matchSign_append
    (text : Text) :
    (matchSign text).1 ++ (matchSign text).2 = text := by
  rw [matchSign.eq_def]
  split <;> rfl

theorem matchSign_of_append
    {after : Text}
    (isFilled : (matchSign text).2 ≠ []) :
    matchSign (text ++ after) =
      ((matchSign text).1, (matchSign text).2 ++ after) := by
  rw [matchSign.eq_def text] at isFilled ⊢
  split at isFilled
  · rfl
  · rfl
  · rename_i noPlus noMinus
    rw [matchSign.eq_def]
    split
    · rename_i others alike
      cases text with
      | nil => exact absurd rfl isFilled
      | cons first text =>
          cases alike
          exact absurd rfl (noPlus text)
    · rename_i others alike
      cases text with
      | nil => exact absurd rfl isFilled
      | cons first text =>
          cases alike
          exact absurd rfl (noMinus text)
    · rfl

theorem matchExponent_append
    {after : Text}
    (reads : exponentPart text = some [])
    (ends : EndsNumber after) :
    matchExponent (text ++ after) = text := by
  cases text with
  | nil =>
      rw [List.nil_append]
      cases after with
      | nil => rfl
      | cons first after =>
          rw [matchExponent, if_neg]
          rintro (rfl | rfl)
          · exact absurd (ends 'e' rfl) (by decide)
          · exact absurd (ends 'E' rfl) (by decide)
  | cons character text =>
      rw [exponentPart_cons] at reads
      by_cases isMark : character = 'e' ∨ character = 'E'
      · rw [if_pos isMark] at reads
        obtain ⟨isFilled, dropped⟩ := digits_eq_some reads
        have all := List.takeWhile_append_dropWhile
          (p := Char.isDigit) (l := (matchSign text).2)
        rw [dropped, List.append_nil] at all
        rw [all] at isFilled
        rw [List.cons_append, matchExponent, if_pos isMark,
          matchSign_of_append isFilled, span_digits (noDigit_of_ends ends), all]
        cases rest : (matchSign text).2 with
        | nil => exact absurd rest isFilled
        | cons first others =>
            have whole := matchSign_append text
            rw [rest] at whole
            exact congrArg (character :: ·) whole
      · rw [if_neg isMark] at reads
        cases reads

theorem noDigit_of_reads
    (reads : fractionPart text = some rest)
    (readsRest : exponentPart rest = some []) :
    NoDigit text := by
  cases text with
  | nil =>
      rintro character ⟨⟩
  | cons first text =>
      rintro character ⟨⟩
      by_cases isPoint : first = '.'
      · subst isPoint
        decide
      · have noFraction := (@fraction_of_ne (first :: text)
          (by rintro first ⟨⟩; exact isPoint)).1
        rw [noFraction] at reads
        cases reads
        rw [exponentPart_cons] at readsRest
        by_cases isMark : first = 'e' ∨ first = 'E'
        · rcases isMark with rfl | rfl <;> decide
        · rw [if_neg isMark] at readsRest
          nomatch readsRest

theorem matchMinus_eq
    (text : Text) :
    (matchMinus text).2 = (match text with
      | '-' :: rest => rest
      | text => text) ∧
      (matchMinus text).1 ++ (matchMinus text).2 = text := by
  rw [matchMinus.eq_def]
  split
  · exact ⟨rfl, rfl⟩
  · rename_i noMinus
    exact ⟨by simp [noMinus], rfl⟩

theorem matchMinus_append
    {after : Text}
    (isFilled : (matchMinus text).2 ≠ []) :
    matchMinus (text ++ after) =
      ((matchMinus text).1, (matchMinus text).2 ++ after) := by
  rw [matchMinus.eq_def text] at isFilled ⊢
  split at isFilled
  · rfl
  · rename_i noMinus
    rw [matchMinus.eq_def]
    split
    · rename_i others alike
      cases text with
      | nil => exact absurd rfl isFilled
      | cons first text =>
          cases alike
          exact absurd rfl (noMinus text)
    · rfl

theorem integerPart_eq_some
    (reads : integerPart text = some rest)
    (noDigit : NoDigit rest) :
    text.takeWhile Char.isDigit ≠ [] ∧
      text.dropWhile Char.isDigit = rest := by
  rw [integerPart.eq_def] at reads
  split at reads
  · rename_i others
    cases reads
    have isDigit : '0'.isDigit = true := by decide
    rw [List.takeWhile_cons, List.dropWhile_cons, isDigit]
    refine ⟨List.cons_ne_nil _ _, ?_⟩
    rw [if_pos rfl]
    cases rest with
    | nil => rfl
    | cons first rest =>
        rw [List.dropWhile_cons, noDigit first rfl]
        rfl
  · exact digits_eq_some reads

theorem matchNumber_append
    {token after : Text}
    (number : isNumber token = true)
    (ends : EndsNumber after) :
    matchNumber (token ++ after) = some token := by
  rw [isNumber.eq_def, Bool.and_eq_true, decide_eq_true_eq] at number
  obtain ⟨-, reads⟩ := number
  obtain ⟨rest, readsFraction, readsExponent⟩ :=
    Option.bind_eq_some_iff.mp reads
  obtain ⟨middle, readsWhole, readsFraction⟩ :=
    Option.bind_eq_some_iff.mp readsFraction
  obtain ⟨afterSign, whole⟩ := matchMinus_eq token
  have readsDigits : integerPart (matchMinus token).2 = some middle := by
    rw [afterSign]
    exact readsWhole
  obtain ⟨isFilled, dropped⟩ := integerPart_eq_some readsDigits
    (noDigit_of_reads readsFraction readsExponent)
  obtain ⟨fraction, isFraction, matched⟩ :=
    matchFraction_append readsFraction ends
  have hasDigits : (matchMinus token).2 ≠ [] := by
    intro isEmpty
    rw [isEmpty] at isFilled
    exact isFilled rfl
  have all := List.takeWhile_append_dropWhile
    (p := Char.isDigit) (l := (matchMinus token).2)
  rw [dropped] at all
  rw [matchNumber, matchMinus_append hasDigits,
    span_digits (noDigit_of_ends ends), dropped]
  cases taken : (matchMinus token).2.takeWhile Char.isDigit with
  | nil => exact absurd taken isFilled
  | cons first others =>
      dsimp only
      rw [matched, matchExponent_append readsExponent ends, ← taken,
        List.append_assoc, List.append_assoc, ← isFraction, all, whole]

/-! ## The tokens of what is read -/

/-- A token that stands for a whole value. -/
def IsScalar (token : Text) : Prop :=
  ∀ mark ∈ punctuation, token ≠ [mark]

theorem isScalar_cons
    {first : Char}
    (noMark : first ∉ punctuation)
    (token : Text) :
    IsScalar (first :: token) := by
  rintro mark isMark alike
  cases alike
  exact noMark isMark

theorem tokensOf_string
    {after : Text}
    {points : List ℕ}
    (reads : parseString text = some (points, after)) :
    ∃ token, tokensOf (quote :: text) = token :: tokensOf after ∧
      keyOf token = some (units points) ∧ IsScalar token := by
  obtain ⟨body, rfl, matched, alone⟩ := (isString_of_parseString reads).split
  refine ⟨quote :: body, tokensOf_match ?_, ?_, isScalar_cons (by decide) _⟩
  · rw [matchAt, if_pos rfl, matched]
    rfl
  · rw [keyOf, if_pos rfl, alone]

theorem tokensOf_number
    {after : Text}
    {value : Json}
    (reads : parseNumber text = some (value, after)) :
    ∃ token, tokensOf text = token :: tokensOf after ∧ IsScalar token := by
  rw [parseNumber] at reads
  split at reads
  · rename_i number
    cases reads
    have whole := List.takeWhile_append_dropWhile
      (p := isNumberChar) (l := text)
    have ends : EndsNumber (text.dropWhile isNumberChar) := by
      intro character isFirst
      have notNumeric := List.head?_dropWhile_not isNumberChar text
      rw [Option.mem_def.mp isFirst] at notNumeric
      exact notNumeric
    obtain ⟨first, others, token, isNumeric⟩ := isNumber_head number
    have notMark : first ∉ punctuation := by
      intro isMark
      have noneNumeric :
          (punctuation.all fun mark => !isNumberChar mark) = true := by
        decide
      have notNumeric := List.all_eq_true.mp noneNumeric first isMark
      rw [isNumeric] at notNumeric
      cases notNumeric
    generalize text.dropWhile isNumberChar = after at whole ends
    generalize text.takeWhile isNumberChar = taken at whole number token
    subst token
    subst whole
    refine ⟨first :: others, tokensOf_match ?_, isScalar_cons notMark _⟩
    have matched := matchNumber_append number ends
    rw [List.cons_append] at matched
    rw [matchAt, if_neg (isNumberChar_ne isNumeric).1, if_neg notMark, matched]
    rfl
  · cases reads

theorem tokensOf_word
    {word after : Text}
    {held value : Json}
    (isWord : word ∈ words)
    (reads : parseWord word held text = some (value, after)) :
    ∃ token, tokensOf text = token :: tokensOf after ∧ IsScalar token := by
  rw [parseWord] at reads
  split at reads
  · rename_i isStart
    cases reads
    obtain ⟨rest, rfl⟩ := List.isPrefixOf_iff_prefix.mp isStart
    rw [List.drop_left]
    simp only [words, List.mem_cons, List.not_mem_nil, or_false] at isWord
    rcases isWord with rfl | rfl | rfl
    · exact ⟨['t', 'r', 'u', 'e'], tokensOf_match rfl,
        isScalar_cons (by decide) _⟩
    · exact ⟨['f', 'a', 'l', 's', 'e'], tokensOf_match rfl,
        isScalar_cons (by decide) _⟩
    · exact ⟨['n', 'u', 'l', 'l'], tokensOf_match rfl,
        isScalar_cons (by decide) _⟩
  · cases reads

end Frameleaf.StudioVector
