import Frameleaf.LockedCrypto.RecoveryLaws

namespace Frameleaf.LockedCrypto

/-!
# Every way to write a recovery key is read

A text may hold blanks and dashes anywhere, its letters may be small, and the
prefix may be missing.  What is left are the characters of the key.
-/

/-- The characters of a text, without blanks and dashes, in any letter case. -/
inductive Decorates : List Char → List Char → Prop where
  | done :
      Decorates [] []
  | ignored
      {character : Char}
      {text core : List Char}
      (isIgnored : isBlank character = true ∨ character = '-')
      (rest : Decorates text core) :
      Decorates (character :: text) core
  | letter
      {character key : Char}
      {text core : List Char}
      (sameLetter : character = key ∨ character = key.toLower)
      (rest : Decorates text core) :
      Decorates (character :: text) (key :: core)

/-! ## The alphabet -/

variable {key : Char}

theorem of_mem_alphabet
    (property : Char → Bool)
    (holds : ALPHABET.all property = true)
    (member : key ∈ ALPHABET) :
    property key = true :=
  List.all_eq_true.mp holds key member

theorem kept_of_mem_alphabet
    (member : key ∈ ALPHABET) :
    (!(isBlank key || key = '-')) = true :=
  of_mem_alphabet (fun key => !(isBlank key || key = '-')) (by decide) member

theorem capital_of_mem_alphabet
    (member : key ∈ ALPHABET) :
    key.toNat < 128 ∧ key.toLower.toNat < 128 ∧ key.toUpper = key ∧
      key.toLower.toUpper = key := by
  have all := of_mem_alphabet
    (fun key => decide (key.toNat < 128 ∧ key.toLower.toNat < 128 ∧
      key.toUpper = key ∧ key.toLower.toUpper = key))
    (by decide) member
  exact of_decide_eq_true all

theorem letter_mem
    (digit : Fin 32) :
    letter digit ∈ ALPHABET :=
  List.get_mem ALPHABET _

/-- A letter stands at its digit. -/
@[simp] theorem indexOf_letter
    (digit : Fin 32) :
    indexOf (letter digit) = some digit := by
  revert digit
  decide

theorem letter_of_indexOf
    {character : Char}
    {digit : Fin 32}
    (found : indexOf character = some digit) :
    letter digit = character := by
  unfold indexOf at found
  obtain ⟨index, isIndex, rfl⟩ := Option.map_eq_some_iff.mp found
  exact (List.finIdxOf?_eq_some_iff.mp isIndex).1

/-! ## What is left of a text -/

variable (capitals : CapitalLetters)

variable {text : List Char}

theorem compactText_of_decorates
    {core : List Char}
    (decorates : Decorates text core)
    (inAlphabet : ∀ key ∈ core, key ∈ ALPHABET) :
    compactText capitals text = core := by
  induction decorates with
  | done =>
      rfl
  | @ignored character text core isIgnored rest inductionHypothesis =>
      have stays : capitals.upper character = [character] := by
        obtain blank | rfl := isIgnored
        · exact capitals.blank character blank
        · exact capitals.ascii '-' (by decide)
      have dropped : (!(isBlank character || character = '-')) = false := by
        obtain blank | rfl := isIgnored
        · rw [blank, Bool.true_or, Bool.not_true]
        · rfl
      have later := inductionHypothesis inAlphabet
      unfold compactText at later ⊢
      rw [List.flatMap_cons, stays, List.singleton_append, List.filter_cons,
        if_neg (Bool.not_eq_true _ ▸ dropped), later]
  | @letter character key text core sameLetter rest inductionHypothesis =>
      have isKey := inAlphabet key List.mem_cons_self
      obtain ⟨ascii, smallAscii, capital, smallCapital⟩ :=
        capital_of_mem_alphabet isKey
      have becomes : capitals.upper character = [key] := by
        obtain rfl | rfl := sameLetter
        · rw [capitals.ascii _ ascii, capital]
        · rw [capitals.ascii _ smallAscii, smallCapital]
      have later := inductionHypothesis fun key member =>
        inAlphabet key (List.mem_cons_of_mem _ member)
      unfold compactText at later ⊢
      rw [List.flatMap_cons, becomes, List.singleton_append, List.filter_cons,
        if_pos (kept_of_mem_alphabet isKey), later]

theorem textLength_of_alphabet
    (inAlphabet : ∀ key ∈ text, key ∈ ALPHABET) :
    textLength text = text.length := by
  induction text with
  | nil =>
      rfl
  | cons key text inductionHypothesis =>
      have ascii := (capital_of_mem_alphabet
        (inAlphabet key List.mem_cons_self)).1
      have isSmall : key.toNat < 0x10000 := by omega
      have later := inductionHypothesis fun key member =>
        inAlphabet key (List.mem_cons_of_mem _ member)
      unfold textLength at later ⊢
      rw [List.map_cons, List.sum_cons, if_pos isSmall, later,
        List.length_cons, Nat.add_comm]

theorem prefix_mem
    (member : key ∈ PREFIX) :
    key ∈ ALPHABET := by
  have all : PREFIX.all (ALPHABET.contains ·) = true := by decide
  have isLetter := List.all_eq_true.mp all key member
  exact List.contains_iff_mem.mp isLetter

variable {digits : List (Fin 32)}

theorem map_letter_mem
    (member : key ∈ digits.map letter) :
    key ∈ ALPHABET := by
  obtain ⟨digit, -, rfl⟩ := List.mem_map.mp member
  exact letter_mem digit

theorem keyCharacters_of_decorates
    (length : digits.length = ENCODED_LENGTH)
    (decorates : Decorates text (digits.map letter) ∨
      Decorates text (PREFIX ++ digits.map letter)) :
    keyCharacters capitals text = digits.map letter := by
  unfold keyCharacters
  obtain plain | prefixed := decorates
  · rw [compactText_of_decorates capitals plain fun _ => map_letter_mem]
    have short : textLength (digits.map letter) = ENCODED_LENGTH := by
      rw [textLength_of_alphabet fun _ => map_letter_mem, List.length_map,
        length]
    have noPrefix : decide (textLength (digits.map letter) =
        PREFIX.length + ENCODED_LENGTH) = false := by
      rw [short]
      decide
    dsimp only
    rw [noPrefix, Bool.false_and]
    exact if_neg Bool.false_ne_true
  · have inAlphabet : ∀ key ∈ PREFIX ++ digits.map letter, key ∈ ALPHABET := by
      intro key member
      obtain first | later := List.mem_append.mp member
      · exact prefix_mem first
      · exact map_letter_mem later
    rw [compactText_of_decorates capitals prefixed inAlphabet]
    have long : textLength (PREFIX ++ digits.map letter) =
        PREFIX.length + ENCODED_LENGTH := by
      rw [textLength_of_alphabet inAlphabet, List.length_append,
        List.length_map, length]
    have isPrefix : PREFIX.isPrefixOf (PREFIX ++ digits.map letter) = true :=
      List.isPrefixOf_iff_prefix.mpr (List.prefix_append _ _)
    dsimp only
    rw [decide_eq_true long, isPrefix, Bool.true_and, if_pos rfl,
      List.drop_left]

/-! ## The text of a new key -/

theorem Decorates.self
    (core : List Char) :
    Decorates core core := by
  induction core with
  | nil =>
      exact .done
  | cons key core inductionHypothesis =>
      exact .letter (.inl rfl) inductionHypothesis

theorem Decorates.append
    {first second firstCore secondCore : List Char}
    (decorates : Decorates first firstCore)
    (later : Decorates second secondCore) :
    Decorates (first ++ second) (firstCore ++ secondCore) := by
  induction decorates with
  | done =>
      exact later
  | ignored isIgnored rest inductionHypothesis =>
      exact .ignored isIgnored inductionHypothesis
  | letter sameLetter rest inductionHypothesis =>
      exact .letter sameLetter inductionHypothesis

theorem decorates_intercalate
    (parts : List (List Char)) :
    Decorates (['-'].intercalate parts) parts.flatten := by
  induction parts with
  | nil =>
      exact .done
  | cons part parts inductionHypothesis =>
      cases parts with
      | nil =>
          rw [List.intercalate_singleton, List.flatten_singleton]
          exact Decorates.self part
      | cons next parts =>
          rw [List.intercalate_cons_cons, List.flatten_cons, List.append_assoc]
          exact (Decorates.self part).append (.ignored (.inr rfl)
            inductionHypothesis)

theorem flatten_groups
    {count : ℕ}
    (filled : text.length = 4 * count) :
    (groups text).flatten = text := by
  induction count generalizing text with
  | zero =>
      rw [List.length_eq_zero_iff.mp filled]
      rfl
  | succ count inductionHypothesis =>
      match text, filled with
      | first :: second :: third :: fourth :: rest, filled =>
          have restFilled : rest.length = 4 * count := by
            simp only [List.length_cons] at filled
            omega
          rw [groups, List.flatten_cons, inductionHypothesis restFilled]
          rfl

variable {bytes : List UInt8}

theorem decorates_recoveryKey
    (length : bytes.length = RAW_LENGTH) :
    Decorates (recoveryKey bytes) (PREFIX ++ encode bytes) := by
  have filled : (encode bytes).length = 4 * 8 := by
    rw [encode, List.length_map, length_encodeDigits length]
    rfl
  have decorates := decorates_intercalate (PREFIX :: groups (encode bytes))
  rw [List.flatten_cons, flatten_groups filled] at decorates
  exact decorates

/-! ## Reading and writing agree -/

theorem mapM_indexOf_letter
    (digits : List (Fin 32)) :
    (digits.map letter).mapM indexOf = some digits := by
  induction digits with
  | nil =>
      rfl
  | cons digit digits inductionHypothesis =>
      rw [List.map_cons, List.mapM_cons, indexOf_letter, inductionHypothesis]
      rfl

theorem eq_map_letter
    (found : text.mapM indexOf = some digits) :
    text = digits.map letter := by
  induction text generalizing digits with
  | nil =>
      obtain rfl : [] = digits := Option.some_inj.mp found
      rfl
  | cons character text inductionHypothesis =>
      rw [List.mapM_cons] at found
      obtain ⟨digit, isDigit, found⟩ := Option.bind_eq_some_iff.mp found
      obtain ⟨later, isLater, found⟩ := Option.bind_eq_some_iff.mp found
      obtain rfl : digit :: later = digits := Option.some_inj.mp found
      rw [List.map_cons, letter_of_indexOf isDigit,
        inductionHypothesis isLater]

theorem parseRecoveryKey_eq_ok :
    parseRecoveryKey capitals text = .ok bytes ↔
      ∃ digits : List (Fin 32),
        digits.length = ENCODED_LENGTH ∧
        keyCharacters capitals text = digits.map letter ∧
        bytes = decodeDigits digits := by
  have inUnits (digits : List (Fin 32)) :
      textLength (digits.map letter) = digits.length := by
    rw [textLength_of_alphabet fun _ => map_letter_mem, List.length_map]
  unfold parseRecoveryKey
  dsimp only
  constructor
  · intro parsed
    split at parsed
    · cases parsed
    case isFalse isLength =>
      cases found : (keyCharacters capitals text).mapM indexOf with
      | none =>
          rw [found] at parsed
          cases parsed
      | some digits =>
          rw [found] at parsed
          have characters := eq_map_letter found
          refine ⟨digits, ?_, characters, (Except.ok.inj parsed).symm⟩
          rw [characters, inUnits] at isLength
          exact not_not.mp isLength
  · rintro ⟨digits, length, characters, rfl⟩
    rw [characters, inUnits, length, mapM_indexOf_letter]
    exact if_neg (not_not.mpr rfl)

/-- What holds of the texts and the bytes of recovery keys. -/
structure RecoveryKeyLaws : Prop where
  /-- Every text that shows the characters of 20 bytes is read as these bytes:
  with or without the prefix, in any letter case, with blanks and dashes
  anywhere. -/
  reads : ∀ (bytes : List UInt8) (text : List Char),
    bytes.length = RAW_LENGTH →
    (Decorates text (encode bytes) ∨ Decorates text (PREFIX ++ encode bytes)) →
    parseRecoveryKey capitals text = .ok bytes
  /-- So the text of a new key is read as its bytes. -/
  generated : ∀ bytes : List UInt8,
    bytes.length = RAW_LENGTH →
    parseRecoveryKey capitals (recoveryKey bytes) = .ok bytes
  /-- The bytes that are read from a text are written with the characters of
  the text. -/
  writes : ∀ (text : List Char) (bytes : List UInt8),
    parseRecoveryKey capitals text = .ok bytes →
    bytes.length = RAW_LENGTH ∧ encode bytes = keyCharacters capitals text
  /-- Texts with different characters never yield the same bytes. -/
  injective : ∀ (first second : List Char) (bytes : List UInt8),
    parseRecoveryKey capitals first = .ok bytes →
    parseRecoveryKey capitals second = .ok bytes →
    keyCharacters capitals first = keyCharacters capitals second

theorem parseRecoveryKey_of_decorates
    (length : bytes.length = RAW_LENGTH)
    (decorates : Decorates text (encode bytes) ∨
      Decorates text (PREFIX ++ encode bytes)) :
    parseRecoveryKey capitals text = .ok bytes := by
  have written := length_encodeDigits length
  refine (parseRecoveryKey_eq_ok capitals).mpr
    ⟨encodeDigits bytes, written, ?_, ?_⟩
  · exact keyCharacters_of_decorates capitals written decorates
  · rw [decodeDigits_encodeDigits length]

theorem encode_of_parseRecoveryKey
    (parsed : parseRecoveryKey capitals text = .ok bytes) :
    bytes.length = RAW_LENGTH ∧ encode bytes = keyCharacters capitals text := by
  obtain ⟨digits, length, characters, rfl⟩ :=
    (parseRecoveryKey_eq_ok capitals).mp parsed
  constructor
  · exact length_decodeDigits length
  · rw [encode, encodeDigits_decodeDigits length, characters]

/-- A recovery key and its bytes determine each other. -/
theorem recoveryKeyLaws :
    RecoveryKeyLaws capitals where
  reads _ _ length decorates :=
    parseRecoveryKey_of_decorates capitals length decorates
  generated _ length :=
    parseRecoveryKey_of_decorates capitals length
      (.inr (decorates_recoveryKey length))
  writes _ _ parsed :=
    encode_of_parseRecoveryKey capitals parsed
  injective first second bytes readFirst readSecond := by
    rw [← (encode_of_parseRecoveryKey capitals readFirst).2,
      (encode_of_parseRecoveryKey capitals readSecond).2]

end Frameleaf.LockedCrypto
