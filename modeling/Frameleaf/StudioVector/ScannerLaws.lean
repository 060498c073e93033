import Frameleaf.StudioVector.TokenLaws

namespace Frameleaf.StudioVector

open Json JsonDocument Utf8

/-!
# The scanner refuses the texts that readers differ in

In a text that is valid JSON the scanner meets every value at its depth and
every name of an object with the names before it.  In any other text it may
meet anything, and still ends.
-/

/-- How the tokens of a value that is read begin. -/
inductive ReadsValue
    (fuel : ℕ)
    (text rest : Text) : Document → Prop where
  | leaf
      {document : Document}
      {token : Text}
      (tokens : tokensOf text = token :: tokensOf rest)
      (isScalar : IsScalar token)
      (isFlat : nesting document = 0)
      (isPlain : isUnambiguous document = true) :
      ReadsValue fuel text rest document
  | emptyArray
      (tokens : tokensOf text = ['['] :: [']'] :: tokensOf rest) :
      ReadsValue fuel text rest (.array [])
  | array
      {inner : Text}
      {items : List Document}
      (tokens : tokensOf text = ['['] :: tokensOf inner)
      (reads : readItems fuel inner = some (items, rest)) :
      ReadsValue fuel text rest (.array items)
  | emptyObject
      (tokens : tokensOf text = ['{'] :: ['}'] :: tokensOf rest) :
      ReadsValue fuel text rest (.object [])
  | object
      {inner : Text}
      {entries : Entries}
      (tokens : tokensOf text = ['{'] :: tokensOf inner)
      (reads : readEntries fuel inner = some (entries, rest)) :
      ReadsValue fuel text rest (.object entries)

variable {fuel steps depth : ℕ} {text rest token : Text} {document : Document}

theorem readsValue_leaf
    {read : Option (Json × Text)}
    (isLeaf : read.map leafOf = some (document, rest))
    (tokens : ∀ value after, read = some (value, after) →
      ∃ token, tokensOf text = token :: tokensOf after ∧ IsScalar token) :
    ReadsValue fuel text rest document := by
  obtain ⟨⟨value, after⟩, isRead, isDocument⟩ := Option.map_eq_some_iff.mp isLeaf
  cases isDocument
  obtain ⟨token, isToken, isScalar⟩ := tokens value after isRead
  exact .leaf isToken isScalar (by rw [nesting]) (by rw [isUnambiguous])

/-- A value that is read begins with its tokens. -/
theorem readsValue
    (reads : readValue (fuel + 1) text = some (document, rest)) :
    ReadsValue fuel text rest document := by
  rw [readValue] at reads
  split at reads
  · nomatch reads
  · rename_i character others skips
    have sameTokens := tokensOf_skipSpace text
    rw [skips] at sameTokens
    by_cases isQuote : character = quote
    · rw [if_pos isQuote] at reads
      subst isQuote
      obtain ⟨⟨points, after⟩, isString, isRead⟩ :=
        Option.bind_eq_some_iff.mp reads
      cases isRead
      obtain ⟨token, isToken, -, isScalar⟩ := tokensOf_string isString
      exact .leaf (sameTokens.symm.trans isToken) isScalar
        (by rw [nesting]) (by rw [isUnambiguous])
    rw [if_neg isQuote] at reads
    by_cases isArray : character = '['
    · rw [if_pos isArray] at reads
      subst isArray
      rw [tokensOf_punctuation (by decide)] at sameTokens
      have inner := tokensOf_skipSpace others
      split at reads
      · rename_i after closes
        cases reads
        rw [closes, tokensOf_punctuation (by decide)] at inner
        exact .emptyArray (by rw [← sameTokens, ← inner])
      · obtain ⟨⟨items, after⟩, isItems, isRead⟩ :=
          Option.bind_eq_some_iff.mp reads
        cases isRead
        exact .array (by rw [← sameTokens, ← inner]) isItems
    rw [if_neg isArray] at reads
    by_cases isObject : character = '{'
    · rw [if_pos isObject] at reads
      subst isObject
      rw [tokensOf_punctuation (by decide)] at sameTokens
      have inner := tokensOf_skipSpace others
      split at reads
      · rename_i after closes
        cases reads
        rw [closes, tokensOf_punctuation (by decide)] at inner
        exact .emptyObject (by rw [← sameTokens, ← inner])
      · obtain ⟨⟨entries, after⟩, isEntries, isRead⟩ :=
          Option.bind_eq_some_iff.mp reads
        cases isRead
        exact .object (by rw [← sameTokens, ← inner]) isEntries
    rw [if_neg isObject] at reads
    split at reads
    · exact readsValue_leaf reads fun value after isWord =>
        sameTokens ▸ tokensOf_word (by decide) isWord
    split at reads
    · exact readsValue_leaf reads fun value after isWord =>
        sameTokens ▸ tokensOf_word (by decide) isWord
    split at reads
    · exact readsValue_leaf reads fun value after isWord =>
        sameTokens ▸ tokensOf_word (by decide) isWord
    · exact readsValue_leaf reads fun value after isNumber =>
        sameTokens ▸ tokensOf_number isNumber

theorem readsItems
    {items : List Document}
    (reads : readItems (fuel + 1) text = some (items, rest)) :
    ∃ item after, readValue fuel text = some (item, after) ∧
      (tokensOf after = [']'] :: tokensOf rest ∧ items = [item] ∨
        ∃ next more, tokensOf after = [','] :: tokensOf next ∧
          readItems fuel next = some (more, rest) ∧ items = item :: more) := by
  rw [readItems] at reads
  obtain ⟨⟨item, after⟩, isItem, others⟩ := Option.bind_eq_some_iff.mp reads
  refine ⟨item, after, isItem, ?_⟩
  have tokens := tokensOf_skipSpace after
  dsimp only at others
  split at others
  · rename_i next continues
    obtain ⟨⟨more, last⟩, isMore, isRead⟩ := Option.bind_eq_some_iff.mp others
    cases isRead
    rw [continues, tokensOf_punctuation (by decide)] at tokens
    exact .inr ⟨next, more, tokens.symm, isMore, rfl⟩
  · rename_i last closes
    cases others
    rw [closes, tokensOf_punctuation (by decide)] at tokens
    exact .inl ⟨tokens.symm, rfl⟩
  · nomatch others

/-- Entries that are read begin with a name and a value. -/
theorem readsEntries
    {entries : Entries}
    (reads : readEntries (fuel + 1) text = some (entries, rest)) :
    ∃ token name inner value after,
      tokensOf text = token :: [':'] :: tokensOf inner ∧ IsScalar token ∧
        keyOf token = some name ∧ readValue fuel inner = some (value, after) ∧
          (tokensOf after = ['}'] :: tokensOf rest ∧
              entries = [(name, value)] ∨
            ∃ next more, tokensOf after = [','] :: tokensOf next ∧
              readEntries fuel next = some (more, rest) ∧
                entries = (name, value) :: more) := by
  rw [readEntries] at reads
  have textTokens := tokensOf_skipSpace text
  split at reads
  · rename_i character others skips
    split at reads
    · rename_i isQuote
      subst isQuote
      obtain ⟨⟨points, colon⟩, isString, named⟩ :=
        Option.bind_eq_some_iff.mp reads
      obtain ⟨token, isToken, isKey, isScalar⟩ := tokensOf_string isString
      rw [skips, isToken] at textTokens
      have colonTokens := tokensOf_skipSpace colon
      dsimp only at named
      split at named
      · rename_i inner isColon
        obtain ⟨⟨value, after⟩, isValue, others⟩ :=
          Option.bind_eq_some_iff.mp named
        rw [isColon, tokensOf_punctuation (by decide)] at colonTokens
        rw [← colonTokens] at textTokens
        refine ⟨token, units points, inner, value, after, textTokens.symm,
          isScalar, isKey, isValue, ?_⟩
        have tokens := tokensOf_skipSpace after
        dsimp only at others
        split at others
        · rename_i next continues
          obtain ⟨⟨more, last⟩, isMore, isRead⟩ :=
            Option.bind_eq_some_iff.mp others
          cases isRead
          rw [continues, tokensOf_punctuation (by decide)] at tokens
          exact .inr ⟨next, more, tokens.symm, isMore, rfl⟩
        · rename_i last closes
          cases others
          rw [closes, tokensOf_punctuation (by decide)] at tokens
          exact .inl ⟨tokens.symm, rfl⟩
        · nomatch others
      · nomatch named
    · nomatch reads
  · nomatch reads

/-! ## The end of a scan -/

/-- A scan ends, and leaves less than it was given. -/
def Ends
    (tokens : List Text)
    (scan : Scan) : Prop :=
  ∃ left, scan = some left ∧
    ∀ rest, left = some rest → rest.length < tokens.length

theorem Ends.refuses
    (tokens : List Text) :
    Ends tokens (some none) :=
  ⟨none, rfl, fun _ refused => nomatch refused⟩

variable {tokens last : List Text}

theorem Ends.leaves
    {rest : List Text}
    (less : rest.length < tokens.length) :
    Ends tokens (some (some rest)) :=
  ⟨some rest, rfl, fun _ left => by cases left; exact less⟩

variable {next : List Text → Scan}

theorem Ends.andThen
    {inner : List Text}
    {scan : Scan}
    (ends : Ends inner scan)
    (goesOn : ∀ rest, rest.length < inner.length → Ends tokens (next rest)) :
    Ends tokens (scan.andThen next) := by
  obtain ⟨left, rfl, less⟩ := ends
  cases left with
  | none => exact .refuses tokens
  | some rest => exact goesOn rest (less rest rfl)

theorem Ends.mono
    {fewer : List Text}
    {scan : Scan}
    (ends : Ends fewer scan)
    (less : fewer.length ≤ tokens.length) :
    Ends tokens scan := by
  obtain ⟨left, isLeft, shorter⟩ := ends
  exact ⟨left, isLeft, fun rest isRest =>
    Nat.lt_of_lt_of_le (shorter rest isRest) less⟩

/-- Scans of some fuel end. -/
structure AllEnd (fuel : ℕ) : Prop where
  value : ∀ depth tokens, 2 * tokens.length < fuel →
    Ends tokens (scanValue fuel depth tokens)
  items : ∀ depth tokens, 2 * tokens.length + 1 < fuel →
    Ends tokens (scanItems fuel depth tokens)
  entries : ∀ depth keys tokens, 2 * tokens.length + 1 < fuel →
    Ends tokens (scanEntries fuel depth keys tokens)

/-- Scans of one more step end. -/
theorem AllEnd.succ
    (allEnd : AllEnd fuel) :
    AllEnd (fuel + 1) where
  value depth tokens enough := by
    rw [scanValue.eq_def]
    dsimp only
    split
    · exact .refuses _
    cases tokens with
    | nil => exact .refuses _
    | cons token rest =>
        rw [List.length_cons] at enough
        dsimp only
        have shorter : rest.length ≤ (token :: rest).length :=
          Nat.le_succ _
        split
        · split
          · exact .leaves (by rw [List.length_cons, List.length_cons]; omega)
          · exact (allEnd.entries depth [] rest (by omega)).mono shorter
        split
        · split
          · exact .leaves (by rw [List.length_cons, List.length_cons]; omega)
          · exact (allEnd.items depth rest (by omega)).mono shorter
        split
        · exact .refuses _
        · exact .leaves (Nat.lt_succ_self _)
  items depth tokens enough := by
    rw [scanItems]
    refine (allEnd.value (depth + 1) tokens (by omega)).andThen
      fun rest less => ?_
    split
    · rw [List.length_cons] at less
      exact .leaves (by omega)
    · rename_i more
      rw [List.length_cons] at less
      exact (allEnd.items depth more (by omega)).mono (by omega)
    · exact .refuses _
  entries depth keys tokens enough := by
    rw [scanEntries.eq_def]
    dsimp only
    split
    · rename_i token inner
      rw [List.length_cons, List.length_cons] at enough
      split
      · exact .refuses _
      split
      · exact .refuses _
      refine (allEnd.value (depth + 1) inner (by omega)).andThen
        fun rest less => ?_
      split
      · rw [List.length_cons] at less
        exact .leaves (by rw [List.length_cons, List.length_cons]; omega)
      · rename_i more
        rw [List.length_cons] at less
        refine (allEnd.entries depth _ more (by omega)).mono ?_
        rw [List.length_cons, List.length_cons]
        omega
      · exact .refuses _
    · exact .refuses _

theorem allEnd (fuel : ℕ) : AllEnd fuel := by
  induction fuel with
  | zero =>
      exact {
        value := fun _ _ enough => absurd enough (Nat.not_lt_zero _)
        items := fun _ _ enough => absurd enough (Nat.not_lt_zero _)
        entries := fun _ _ _ enough => absurd enough (Nat.not_lt_zero _) }
  | succ fuel inductionHypothesis =>
      exact inductionHypothesis.succ

/-! ## What a scan finds in a text that is read -/

/-- What a scan says: what is left, if the tokens pass. -/
def answer
    (passes : Bool)
    (rest : List Text) : Scan :=
  some (if passes then some rest else none)

theorem andThen_answer
    {passes others : Bool}
    {rest : List Text}
    (goesOn : passes = true → next rest = answer others last) :
    (answer passes rest).andThen next = answer (passes && others) last := by
  cases passes with
  | false => rfl
  | true => exact goesOn rfl

theorem andThen_answer_last
    {passes : Bool}
    {rest : List Text}
    (ends : passes = true → next rest = some (some last)) :
    (answer passes rest).andThen next = answer passes last := by
  cases passes with
  | false => rfl
  | true => exact ends rfl

/-- A value at a depth is neither too deep nor ambiguous. -/
def fits
    (depth : ℕ)
    (document : Document) : Bool :=
  decide (depth + nesting document ≤ MAX_DEPTH) && isUnambiguous document

/-- The items of an array at a depth are neither too deep nor ambiguous. -/
def itemsFit
    (depth : ℕ)
    (items : List Document) : Bool :=
  decide (depth + nestingItems items ≤ MAX_DEPTH) && areUnambiguous items

/-- The entries of an object at a depth are neither too deep nor ambiguous, and
have other names than those before them. -/
def entriesFit
    (depth : ℕ)
    (keys : List (List ℕ))
    (entries : Entries) : Bool :=
  decide (depth + nestingEntries entries ≤ MAX_DEPTH) &&
    decide ((entries.map Prod.fst).Nodup ∧
      ∀ name ∈ entries.map Prod.fst, name ∉ keys) &&
    entriesUnambiguous entries

theorem itemsFit_singleton
    (depth : ℕ)
    (item : Document) :
    itemsFit depth [item] = fits (depth + 1) item := by
  rw [itemsFit, fits, nestingItems, nestingItems, areUnambiguous,
    areUnambiguous, Bool.and_true]
  congr 2
  rw [eq_iff_iff, Nat.max_zero]
  omega

theorem itemsFit_cons
    (depth : ℕ)
    (item : Document)
    (items : List Document) :
    itemsFit depth (item :: items) =
      (fits (depth + 1) item && itemsFit depth items) := by
  rw [Bool.eq_iff_iff, itemsFit, itemsFit, fits, nestingItems, areUnambiguous]
  simp only [Bool.and_eq_true, decide_eq_true_eq]
  constructor
  · rintro ⟨deep, plain, plains⟩
    exact ⟨⟨by omega, plain⟩, by omega, plains⟩
  · rintro ⟨⟨deep, plain⟩, deeper, plains⟩
    exact ⟨by omega, plain, plains⟩

theorem entriesFit_singleton
    (depth : ℕ)
    (keys : List (List ℕ))
    (name : List ℕ)
    (value : Document) :
    entriesFit depth keys [(name, value)] =
      (decide (name ∉ keys) && fits (depth + 1) value) := by
  rw [Bool.eq_iff_iff, entriesFit, fits, nestingEntries, nestingEntries,
    entriesUnambiguous, entriesUnambiguous]
  simp only [Bool.and_eq_true, decide_eq_true_eq, List.map_cons, List.map_nil,
    List.nodup_singleton, true_and, List.forall_mem_singleton, and_true]
  constructor
  · rintro ⟨⟨deep, isNew⟩, plain⟩
    exact ⟨isNew, by omega, plain⟩
  · rintro ⟨isNew, deep, plain⟩
    exact ⟨⟨by omega, isNew⟩, plain⟩

theorem entriesFit_cons
    (depth : ℕ)
    (keys : List (List ℕ))
    (name : List ℕ)
    (value : Document)
    (entries : Entries) :
    entriesFit depth keys ((name, value) :: entries) =
      (decide (name ∉ keys) &&
        (fits (depth + 1) value &&
          entriesFit depth (name :: keys) entries)) := by
  rw [Bool.eq_iff_iff, entriesFit, entriesFit, fits, nestingEntries,
    entriesUnambiguous]
  simp only [Bool.and_eq_true, decide_eq_true_eq, List.map_cons,
    List.nodup_cons, List.forall_mem_cons]
  simp only [List.mem_cons, not_or]
  constructor
  · rintro ⟨⟨deep, ⟨isNew, nodup⟩, notKey, notKeys⟩, plain, plains⟩
    exact ⟨notKey, ⟨by omega, plain⟩, ⟨by omega, nodup, fun other isOther =>
      ⟨fun same => isNew (same ▸ isOther), notKeys other isOther⟩⟩, plains⟩
  · rintro ⟨notKey, ⟨deep, plain⟩, ⟨deeper, nodup, notKeys⟩, plains⟩
    exact ⟨⟨by omega, ⟨fun isOld => (notKeys name isOld).1 rfl, nodup⟩, notKey,
      fun other isOther => (notKeys other isOther).2⟩, plain, plains⟩

theorem scanValue_of_deep
    (isDeep : MAX_DEPTH < depth)
    (tokens : List Text) :
    scanValue (steps + 1) depth tokens = some none := by
  rw [scanValue.eq_def]
  exact if_pos isDeep

theorem scanValue_scalar
    (notDeep : ¬ MAX_DEPTH < depth)
    (isScalar : IsScalar token)
    (rest : List Text) :
    scanValue (steps + 1) depth (token :: rest) = some (some rest) := by
  have noMark : token ∉ [['}'], [']'], [':'], [',']] := by
    intro isMark
    simp only [List.mem_cons, List.not_mem_nil, or_false] at isMark
    rcases isMark with rfl | rfl | rfl | rfl
    all_goals exact isScalar _ (by decide) rfl
  rw [scanValue.eq_def]
  dsimp only
  rw [if_neg notDeep, if_neg (isScalar '{' (by decide)),
    if_neg (isScalar '[' (by decide)), if_neg noMark]

theorem scanValue_array
    (notDeep : ¬ MAX_DEPTH < depth)
    (notEnd : token ≠ [']'])
    (rest : List Text) :
    scanValue (steps + 1) depth (['['] :: token :: rest) =
      scanItems steps depth (token :: rest) := by
  rw [scanValue.eq_def]
  dsimp only
  rw [if_neg notDeep, if_neg (by decide), if_pos rfl]
  split
  · rename_i alike
    cases alike
    exact absurd rfl notEnd
  · rfl

theorem scanValue_object
    (notDeep : ¬ MAX_DEPTH < depth)
    (notEnd : token ≠ ['}'])
    (rest : List Text) :
    scanValue (steps + 1) depth (['{'] :: token :: rest) =
      scanEntries steps depth [] (token :: rest) := by
  rw [scanValue.eq_def]
  dsimp only
  rw [if_neg notDeep, if_pos rfl]
  split
  · rename_i alike
    cases alike
    exact absurd rfl notEnd
  · rfl

/-- What is read is scanned for depth and repeated names. -/
structure Scans (fuel : ℕ) : Prop where
  value : ∀ text document rest, readValue fuel text = some (document, rest) →
    ∀ steps depth, 2 * (tokensOf text).length < steps →
      scanValue steps depth (tokensOf text) =
        answer (fits depth document) (tokensOf rest)
  items : ∀ text items rest, readItems fuel text = some (items, rest) →
    ∀ steps depth, 2 * (tokensOf text).length + 1 < steps →
      scanItems steps depth (tokensOf text) =
        answer (itemsFit depth items) (tokensOf rest)
  entries : ∀ text entries rest,
    readEntries fuel text = some (entries, rest) →
      ∀ steps depth keys, 2 * (tokensOf text).length + 1 < steps →
        scanEntries steps depth keys (tokensOf text) =
          answer (entriesFit depth keys entries) (tokensOf rest)

theorem first_of_readValue
    (reads : readValue fuel text = some (document, rest)) :
    ∃ token others, tokensOf text = token :: others ∧ token ≠ [']'] := by
  cases fuel with
  | zero =>
      rw [readValue] at reads
      nomatch reads
  | succ fuel =>
      cases readsValue reads with
      | leaf tokens isScalar _ _ =>
          exact ⟨_, _, tokens, isScalar ']' (by decide)⟩
      | emptyArray tokens | array tokens _ | emptyObject tokens
      | object tokens _ =>
          exact ⟨_, _, tokens, by decide⟩

theorem length_of_scan
    {rest : List Text}
    (enough : 2 * tokens.length < steps)
    (leaves : scanValue steps depth tokens = some (some rest)) :
    rest.length < tokens.length := by
  obtain ⟨left, isLeft, less⟩ := (allEnd steps).value depth tokens enough
  exact less rest (Option.some.inj (isLeft.symm.trans leaves))

/-- Values that are read one step deeper are scanned. -/
theorem Scans.readValue
    (scans : Scans fuel)
    (reads : readValue (fuel + 1) text = some (document, rest))
    (enough : 2 * (tokensOf text).length < steps) :
    scanValue steps depth (tokensOf text) =
      answer (fits depth document) (tokensOf rest) := by
  obtain ⟨steps, rfl⟩ : ∃ more, steps = more + 1 :=
    ⟨steps - 1, by omega⟩
  by_cases isDeep : MAX_DEPTH < depth
  · have unfit : fits depth document = false := by
      rw [fits, decide_eq_false (by omega), Bool.false_and]
    rw [scanValue_of_deep isDeep, unfit]
    rfl
  cases readsValue reads with
  | leaf tokens isScalar isFlat isPlain =>
      rw [tokens, scanValue_scalar isDeep isScalar, fits, isFlat, isPlain,
        decide_eq_true (by omega)]
      rfl
  | emptyArray tokens =>
      rw [tokens, scanValue.eq_def, fits, nesting, nestingItems, isUnambiguous,
        areUnambiguous, decide_eq_true (by omega)]
      dsimp only
      rw [if_neg isDeep, if_neg (by decide), if_pos rfl]
      rfl
  | emptyObject tokens =>
      rw [tokens, scanValue.eq_def, fits, nesting, nestingEntries,
        isUnambiguous, entriesUnambiguous, decide_eq_true (by omega)]
      dsimp only
      rw [if_neg isDeep, if_pos rfl]
      rfl
  | @array inner items tokens readsInner =>
      have fitsItems : fits depth (.array items) = itemsFit depth items := by
        rw [fits, itemsFit, nesting, isUnambiguous]
      have shorter := congrArg List.length tokens
      rw [List.length_cons] at shorter
      cases fuel with
      | zero =>
          rw [readItems] at readsInner
          nomatch readsInner
      | succ fuel =>
          obtain ⟨item, after, readsItem, -⟩ := readsItems readsInner
          obtain ⟨token, others, isToken, notEnd⟩ :=
            first_of_readValue readsItem
          have scanned := scans.items _ _ _ readsInner steps depth (by omega)
          rw [tokens, isToken, scanValue_array isDeep notEnd, fitsItems,
            ← isToken, scanned]
  | @object inner entries tokens readsInner =>
      have fitsEntries : fits depth (.object entries) =
          entriesFit depth [] entries := by
        rw [fits, entriesFit, nesting, isUnambiguous]
        simp only [List.not_mem_nil, not_false_eq_true, implies_true, and_true,
          Bool.and_assoc]
      have shorter := congrArg List.length tokens
      rw [List.length_cons] at shorter
      cases fuel with
      | zero =>
          rw [readEntries] at readsInner
          nomatch readsInner
      | succ fuel =>
          obtain ⟨token, name, next, value, after, isToken, isScalar, -⟩ :=
            readsEntries readsInner
          have scanned :=
            scans.entries _ _ _ readsInner steps depth [] (by omega)
          rw [tokens, isToken,
            scanValue_object isDeep (isScalar '}' (by decide)), fitsEntries,
            ← isToken, scanned]

theorem Scans.readItems
    (scans : Scans fuel)
    {items : List Document}
    (reads : readItems (fuel + 1) text = some (items, rest))
    (enough : 2 * (tokensOf text).length + 1 < steps) :
    scanItems steps depth (tokensOf text) =
      answer (itemsFit depth items) (tokensOf rest) := by
  obtain ⟨steps, rfl⟩ : ∃ more, steps = more + 1 :=
    ⟨steps - 1, by omega⟩
  obtain ⟨item, after, readsItem, goesOn⟩ := readsItems reads
  have scanned := scans.value _ _ _ readsItem steps (depth + 1) (by omega)
  rw [scanItems.eq_def]
  dsimp only
  rw [scanned]
  rcases goesOn with ⟨tokens, rfl⟩ | ⟨next, more, tokens, readsMore, rfl⟩
  · rw [itemsFit_singleton]
    refine andThen_answer_last fun _ => ?_
    rw [tokens]
    rfl
  · rw [itemsFit_cons]
    refine andThen_answer fun passes => ?_
    have fewer := length_of_scan (by omega) (scanned.trans (by
      rw [answer, passes, if_pos rfl]))
    rw [tokens, List.length_cons] at fewer
    rw [tokens]
    exact scans.items _ _ _ readsMore steps depth (by omega)

theorem scanEntries_cons
    {keys : List (List ℕ)}
    {key : List ℕ}
    (isKey : keyOf token = some key)
    (rest : List Text) :
    scanEntries (steps + 1) depth keys (token :: [':'] :: rest) =
      if key ∈ keys then
        some none
      else
        (scanValue steps (depth + 1) rest).andThen fun
          | ['}'] :: rest => some (some rest)
          | [','] :: rest => scanEntries steps depth (key :: keys) rest
          | _ => some none := by
  rw [scanEntries.eq_def]
  dsimp only
  split
  · rename_i alike
    cases alike
    simp only [isKey]
    all_goals rfl
  · rename_i other
    exact absurd rfl (other _ _)

theorem Scans.readEntries
    (scans : Scans fuel)
    {entries : Entries}
    (reads : readEntries (fuel + 1) text = some (entries, rest))
    {keys : List (List ℕ)}
    (enough : 2 * (tokensOf text).length + 1 < steps) :
    scanEntries steps depth keys (tokensOf text) =
      answer (entriesFit depth keys entries) (tokensOf rest) := by
  obtain ⟨steps, rfl⟩ : ∃ more, steps = more + 1 :=
    ⟨steps - 1, by omega⟩
  obtain ⟨token, name, inner, value, after, textTokens, -, isKey, readsValue,
    goesOn⟩ := readsEntries reads
  rw [textTokens, List.length_cons, List.length_cons] at enough
  have scanned := scans.value _ _ _ readsValue steps (depth + 1) (by omega)
  rw [textTokens, scanEntries_cons isKey]
  by_cases isOld : name ∈ keys
  · rw [if_pos isOld]
    have unfit : entriesFit depth keys entries = false := by
      rcases goesOn with ⟨-, rfl⟩ | ⟨next, more, -, -, rfl⟩
      · rw [entriesFit_singleton, decide_eq_false (not_not.mpr isOld),
          Bool.false_and]
      · rw [entriesFit_cons, decide_eq_false (not_not.mpr isOld),
          Bool.false_and]
    rw [unfit]
    rfl
  · rw [if_neg isOld, scanned]
    rcases goesOn with ⟨tokens, rfl⟩ | ⟨next, more, tokens, readsMore, rfl⟩
    · rw [entriesFit_singleton, decide_eq_true isOld, Bool.true_and]
      refine andThen_answer_last fun _ => ?_
      rw [tokens]
      rfl
    · rw [entriesFit_cons, decide_eq_true isOld, Bool.true_and]
      refine andThen_answer fun passes => ?_
      have fewer := length_of_scan (by omega) (scanned.trans (by
        rw [answer, passes, if_pos rfl]))
      rw [tokens, List.length_cons] at fewer
      rw [tokens]
      exact scans.entries _ _ _ readsMore steps depth _ (by omega)

theorem scans (fuel : ℕ) : Scans fuel := by
  induction fuel with
  | zero =>
      exact {
        value := by
          intro text document rest reads
          rw [JsonDocument.readValue] at reads
          nomatch reads
        items := by
          intro text items rest reads
          rw [JsonDocument.readItems] at reads
          nomatch reads
        entries := by
          intro text entries rest reads
          rw [JsonDocument.readEntries] at reads
          nomatch reads }
  | succ fuel inductionHypothesis =>
      exact {
        value := fun _ _ _ reads _ _ => inductionHypothesis.readValue reads
        items := fun _ _ _ reads _ _ => inductionHypothesis.readItems reads
        entries := fun _ _ _ reads _ _ _ =>
          inductionHypothesis.readEntries reads }

theorem exists_assertUnambiguousJson
    (text : Text) :
    ∃ passes, assertUnambiguousJson text = some passes := by
  obtain ⟨left, isLeft, -⟩ := (allEnd (2 * (tokensOf text).length + 1)).value
    0 (tokensOf text) (by omega)
  exact ⟨_, by rw [assertUnambiguousJson, isLeft]; rfl⟩

theorem assertUnambiguousJson_of_read
    (reads : read text = some document) :
    assertUnambiguousJson text = some (fits 0 document) := by
  unfold JsonDocument.read at reads
  obtain ⟨⟨found, rest⟩, isValue, isOnly⟩ := Option.bind_eq_some_iff.mp reads
  dsimp only at isOnly
  split at isOnly
  · rename_i isEmpty
    cases isOnly
    have noTokens : tokensOf rest = [] := by
      rw [← tokensOf_skipSpace, isEmpty]
      rfl
    have scanned := (scans _).value _ _ _ isValue
      (2 * (tokensOf text).length + 1) 0 (by omega)
    rw [assertUnambiguousJson, scanned, noTokens]
    cases fits 0 document <;> rfl
  · nomatch isOnly

/-! ## The archive reader -/

/-- A text of an archive is accepted: it is small enough and an object that is
neither too deep nor ambiguous. -/
structure IsAccepted
    (text : Text)
    (document : Document) : Prop where
  /-- It is what the language reads. -/
  reads : parseJson text = some document
  isObject : isObject document = true
  small : (encode text).length ≤ MAX_BYTES
  /-- What is written in it is not too deep, and no object has a name twice. -/
  written : ∃ written, read text = some written ∧
    nesting written ≤ MAX_DEPTH ∧ isUnambiguous written = true

/-- The archive reader answers every text, with the document exactly if the
text is accepted. -/
theorem parseArchiveJson_iff
    (text : Text) :
    ∃ answer, parseArchiveJson text = some answer ∧
      ∀ document, answer = some document ↔ IsAccepted text document := by
  rw [parseArchiveJson]
  by_cases isBig : MAX_BYTES < (encode text).length
  · refine ⟨none, if_pos isBig, fun document => ⟨(nomatch ·), ?_⟩⟩
    rintro ⟨-, -, small, -⟩
    omega
  rw [if_neg isBig]
  obtain ⟨passes, isAnswer⟩ := exists_assertUnambiguousJson text
  rw [isAnswer]
  refine ⟨_, rfl, fun document => ⟨fun accepts => ?_, ?_⟩⟩
  · dsimp only at accepts
    split at accepts
    · rename_i isPass
      obtain ⟨isRead, isObject⟩ := Option.filter_eq_some_iff.mp accepts
      obtain ⟨written, isWritten, -⟩ := Option.map_eq_some_iff.mp isRead
      have fitsWritten := assertUnambiguousJson_of_read isWritten
      rw [isAnswer, isPass, Option.some.injEq, eq_comm, fits,
        Bool.and_eq_true, decide_eq_true_eq, Nat.zero_add] at fitsWritten
      exact ⟨isRead, isObject, Nat.not_lt.mp isBig, written, isWritten,
        fitsWritten⟩
    · nomatch accepts
  · rintro ⟨isRead, isObject, -, written, isWritten, notDeep, isPlain⟩
    have fitsWritten := assertUnambiguousJson_of_read isWritten
    rw [isAnswer, Option.some.injEq, fits, Nat.zero_add,
      decide_eq_true notDeep, isPlain] at fitsWritten
    rw [fitsWritten, isRead]
    exact Option.filter_eq_some_iff.mpr ⟨rfl, isObject⟩

end Frameleaf.StudioVector
