import Frameleaf.Manager.Autostart
import Frameleaf.SettingsDraft.Leaves

namespace Frameleaf.SettingsDraft

open Json PathTrees
open Manager (trim)

/-!
# Secrets and credentials

A secret is known by its path, a credential by the URL that carries it.  Both
are kept out of what leaves the settings page.
-/

/-- The URLs of the platform. -/
structure UrlLibrary where
  Url : Type
  /-- `new URL(text)`, or nothing where it throws -/
  parse : Utf8.Text → Option Url
  username : Url → String
  password : Url → String
  pathname : Url → String
  search : Url → String
  /-- The names of `searchParams`. -/
  names : Url → List String
  /-- `url.username = ''` -/
  clearUsername : Url → Url
  /-- `url.password = ''` -/
  clearPassword : Url → Url
  /-- `url.searchParams.delete(name)` -/
  deleteName : Url → String → Url
  /-- `url.toString()` -/
  text : Url → Utf8.Text
  username_clearUsername : ∀ url, username (clearUsername url) = ""
  username_clearPassword : ∀ url, username (clearPassword url) = username url
  password_clearPassword : ∀ url, password (clearPassword url) = ""
  username_deleteName : ∀ url name, username (deleteName url name) = username url
  password_deleteName : ∀ url name, password (deleteName url name) = password url
  names_deleteName : ∀ url name,
    names (deleteName url name) = (names url).filter (· ≠ name)
  /-- A serialised URL has no space in it. -/
  text_plain : ∀ url, ∀ letter ∈ text url, Manager.isSpace letter = false
  /-- A serialised URL is read back as it was. -/
  parse_text : ∀ url again, parse (text url) = some again →
    username again = username url ∧ password again = password url ∧
      names again = names url
  /-- The slash of a bare origin may be left out. -/
  parse_bare : ∀ url again, pathname url = "/" → search url = "" →
    ∀ rest, text url = rest ++ ['/'] → parse rest = some again →
      username again = username url ∧ password again = password url ∧
        names again = names url

/-- A text in small letters, as far as they are ASCII letters. -/
def lower
    (text : Utf8.Text) : Utf8.Text :=
  text.map Char.toLower

/-- The words of `SENSITIVE_QUERY_PARAMETER`. -/
def SENSITIVE_WORDS : List String :=
  ["key", "token", "secret", "password", "signature", "auth", "credential"]

/-- `SENSITIVE_QUERY_PARAMETER.test(name)` -/
def isSensitiveParameter
    (name : String) : Bool :=
  SENSITIVE_WORDS.any fun word =>
    (lower name.toList).tails.any (word.toList.isPrefixOf ·)

/-- A letter, digit, plus, dot or minus: what may follow in a scheme. -/
def isSchemeLetter
    (letter : Char) : Bool :=
  letter.isAlphanum || letter ∈ ['+', '.', '-']

/-- `/^[a-z][\d+.a-z-]*:\/\//i.test(value)` -/
def hasScheme : Utf8.Text → Bool
  | [] =>
      false
  | first :: rest =>
      first.isAlpha && [':', '/', '/'].isPrefixOf (rest.dropWhile isSchemeLetter)

variable (urls : UrlLibrary)

/-- `sensitiveParameters` -/
def sensitiveParameters
    (url : urls.Url) : List String :=
  (urls.names url).filter isSensitiveParameter

/-- `parseUrl` -/
def parseUrl
    (value : Utf8.Text) : Option urls.Url :=
  if hasScheme (trim value) then
    urls.parse (trim value)
  else
    none

/-- A URL carries a user name, a password or a key-like query parameter. -/
def hasCredentials
    (url : urls.Url) : Bool :=
  urls.username url ≠ "" || urls.password url ≠ "" ||
    sensitiveParameters urls url ≠ []

/-- `urlHasCredentials` -/
def urlHasCredentials
    (value : Utf8.Text) : Bool :=
  match parseUrl urls value with
  | none => false
  | some url => hasCredentials urls url

/-- A URL without user name, password and key-like query parameters. -/
def withoutCredentials
    (url : urls.Url) : urls.Url :=
  let url := urls.clearPassword (urls.clearUsername url)
  (sensitiveParameters urls url).foldl urls.deleteName url

/-- `text.replace(/\/$/, '')` -/
def withoutSlash
    (text : Utf8.Text) : Utf8.Text :=
  if text.getLast? = some '/' then
    text.dropLast
  else
    text

/-- `stripUrlCredentials` -/
def stripUrlCredentials
    (value : Utf8.Text) : Utf8.Text :=
  match parseUrl urls value with
  | none =>
      value
  | some url =>
      if urlHasCredentials urls value then
        let url := withoutCredentials urls url
        if (value.rdropWhile Manager.isSpace).getLast? = some '/' ∨
            urls.pathname url ≠ "/" ∨ urls.search url ≠ "" then
          urls.text url
        else
          withoutSlash (urls.text url)
      else
        value

mutual

/-- `containsCredentials` -/
def containsCredentials : Json → Bool
  | .string text => urlHasCredentials urls text.toList
  | .array items => someContainsCredentials items
  | _ => false

/-- Some item contains credentials. -/
def someContainsCredentials : List Json → Bool
  | [] => false
  | item :: items => containsCredentials item || someContainsCredentials items

end

/-- The paths of `SECRET_CONFIG_PATHS`. -/
def SECRET_CONFIG_PATHS : List String :=
  ["notifications.smtp.transport.password", "oauth.clientSecret",
    "frameleafCloud.cloudBackup.s3.secretAccessKey"]

/-- The endings of `SECRET_NAME`. -/
def SECRET_NAMES : List String :=
  ["password", "secret", "token", "apikey", "api_key", "credential"]

/-- `isSecretConfigPath` -/
def isSecretConfigPath
    (path : String) : Bool :=
  SECRET_CONFIG_PATHS.contains path ||
    SECRET_NAMES.any fun name => name.toList.isSuffixOf
      (lower ((path.toList.splitOn '.').getLastD []))

mutual

/-- Every text in a value, at any depth, the names of fields among them. -/
def texts : Json → List String
  | .string text => [text]
  | .array items => itemsTexts items
  | .object fields => fieldsTexts fields
  | _ => []

/-- The texts of items. -/
def itemsTexts : List Json → List String
  | [] => []
  | item :: items => texts item ++ itemsTexts items

/-- The texts of fields. -/
def fieldsTexts : Fields → List String
  | [] => []
  | (name, value) :: fields => name :: texts value ++ fieldsTexts fields

end

mutual

/-- The texts of a value that lie in an object. -/
def objectTexts : Json → List String
  | .array items => itemsObjectTexts items
  | .object fields => fieldsTexts fields
  | _ => []

/-- The texts of items that lie in an object. -/
def itemsObjectTexts : List Json → List String
  | [] => []
  | item :: items => objectTexts item ++ itemsObjectTexts items

end

/-- No text carries credentials. -/
def areClean
    (texts : List String) : Prop :=
  ∀ text ∈ texts, urlHasCredentials urls text.toList = false

variable {urls}

theorem areClean_append
    {first second : List String} :
    areClean urls (first ++ second) ↔
      areClean urls first ∧ areClean urls second := by
  simp only [areClean, List.mem_append, or_imp, forall_and]

mutual

theorem clean_texts_iff :
    ∀ value : Json, areClean urls (texts value) ↔
      containsCredentials urls value = false ∧
        areClean urls (objectTexts value)
  | .null | .bool _ | .number _ => by
      simp [texts, objectTexts, containsCredentials, areClean]
  | .string text => by
      simp [texts, objectTexts, containsCredentials, areClean]
  | .object fields => by
      simp [texts, objectTexts, containsCredentials]
  | .array items => by
      rw [texts, objectTexts, containsCredentials]
      exact clean_itemsTexts_iff items

theorem clean_itemsTexts_iff :
    ∀ items : List Json, areClean urls (itemsTexts items) ↔
      someContainsCredentials urls items = false ∧
        areClean urls (itemsObjectTexts items)
  | [] => by
      simp [itemsTexts, itemsObjectTexts, someContainsCredentials, areClean]
  | item :: items => by
      rw [itemsTexts, itemsObjectTexts, someContainsCredentials,
        areClean_append, areClean_append, Bool.or_eq_false_iff,
        clean_texts_iff item, clean_itemsTexts_iff items]
      tauto

end

theorem foldl_deleteName
    (names : List String)
    (url : urls.Url) :
    urls.username (names.foldl urls.deleteName url) = urls.username url ∧
      urls.password (names.foldl urls.deleteName url) = urls.password url ∧
      urls.names (names.foldl urls.deleteName url) =
        (urls.names url).filter (· ∉ names) := by
  induction names generalizing url with
  | nil =>
      simp
  | cons name names inductionHypothesis =>
      obtain ⟨username, password, kept⟩ :=
        inductionHypothesis (urls.deleteName url name)
      rw [List.foldl_cons]
      refine ⟨?_, ?_, ?_⟩
      · rw [username, urls.username_deleteName]
      · rw [password, urls.password_deleteName]
      · rw [kept, urls.names_deleteName, List.filter_filter]
        apply List.filter_congr
        intro other _
        simp [Bool.and_comm]

theorem hasCredentials_withoutCredentials
    (url : urls.Url) :
    hasCredentials urls (withoutCredentials urls url) = false := by
  unfold withoutCredentials
  obtain ⟨username, password, kept⟩ := foldl_deleteName
    (sensitiveParameters urls (urls.clearPassword (urls.clearUsername url)))
    (urls.clearPassword (urls.clearUsername url))
  have noUsername : urls.username
      (urls.clearPassword (urls.clearUsername url)) = "" := by
    rw [urls.username_clearPassword, urls.username_clearUsername]
  dsimp only
  unfold hasCredentials
  rw [username, password, noUsername, urls.password_clearPassword]
  have noneLeft : sensitiveParameters urls ((sensitiveParameters urls
      (urls.clearPassword (urls.clearUsername url))).foldl urls.deleteName
        (urls.clearPassword (urls.clearUsername url))) = [] := by
    unfold sensitiveParameters at kept ⊢
    rw [kept, List.filter_filter, List.filter_eq_nil_iff]
    intro name member
    simp [List.mem_filter, member]
  simp [noneLeft]

theorem trim_plain
    {text : Utf8.Text}
    (plain : ∀ letter ∈ text, Manager.isSpace letter = false) :
    trim text = text := by
  unfold trim
  have fromLeft : text.dropWhile Manager.isSpace = text := by
    cases text with
    | nil => rfl
    | cons first rest =>
        rw [List.dropWhile_cons_of_neg]
        simp [plain first List.mem_cons_self]
  rw [fromLeft, List.rdropWhile_eq_self_iff]
  intro notEmpty
  simp [plain _ (List.getLast_mem notEmpty)]

theorem hasCredentials_congr
    {first second : urls.Url}
    (same : urls.username first = urls.username second ∧
      urls.password first = urls.password second ∧
      urls.names first = urls.names second) :
    hasCredentials urls first = hasCredentials urls second := by
  unfold hasCredentials sensitiveParameters
  rw [same.1, same.2.1, same.2.2]

theorem urlHasCredentials_of_parse
    {text : Utf8.Text}
    (plain : ∀ letter ∈ text, Manager.isSpace letter = false)
    (reads : ∀ url, urls.parse text = some url →
      hasCredentials urls url = false) :
    urlHasCredentials urls text = false := by
  unfold urlHasCredentials parseUrl
  rw [trim_plain plain]
  split
  · rfl
  · rename_i url isRead
    split at isRead
    · exact reads url isRead
    · cases isRead

variable (urls) in
theorem urlHasCredentials_strip
    (value : Utf8.Text) :
    urlHasCredentials urls (stripUrlCredentials urls value) = false := by
  unfold stripUrlCredentials
  split
  · rename_i isRead
    unfold urlHasCredentials
    rw [isRead]
  · rename_i url isRead
    split
    · have plain := urls.text_plain (withoutCredentials urls url)
      have none := hasCredentials_withoutCredentials url
      dsimp only
      split
      · apply urlHasCredentials_of_parse plain
        intro again isAgain
        rw [hasCredentials_congr (urls.parse_text _ _ isAgain)]
        exact none
      · rename_i isBare
        push Not at isBare
        obtain ⟨_, isRoot, noSearch⟩ := isBare
        unfold withoutSlash
        split
        · rename_i endsSlash
          have isText := List.dropLast_append_getLast?  _ endsSlash
          apply urlHasCredentials_of_parse
          · intro letter member
            exact plain letter (List.dropLast_subset _ member)
          · intro again isAgain
            rw [hasCredentials_congr (urls.parse_bare _ _ isRoot noSearch _
              isText.symm isAgain)]
            exact none
        · apply urlHasCredentials_of_parse plain
          intro again isAgain
          rw [hasCredentials_congr (urls.parse_text _ _ isAgain)]
          exact none
    · rename_i noCredentials
      simpa using noCredentials

end Frameleaf.SettingsDraft
