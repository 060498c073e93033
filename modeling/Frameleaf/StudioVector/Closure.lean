import Frameleaf.StudioVector.Imports

namespace Frameleaf.StudioVector

open Json JsonDocument Utf8

/-!
# The closure of the graphics of a graph

A graph declares which file stands for each reference of its graphics.  Before
a graph is drawn its declarations are compared with the files: each declared
file is read once, at most so many bytes in all, and its bytes have to be the
declared ones; the declared places of a graphic have to be those that its bytes
name.  Strings are code units, and the numbers of a graph are the texts that
they are written as.
-/

/-! ## What is declared -/

/-- What a declared file is. -/
inductive SourceKind where
  | projectImport
  | vectorGraphic
  | libraryAsset
  | font
  deriving Repr, DecidableEq

/-- The name of a kind. -/
def SourceKind.text : SourceKind → List ℕ
  | .projectImport =>
      unitsOfText "project-import"
  | .vectorGraphic =>
      unitsOfText "vector-graphic"
  | .libraryAsset =>
      unitsOfText "library-asset"
  | .font =>
      unitsOfText "font"

/-- A declared file. -/
structure Source where
  kind : SourceKind
  id : List ℕ
  checksum : List ℕ
  deriving DecidableEq

/-- Which file a place of a graphic names. -/
structure StudioVectorBinding where
  parent : Source
  location : Location
  child : Source
  deriving DecidableEq

/-- A digit. -/
def isDigitUnit (unit : ℕ) : Bool :=
  0x30 ≤ unit && unit ≤ 0x39

/-- A letter. -/
def isLetterUnit (unit : ℕ) : Bool :=
  (0x41 ≤ unit && unit ≤ 0x5A) || (0x61 ≤ unit && unit ≤ 0x7A)

/-- A letter, a digit or an underscore. -/
def isWordUnit (unit : ℕ) : Bool :=
  isLetterUnit unit || isDigitUnit unit || unit = 0x5F

/-- A lower case hexadecimal digit. -/
def isHexUnit (unit : ℕ) : Bool :=
  isDigitUnit unit || (0x61 ≤ unit && unit ≤ 0x66)

/-- A checksum: 64 hexadecimal digits. -/
def isSha (text : List ℕ) : Bool :=
  text.length = 64 && text.all isHexUnit

/-- An id: groups of 8, 4, 4, 4 and 12 hexadecimal digits. -/
def isUuid (text : List ℕ) : Bool :=
  text.length = 36 && text.zipIdx.all fun entry =>
    if entry.2 ∈ [8, 13, 18, 23] then entry.1 = 0x2D else isHexUnit entry.1

/-- A unit that the dot of a pattern does not match. -/
def isLineEndUnit (unit : ℕ) : Bool :=
  unit = 0x0A || unit = 0x0D || unit = 0x2028 || unit = 0x2029

/-- Whether a part of a path that may not stand there is found before the end of
a line. -/
def hasUnsafePart : Bool → List ℕ → Bool
  | _, [] =>
      false
  | atStart, unit :: rest =>
      let parts := ["\\", "//", "/./", "/../"].map unitsOfText ++
        if atStart then ["./", "../"].map unitsOfText else []
      parts.any (·.isPrefixOf (unit :: rest)) ||
        unit :: rest = unitsOfText "/" ||
          !isLineEndUnit unit && hasUnsafePart false rest

/-- The name of an entry of an archive. -/
def isEntryName (text : List ℕ) : Bool :=
  !hasUnsafePart true text &&
    match text with
    | [] => false
    | first :: rest => first ≠ 0x2F && rest.all (· ≠ 0x5C)

/-- An index as it is written. -/
def isIndexText (text : List ℕ) : Bool :=
  text = [0x30] ||
    match text with
    | [] => false
    | first :: rest =>
        0x31 ≤ first && first ≤ 0x39 && rest.all isDigitUnit

/-- Whether an index stands between two texts. -/
def isIndexBetween (before after : String) (text : List ℕ) : Bool :=
  (unitsOfText before).isPrefixOf text &&
    (unitsOfText after).isSuffixOf text &&
      isIndexText ((text.drop before.length).take
        (text.length - before.length - after.length))

/-- A place in a graphic that a reference can have. -/
def isPointer (text : List ℕ) : Bool :=
  isIndexBetween "/assets/" "/p" text ||
    isIndexBetween "/fonts/list/" "/fPath" text

/-- The name of an attribute. -/
def isLocalName : List ℕ → Bool
  | [] =>
      false
  | first :: rest =>
      isLetterUnit first && rest.all fun unit =>
        isWordUnit unit || unit = 0x2E || unit = 0x2D

/-- The id of a font. -/
def isFontId (text : List ℕ) : Bool :=
  1 ≤ text.length && text.length ≤ 128 && text.all fun unit =>
    isWordUnit unit || unit ∈ unitsOfText " .:-"

/-- The members of an object that has no others. -/
def strictMembers (names : List String) : Document → Option (List Document)
  | .object entries =>
      if entries.all fun entry => entry.1 ∈ names.map unitsOfText then
        names.mapM fun name => member name (.object entries)
      else
        none
  | _ =>
      none

/-- A string. -/
def stringOf : Document → Option (List ℕ)
  | .string units =>
      some units
  | _ =>
      none

/-- A string that has a form. -/
def stringWith (form : List ℕ → Bool) (document : Document) :
    Option (List ℕ) :=
  (stringOf document).filter form

/-- One of several strings that stand for values. -/
def oneOf
    {Value : Type}
    (values : List (List ℕ × Value))
    (document : Document) : Option Value :=
  (stringOf document).bind fun text =>
    (values.find? fun value => value.1 = text).map Prod.snd

/-- Kinds by their names. -/
def kindsBy (kinds : List SourceKind) : List (List ℕ × SourceKind) :=
  kinds.map fun kind => (kind.text, kind)

/-- The roles by their names. -/
def roles : List (List ℕ × Role) :=
  [(unitsOfText "image", .image), (unitsOfText "font", .font)]

/-- A whole number that is not negative and exact. -/
def wholeNumber : Document → Option ℕ
  | .leaf (.number text) =>
      text.toNat?.filter fun value =>
        value.repr = text && value ≤ 2 ^ 53 - 1
  | _ =>
      none

/-- An entry of an archive, or none. -/
def entryOf : Document → Option (Option (List ℕ))
  | .leaf .null =>
      some none
  | document =>
      (stringWith isEntryName document).map some

/-- A place in a graphic that is written in JSON. -/
def jsonLocation (document : Document) : Option Location :=
  match strictMembers ["format", "entry", "pointer", "role"] document with
  | some [format, entry, pointer, role] => do
      let _ ← stringWith (· = unitsOfText "lottie-json") format
      let entry ← entryOf entry
      let pointer ← stringWith isPointer pointer
      let role ← oneOf roles role
      guard ((unitsOfText "/assets/").isPrefixOf pointer = (role = .image))
      return .lottieJson entry pointer role
  | _ =>
      none

/-- A place in a graphic with elements. -/
def svgLocation (document : Document) : Option Location :=
  match strictMembers ["format", "elementPath", "attribute", "role"] document
    with
  | some [format, .array elementPath, named, role] => do
      let _ ← stringWith (· = unitsOfText "svg") format
      let elementPath ← elementPath.mapM wholeNumber
      guard (elementPath.length ≤ 64)
      match strictMembers ["namespace", "localName"] named with
      | some [spaceName, localName] => do
          let spaceName ← stringWith (·.length ≤ 256) spaceName
          let localName ← stringWith isLocalName localName
          let role ← oneOf roles role
          return .svg elementPath spaceName localName role
      | _ =>
          none
  | _ =>
      none

/-- A declared file of one of several kinds. -/
def sourceOf
    (kinds : List SourceKind)
    (document : Document) : Option Source :=
  match strictMembers ["kind", "id", "checksum"] document with
  | some [kind, id, checksum] => do
      let kind ← oneOf (kindsBy kinds) kind
      let id ← stringWith (if kind = .font then isFontId else isUuid) id
      let checksum ← stringWith isSha checksum
      return ⟨kind, id, checksum⟩
  | _ =>
      none

/-- The role of a reference. -/
def Location.role : Location → Role
  | .lottieJson _ _ role | .svg _ _ _ role =>
      role

/-- A declared reference. -/
def bindingOf (document : Document) : Option StudioVectorBinding :=
  match strictMembers ["parent", "location", "child"] document with
  | some [parent, location, child] => do
      let parent ← sourceOf [.projectImport, .vectorGraphic] parent
      let location ← (jsonLocation location).or (svgLocation location)
      let child ← sourceOf [.projectImport, .libraryAsset, .font] child
      guard ((location.role = .font) = (child.kind = .font))
      return ⟨parent, location, child⟩
  | _ =>
      none

/-- All declared references. -/
def declarationOf (document : Document) : Option (List StudioVectorBinding) :=
  match strictMembers ["version", "bindings"] document with
  | some [.leaf (.number version), .array bindings] =>
      if version = "1" && bindings.length ≤ 10000 then
        bindings.mapM bindingOf
      else
        none
  | _ =>
      none

/-! ## Keys -/

/-- A part of a key. -/
inductive KeyPart where
  | null
  | text (units : List ℕ)
  | numbers (values : List ℕ)
  deriving DecidableEq

/-- The name of a role. -/
def Role.text : Role → List ℕ
  | .image =>
      unitsOfText "image"
  | .font =>
      unitsOfText "font"

/-- What a place is told by: the parts of the text that is written of them. -/
def studioVectorLocationKey : Location → List KeyPart
  | .lottieJson entry pointer role =>
      [.text (unitsOfText "lottie-json"), (entry.map .text).getD .null,
        .text pointer, .text role.text]
  | .svg elementPath spaceName localName role =>
      [.text (unitsOfText "svg"), .numbers elementPath, .text spaceName,
        .text localName, .text role.text]

/-- What a declared reference is told by. -/
def bindingKey
    (binding : StudioVectorBinding) :
    List ℕ × List ℕ × List ℕ × List KeyPart :=
  (binding.parent.kind.text, binding.parent.id, binding.parent.checksum,
    studioVectorLocationKey binding.location)

/-- A kind and another text, with a colon between them. -/
def withKind (kind : SourceKind) (text : List ℕ) : List ℕ :=
  kind.text ++ 0x3A :: text

/-- What is known of the references so far. -/
structure Seen where
  parents : List (List ℕ × List ℕ) := []
  keys : List (List ℕ × List ℕ × List ℕ × List KeyPart) := []

/-- Look at one more reference, unless it contradicts one before it. -/
def Seen.add
    (seen : Seen)
    (binding : StudioVectorBinding) : Option Seen :=
  let tuple := withKind binding.parent.kind binding.parent.checksum
  let known := (seen.parents.find? (·.1 = binding.parent.id)).map Prod.snd
  if known.any (· ≠ tuple) then
    none
  else if bindingKey binding ∈ seen.keys then
    none
  else
    some
      { parents := (binding.parent.id, tuple) :: seen.parents
        keys := bindingKey binding :: seen.keys }

/-- The references that a graph declares, unless they are refused. -/
def readStudioVectorBindings
    (graph : Document) : Option (List StudioVectorBinding) :=
  match member "studioVectorDependencies" graph with
  | none =>
      some []
  | some declared => do
      let bindings ← declarationOf declared
      let _ ← bindings.foldlM Seen.add {}
      return bindings

/-! ## The files -/

/-- A file that may be read. -/
structure StudioVectorAuthorizedInput where
  key : List ℕ
  kind : List ℕ
  id : List ℕ
  checksum : Option (List ℕ)
  path : Option (List ℕ)

/-- How many bytes are read in all. -/
def MAX_ALLOCATED : ℕ := 32 * 1024 * 1024

/-- What was read so far. -/
structure Allocation where
  verified : List (List ℕ × Bytes) := []
  allocated : ℕ := 0

/-- What a check needs of its surroundings. -/
structure Surroundings where
  entries : List StudioVectorAuthorizedInput
  /-- What is read of an entry, within a number of bytes; it may differ from one
  read to the next, which are counted. -/
  read : ℕ → StudioVectorAuthorizedInput → ℕ → Option Bytes
  /-- The checksum of bytes. -/
  sha256 : Bytes → List ℕ

/-- The key of a declared file. -/
def Source.key (source : Source) : List ℕ :=
  withKind source.kind source.id

/-- The bytes of an entry, which are read when they were not. -/
def readOnce
    (surroundings : Surroundings)
    (entry : StudioVectorAuthorizedInput)
    (key : List ℕ)
    (allocation : Allocation) : Option (Bytes × Allocation) :=
  match allocation.verified.find? (·.1 = key) with
  | some (_, bytes) =>
      some (bytes, allocation)
  | none => do
      let bytes ← surroundings.read allocation.verified.length entry
        (min STUDIO_IMPORT_VECTOR_MAX_BYTES
          (MAX_ALLOCATED - allocation.allocated))
      let allocated := allocation.allocated + bytes.length
      if STUDIO_IMPORT_VECTOR_MAX_BYTES < bytes.length ||
          MAX_ALLOCATED < allocated then
        none
      else
        some (bytes, ⟨allocation.verified ++ [(key, bytes)], allocated⟩)

/-- The bytes of a declared file, unless they are not the declared ones. -/
def bytesFor
    (surroundings : Surroundings)
    (source : Source)
    (allocation : Allocation) : Option (Bytes × Allocation) :=
  match surroundings.entries.reverse.find? (·.key = source.key) with
  | none =>
      none
  | some entry =>
      if entry.kind ≠ source.kind.text ∨ entry.id ≠ source.id then
        none
      else if isSha (entry.checksum.getD []) ∧
          entry.checksum ≠ some source.checksum then
        none
      else do
        let (bytes, allocation) ←
          readOnce surroundings entry source.key allocation
        if surroundings.sha256 bytes = source.checksum then
          some (bytes, allocation)
        else
          none

/-- References by the keys of their graphics, in the order of the first ones. -/
abbrev Groups := List (List ℕ × List StudioVectorBinding)

/-- Put a reference to those of its graphic. -/
def addToGroup (binding : StudioVectorBinding) : Groups → Groups
  | [] =>
      [(binding.parent.key, [binding])]
  | group :: rest =>
      if group.1 = binding.parent.key then
        (group.1, group.2 ++ [binding]) :: rest
      else
        group :: addToGroup binding rest

/-- The references of each graphic. -/
def groupsOf (bindings : List StudioVectorBinding) : Groups :=
  bindings.foldl (fun groups binding => addToGroup binding groups) []

/-- Check the file of a reference. -/
def checkChild
    (surroundings : Surroundings)
    (allocation : Allocation)
    (binding : StudioVectorBinding) : Option Allocation := do
  let (bytes, allocation) ← bytesFor surroundings binding.child allocation
  if binding.location.role = .image && !isStudioVectorImage bytes then
    none
  else
    some allocation

/-- The declared places are as many as the parsed ones, and all among them. -/
def areComplete
    (dependencies : List Location)
    (group : List StudioVectorBinding) : Bool :=
  let expected := (dependencies.map studioVectorLocationKey).dedup
  expected.length = group.length && group.all fun binding =>
    studioVectorLocationKey binding.location ∈ expected

/-- Check a graphic with its references. -/
def checkGroup
    (surroundings : Surroundings)
    (allocation : Allocation)
    (group : List ℕ × List StudioVectorBinding) : Option Allocation :=
  match group.2 with
  | [] =>
      none
  | first :: _ =>
      if group.2.any fun binding =>
          binding.parent.checksum ≠ first.parent.checksum then
        none
      else do
        let (bytes, allocation) ←
          bytesFor surroundings first.parent allocation
        let type ← sniffStudioImport (bytes.take 1024)
        guard (type.kind = .vector)
        let dependencies ← assertStudioVectorParent bytes type.contentType
        guard (areComplete dependencies group.2)
        group.2.foldlM (checkChild surroundings) allocation

/-- Check the graphics of a graph: what was read, unless the graph is refused. -/
def validateStudioVectorClosure
    (surroundings : Surroundings)
    (graph : Document) : Option Allocation := do
  let bindings ← readStudioVectorBindings graph
  (groupsOf bindings).foldlM (checkGroup surroundings) {}

end Frameleaf.StudioVector
