import Frameleaf.StudioVector.Scanner

namespace Frameleaf.StudioVector

open Json JsonDocument Utf8

/-!
# What a vector graphic needs besides itself

The type of an upload is told from its first bytes.  A graphic that is written
in JSON names the images and the fonts that it is drawn with; an image within
the text counts only if its bytes are those of an image.  A graphic in the other
format is refused.
-/

/-- The bytes of a file. -/
abbrev Bytes := List UInt8

/-! ## The type of an upload -/

/-- What an upload can be used for, as far as graphics need it. -/
inductive ImportKind where
  | audio
  | image
  | video
  | vector
  deriving Repr, DecidableEq

/-- The type of an upload. -/
structure ImportType where
  contentType : String
  kind : ImportKind
  deriving Repr, DecidableEq

/-- A byte of a file as a number; there is none behind its end. -/
def byteAt (bytes : Bytes) (index : ℕ) : Option ℕ :=
  bytes[index]?.map UInt8.toNat

/-- The bytes at a place are those of a signature. -/
def startsWith
    (bytes : Bytes)
    (signature : List ℕ)
    (offset : ℕ) : Bool :=
  signature.zipIdx.all fun entry =>
    byteAt bytes (offset + entry.2) = some entry.1

/-- The bytes at a place are the characters of a text. -/
def asciiAt
    (bytes : Bytes)
    (offset : ℕ)
    (text : String) : Bool :=
  startsWith bytes (text.toList.map Char.toNat) offset

/-- The bits of a byte under a mask; behind the end there are none. -/
def bitsAt (bytes : Bytes) (index mask : ℕ) : ℕ :=
  ((byteAt bytes index).getD 0) &&& mask

/-- The brands of media files that are sound only. -/
def audioBrands : List String :=
  ["M4A ", "M4B ", "M4P ", "F4A ", "F4B "]

/-- A character that is left out at the start of a text. -/
def isBlank (character : Char) : Bool :=
  let code := character.toNat
  (0x09 ≤ code && code ≤ 0x0D) || code = 0x20 || code = 0xA0 ||
    code = 0x1680 || (0x2000 ≤ code && code ≤ 0x200A) || code = 0x2028 ||
    code = 0x2029 || code = 0x202F || code = 0x205F || code = 0x3000 ||
    code = 0xFEFF

/-- A text without the blanks at its start. -/
def trimStart (text : Text) : Text :=
  text.dropWhile isBlank

/-- The mark that may stand before a text. -/
def byteOrderMark : Char := Char.ofNat 0xFEFF

/-- A text without the mark before it. -/
def dropMark : Text → Text
  | [] =>
      []
  | character :: rest =>
      if character = byteOrderMark then rest else character :: rest

/-- The text at the start of a file. -/
def textHead (bytes : Bytes) : Text :=
  trimStart (dropMark (dropMark (decode (bytes.take 1024))))

/-- A text starts with a word, whatever case its letters have. -/
def startsWithWord (word : String) (text : Text) : Bool :=
  (word.toList.map Char.toLower).isPrefixOf (text.map Char.toLower)

/-- The text behind the first place where some characters stand. -/
def afterFirst (mark : Text) : Text → Option Text
  | [] =>
      if mark = [] then some [] else none
  | character :: rest =>
      if mark.isPrefixOf (character :: rest) then
        some ((character :: rest).drop mark.length)
      else
        afterFirst mark rest

/-- A text without the comments at its start, unless one does not end. -/
def skipComments : ℕ → Text → Option Text
  | 0, text =>
      some text
  | fuel + 1, text =>
      if ['<', '!', '-', '-'].isPrefixOf text then
        match afterFirst ['-', '-', '>'] (text.drop 4) with
        | none => none
        | some rest => skipComments fuel (trimStart rest)
      else
        some text

/-- A text without a declaration at its start, unless it does not end. -/
def skipDeclaration (word : String) (text : Text) : Option Text :=
  if startsWithWord word text then (afterFirst ['>'] text).map trimStart
  else some text

/-- Whether a text opens like a graphic with elements. -/
def isSvgHead (text : Text) : Bool :=
  match ((skipDeclaration "<?xml" text).bind fun text =>
      skipComments text.length text).bind (skipDeclaration "<!DOCTYPE svg") with
  | none =>
      false
  | some text =>
      startsWithWord "<svg" text &&
        (text[4]?.any fun character => isBlank character || character = '>')

/-- Whether the first bytes of a media file say that it is one for the web. -/
def saysWebm (bytes : Bytes) : Bool :=
  bytes.tails.any fun rest =>
    startsWithWord "webm" (rest.map fun byte => Char.ofNat byte.toNat)

/-- The type of an upload that the browser tells nothing of, if it is sound, an
image, a video or a graphic. -/
def sniffStudioImport (head : Bytes) : Option ImportType :=
  if asciiAt head 0 "RIFF" && asciiAt head 8 "WAVE" then
    some ⟨"audio/wav", .audio⟩
  else if asciiAt head 0 "RIFF" && asciiAt head 8 "WEBP" then
    some ⟨"image/webp", .image⟩
  else if asciiAt head 0 "OggS" then
    some ⟨"audio/ogg", .audio⟩
  else if asciiAt head 0 "fLaC" then
    some ⟨"audio/flac", .audio⟩
  else if byteAt head 0 = some 0xFF && bitsAt head 1 0xF6 = 0xF0 then
    some ⟨"audio/aac", .audio⟩
  else if asciiAt head 0 "ID3" || (byteAt head 0 = some 0xFF &&
      bitsAt head 1 0xE0 = 0xE0 && bitsAt head 1 0x06 ≠ 0) then
    some ⟨"audio/mpeg", .audio⟩
  else if asciiAt head 4 "ftyp" then
    if audioBrands.any (asciiAt head 8) then
      some ⟨"audio/mp4", .audio⟩
    else if asciiAt head 8 "qt  " then
      some ⟨"video/quicktime", .video⟩
    else if asciiAt head 8 "avif" || asciiAt head 8 "avis" then
      some ⟨"image/avif", .image⟩
    else
      some ⟨"video/mp4", .video⟩
  else if startsWith head [0x1A, 0x45, 0xDF, 0xA3] 0 then
    if saysWebm (head.take 64) then
      some ⟨"video/webm", .video⟩
    else
      some ⟨"video/x-matroska", .video⟩
  else if startsWith head [0x89, 0x50, 0x4E, 0x47, 0x0D, 0x0A, 0x1A, 0x0A] 0
      then
    some ⟨"image/png", .image⟩
  else if startsWith head [0xFF, 0xD8, 0xFF] 0 then
    some ⟨"image/jpeg", .image⟩
  else if asciiAt head 0 "GIF87a" || asciiAt head 0 "GIF89a" then
    some ⟨"image/gif", .image⟩
  else if isSvgHead (textHead head) then
    some ⟨"image/svg+xml", .vector⟩
  else if ['{'].isPrefixOf (textHead head) then
    some ⟨"application/json", .vector⟩
  else
    none

/-! ## Images within a text -/

/-- The code units of a text of the program. -/
def unitsOfText (text : String) : List ℕ :=
  text.toList.map Char.toNat

/-- The digits of an encoding with six bits a character. -/
def base64Digits : List ℕ :=
  unitsOfText
    "ABCDEFGHIJKLMNOPQRSTUVWXYZabcdefghijklmnopqrstuvwxyz0123456789+/"

/-- The character that fills up the last group. -/
def base64Pad : ℕ := 0x3D

/-- The character of six bits. -/
def base64Digit (bits : ℕ) : ℕ :=
  base64Digits.getD bits 0

/-- Encode bytes, six bits a character. -/
def base64Encode : Bytes → List ℕ
  | [] =>
      []
  | [first] =>
      let bits := first.toNat * 16
      [base64Digit (bits / 64), base64Digit (bits % 64), base64Pad, base64Pad]
  | [first, second] =>
      let bits := (first.toNat * 256 + second.toNat) * 4
      [base64Digit (bits / 4096), base64Digit (bits / 64 % 64),
        base64Digit (bits % 64), base64Pad]
  | first :: second :: third :: rest =>
      let bits := (first.toNat * 256 + second.toNat) * 256 + third.toNat
      base64Digit (bits / 262144) :: base64Digit (bits / 4096 % 64) ::
        base64Digit (bits / 64 % 64) :: base64Digit (bits % 64) ::
          base64Encode rest

/-- The bytes of some bits, the highest ones first. -/
def bytesOfBits (bits : ℕ) : ℕ → Bytes
  | 0 =>
      []
  | count + 1 =>
      UInt8.ofNat (bits / 256 ^ count) :: bytesOfBits bits count

/-- Decode characters of six bits; a text that is not the one of its bytes is
told by encoding them again. -/
def base64Decode : List ℕ → Bytes
  | first :: second :: third :: fourth :: rest =>
      let digit (character : ℕ) : ℕ := base64Digits.idxOf character
      if third = base64Pad then
        bytesOfBits ((digit first * 64 + digit second) / 16) 1
      else if fourth = base64Pad then
        bytesOfBits
          (((digit first * 64 + digit second) * 64 + digit third) / 4) 2
      else
        bytesOfBits
          (((digit first * 64 + digit second) * 64 + digit third) * 64 +
            digit fourth) 3 ++ base64Decode rest
  | _ =>
      []

/-- The image types that may stand within a text. -/
def embeddedTypes : List String :=
  ["image/png", "image/jpeg", "image/gif", "image/webp"]

/-- What a text is made of that the pattern of an embedded image matches. -/
def matchEmbedded (text : List ℕ) : Option (String × List ℕ) :=
  embeddedTypes.findSome? fun contentType =>
    let opening := unitsOfText "data:" ++ unitsOfText contentType ++
      unitsOfText ";base64,"
    if opening.isPrefixOf text then
      let body := text.drop opening.length
      let pads := body.dropWhile (· ∈ base64Digits)
      if pads.length ≤ 2 && pads.all (· = base64Pad) then
        some (contentType, body)
      else
        none
    else
      none

/-- An image is one that can be sanitized. -/
def isStudioVectorImage (bytes : Bytes) : Bool :=
  (sniffStudioImport (bytes.take 1024)).any fun found => found.kind = .image

/-- An image within a text holds the bytes of an image of the type it names. -/
def isSafeEmbedded (text : List ℕ) : Bool :=
  match matchEmbedded text with
  | none =>
      false
  | some (contentType, body) =>
      let bytes := base64Decode body
      base64Encode bytes = body && isStudioVectorImage bytes &&
        (sniffStudioImport (bytes.take 1024)).any fun found =>
          found.contentType = contentType

/-! ## References -/

/-- What a reference stands for. -/
inductive Role where
  | image
  | font
  deriving Repr, DecidableEq

/-- Where a graphic names another file. -/
inductive Location where
  | lottieJson (entry : Option (List ℕ)) (pointer : List ℕ) (role : Role)
  | svg (elementPath : List ℕ) (spaceName localName : List ℕ) (role : Role)
  deriving Repr, DecidableEq

/-- A member of an object; what is no object has none. -/
def member (name : String) : Document → Option Document
  | .object entries =>
      (entries.find? fun entry => entry.1 = unitsOfText name).map Prod.snd
  | _ =>
      none

/-- A member of what may be missing. -/
def memberOf (name : String) (document : Option Document) : Option Document :=
  document.bind (member name)

/-- Whether a value is a string. -/
def isString : Document → Bool
  | .string _ =>
      true
  | _ =>
      false

/-- Whether a value is an array. -/
def isArray : Document → Bool
  | .array _ =>
      true
  | _ =>
      false

/-- The items of an array; what is no array has none. -/
def itemsOf : Option Document → List Document
  | some (.array items) =>
      items
  | _ =>
      []

/-- The values of what has members. -/
def valuesOf : Option Document → List Document
  | some (.object entries) =>
      entries.map Prod.snd
  | some (.array items) =>
      items
  | _ =>
      []

/-- How many bytes a graphic may have. -/
def STUDIO_IMPORT_VECTOR_MAX_BYTES : ℕ := 16 * 1024 * 1024

/-- A document is an animation, and not any object. -/
def isLottie (document : Document) : Bool :=
  isObject document && (member "layers" document).any isArray &&
    (member "v" document).any isString

/-- A slot names no image of its own. -/
def isPlainSlot (slot : Document) : Bool :=
  !((memberOf "p" (member "p" slot)).any isString) &&
    (memberOf "u" (member "p" slot)).isNone

/-- The reference of an asset, if it has one; there is no result when the asset
is refused. -/
def assetReference
    (index : ℕ)
    (asset : Document) : Option (List Location) :=
  if !isObject asset then
    none
  else
    match member "p" asset, member "u" asset with
    | none, _ =>
        some []
    | some (.string path), folder =>
        if folder.all isString then
          if (unitsOfText "data:").isPrefixOf path then
            if isSafeEmbedded path && folder.all (fun folder =>
                match folder with
                | .string units => units.isEmpty
                | _ => true) then
              some []
            else
              none
          else
            some [.lottieJson none
              (unitsOfText "/assets/" ++ unitsOfText index.repr ++
                unitsOfText "/p") .image]
        else
          none
    | some _, _ =>
        none

/-- The reference of a font, unless it is refused. -/
def fontReference
    (index : ℕ)
    (font : Document) : Option (List Location) :=
  if isObject font then
    some [.lottieJson none
      (unitsOfText "/fonts/list/" ++ unitsOfText index.repr ++
        unitsOfText "/fPath") .font]
  else
    none

/-- The references of several items, each with its index. -/
def references
    (reference : ℕ → Document → Option (List Location))
    (items : List Document) : Option (List Location) :=
  (items.zipIdx.mapM fun entry => reference entry.2 entry.1).map List.flatten

/-- The references that a document holds, unless it is refused. -/
def dependenciesOf (document : Document) : Option (List Location) := do
  let assets := member "assets" document
  let fonts := member "fonts" document
  guard (assets.all isArray)
  guard (fonts.all isObject)
  guard ((valuesOf (member "slots" document)).all isPlainSlot)
  let images ← references assetReference (itemsOf assets)
  let list := memberOf "list" fonts
  guard (list.all isArray)
  let fonts ← references fontReference (itemsOf list)
  return images ++ fonts

/-- The references of the text of a graphic, unless it is refused. -/
def parseStudioLottieDependencies (text : Text) : Option (List Location) := do
  guard ((encode text).length ≤ STUDIO_IMPORT_VECTOR_MAX_BYTES)
  let document ← parseJson text
  guard (isLottie document)
  guard (assertUnambiguousJson text = some true)
  dependenciesOf document

/-- The text of bytes that are one, without the mark before it. -/
def decodeStrictly (bytes : Bytes) : Option Text :=
  if encode (decode bytes) = bytes then some (dropMark (decode bytes))
  else none

/-- The references of a graphic, unless it is refused. -/
def assertStudioVectorParent
    (bytes : Bytes)
    (contentType : String) : Option (List Location) := do
  let text ← decodeStrictly bytes
  guard (contentType ∈ ["application/json", "application/x-lottie+json"])
  parseStudioLottieDependencies text

end Frameleaf.StudioVector
