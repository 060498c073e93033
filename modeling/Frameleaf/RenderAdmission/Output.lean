import Frameleaf.Lib.Number
import Mathlib.Logic.Function.Basic

namespace Frameleaf.RenderAdmission

/-!
# Values of settings and the table of export formats

Settings are records of which nothing is known; a name that a record does not
have is undefined.  One table names what every export format writes.
-/

/-- A value of which nothing is known. -/
inductive Unknown where
  | null
  | boolean (value : Bool)
  | number (value : Number)
  | string (value : String)
  | array (items : List Unknown)
  | object (fields : String → Option Unknown)

/-- A record of unknown values. -/
abbrev Record :=
  String → Option Unknown

/-- The text that a value is. -/
def asString : Option Unknown → Option String
  | some (.string value) => some value
  | _ => none

/-- The value is this text. -/
def isText
    (value : Option Unknown)
    (text : String) : Bool :=
  asString value = some text

/-- A field of a value, where it has fields. -/
def field
    (value : Option Unknown)
    (name : String) : Option Unknown :=
  match value with
  | some (.object fields) => fields name
  | _ => none

/-- What an export format writes. -/
inductive StudioExportFormatKind where
  | video
  | audio
  | still
deriving DecidableEq, Repr

/-- An export format: its stream, its container and who can write it. -/
structure StudioExportFormatSpec where
  kind : StudioExportFormatKind
  container : String
  codec : String
  contentType : String
  extension : String
  bitDepth : ℕ
  writers : List String
  combination : Bool
  textTrack : Option String := none
deriving DecidableEq, Repr

/-- A container and the text track it can carry. -/
structure Box where
  container : String
  contentType : String
  extension : String
  textTrack : String

/-- Encoders of H.264. -/
def h264 : List String :=
  ["webcodecs-avc", "libx264", "h264_nvenc", "h264_qsv", "h264_vaapi",
    "h264_videotoolbox", "h264_amf", "h264_rkmpp", "h264_v4l2m2m"]

/-- Encoders of HEVC. -/
def hevc : List String :=
  ["libx265", "hevc_nvenc", "hevc_qsv", "hevc_vaapi", "hevc_videotoolbox",
    "hevc_amf", "hevc_rkmpp", "hevc_v4l2m2m"]

/-- Encoders of AV1. -/
def av1 : List String :=
  ["libsvtav1", "libaom-av1", "librav1e", "av1_nvenc", "av1_qsv",
    "av1_vaapi", "av1_amf"]

/-- Encoders of VP8. -/
def vp8 : List String :=
  ["libvpx", "vp8_vaapi", "vp8_qsv"]

/-- Encoders of VP9. -/
def vp9 : List String :=
  ["libvpx-vp9", "vp9_vaapi", "vp9_qsv"]

/-- Encoders of ProRes. -/
def prores : List String :=
  ["prores_ks", "prores", "prores_aw", "prores_videotoolbox"]

/-- The MP4 container. -/
def mp4 : Box :=
  ⟨"mp4", "video/mp4", ".mp4", "mov_text"⟩

/-- The QuickTime container. -/
def mov : Box :=
  ⟨"mov", "video/quicktime", ".mov", "mov_text"⟩

/-- The Matroska container. -/
def mkv : Box :=
  ⟨"mkv", "video/x-matroska", ".mkv", "subrip"⟩

/-- The WebM container. -/
def webm : Box :=
  ⟨"webm", "video/webm", ".webm", "webvtt"⟩

/-- A video format. -/
def video
    (box : Box)
    (codec : String)
    (writers : List String)
    (bitDepth : ℕ)
    (combination : Bool) : StudioExportFormatSpec where
  kind := .video
  container := box.container
  codec
  contentType := box.contentType
  extension := box.extension
  bitDepth
  writers
  combination
  textTrack := some box.textTrack

/-- A format of sound alone. -/
def audio
    (container codec contentType extension : String)
    (writers : List String) : StudioExportFormatSpec where
  kind := .audio
  container
  codec
  contentType
  extension
  bitDepth := 8
  writers
  combination := true

/-- A format of one picture. -/
def still
    (container writer contentType extension : String)
    (bitDepth : ℕ) : StudioExportFormatSpec where
  kind := .still
  container
  codec := container
  contentType
  extension
  bitDepth
  writers := [writer]
  combination := false

/-- Every export format. -/
def studioExportFormatSpecs : List (String × StudioExportFormatSpec) :=
  [("mp4-hevc-main10", video mp4 "hevc" hevc 10 false),
    ("mp4-h264", video mp4 "h264" h264 8 false),
    ("webm-av1", video webm "av1" av1 10 false),
    ("prores-422-hq", video mov "prores" prores 10 false),
    ("sdr-jpeg", still "jpeg" "frameleaf-sdr-jpeg" "image/jpeg" ".jpg" 8),
    ("hdr-jpeg",
      still "jpeg" "frameleaf-ultrahdr-jpeg" "image/jpeg" ".jpg" 10),
    ("hdr-heic", still "heic" "frameleaf-heic-pq" "image/heic" ".heic" 10),
    ("mp4-hevc", video mp4 "hevc" hevc 8 true),
    ("mp4-av1", video mp4 "av1" av1 8 true),
    ("mov-h264", video mov "h264" h264 8 true),
    ("mov-hevc", video mov "hevc" hevc 8 true),
    ("mov-prores-422", video mov "prores" prores 8 true),
    ("mkv-h264", video mkv "h264" h264 8 true),
    ("mkv-hevc", video mkv "hevc" hevc 8 true),
    ("mkv-vp8", video mkv "vp8" vp8 8 true),
    ("mkv-vp9", video mkv "vp9" vp9 8 true),
    ("mkv-av1", video mkv "av1" av1 8 true),
    ("webm-vp8", video webm "vp8" vp8 8 true),
    ("webm-vp9", video webm "vp9" vp9 8 true),
    ("webm-av1-sdr", video webm "av1" av1 8 true),
    ("audio-mp3", audio "mp3" "mp3" "audio/mpeg" ".mp3" ["libmp3lame"]),
    ("audio-aac",
      audio "m4a" "aac" "audio/mp4" ".m4a" ["aac", "libfdk_aac", "aac_at"]),
    ("audio-wav",
      audio "wav" "pcm_s16le" "audio/wav" ".wav" ["pcm_s16le"])]

/-- The export format that a value names. -/
def studioExportFormatSpec
    (format : Option Unknown) : Option StudioExportFormatSpec :=
  (asString format).bind (fun name => List.lookup name studioExportFormatSpecs)

/-- The evidence that a worker derives and renders shaped graphs. -/
def reframeProfile : String :=
  "reframe-v1"

/-- The evidence that a worker renders landscape shapes. -/
def landscapeReframeProfile : String :=
  "reframe-landscape-v1"

/-- The value names a shape other than the original. -/
def isReframeShape
    (shape : Option Unknown) : Bool :=
  isText shape "landscape" || isText shape "vertical" || isText shape "square"

/-!
## What an export needs and which machines can render it

The settings of an export say which encoders, container and memory it needs.
An export is offered when one machine has proved all of it.
-/

/-- How the language lowers letters and turns other values into numbers. -/
structure Language where
  toLowerCase : String → String
  toNumber : Unknown → Number

/-- What the output of a job needs. -/
structure RequiredOutput where
  format : String
  codec : List String
  container : String
  profiles : Option (List String) := none
  subtitleCodec : Option String := none
  combination : Bool := false
  reframe : Bool := false
  landscapeReframe : Bool := false
deriving DecidableEq, Repr

/-- The paired profile that older workers name for captions beside the video. -/
def legacySidecarProfile : String :=
  "mp4-h264+srt-sidecar-v1"

/-- The paired profile that older workers name for captions in the video. -/
def legacyEmbeddedProfile : String :=
  "mp4-h264+mov-text-v1"

/-- The profile of a worker that writes captions beside the video. -/
def sidecarProfile : String :=
  "srt-sidecar-v2"

/-- The profile of a worker that writes captions into the video. -/
def embeddedProfile : String :=
  "embedded-text-v2"

/-- The profile of a worker that writes ten bits of a standard picture. -/
def sdrTenBitProfile : String :=
  "sdr-10bit-v1"

/-- An output that nothing can write. -/
def impossible
    (format : Option Unknown) : RequiredOutput where
  format := (asString format).getD ""
  codec := []
  container := ""

/-- What the format and the captions of some settings need. -/
def requiredFormatOutput
    (settings : Record) : Option RequiredOutput :=
  let format := settings "format"
  let mode := settings "subtitleMode"
  let sidecar := isText mode "sidecar"
  let embedded := isText mode "embedded"
  if mode.isSome && !isText mode "burn" && !isText mode "off" && !sidecar &&
      !embedded then
    some (impossible format)
  else
    match asString format with
    | none =>
        if sidecar || embedded then some (impossible format) else none
    | some "" =>
        if sidecar || embedded then some (impossible format) else none
    | some name =>
        match studioExportFormatSpec format with
        | none =>
            some { format := name, codec := [], container := name }
        | some spec =>
            if spec.kind = .audio ∧ mode.isSome ∧ !isText mode "off" then
              some (impossible format)
            else
              let base : RequiredOutput := {
                format := name
                codec := spec.writers
                container := spec.container
                combination := spec.combination }
              if !sidecar && !embedded then
                some base
              else if spec.kind ≠ .video ∨ spec.bitDepth ≠ 8 ∨
                  !isText (settings "color") "preserve" ∨
                  (embedded ∧ spec.textTrack = none) then
                some (impossible format)
              else
                let orElse (value : Option Unknown) (text : String) : Bool :=
                  match value with
                  | none => true
                  | some .null => true
                  | some _ => isText value text
                let legacy := name = "mp4-h264" &&
                  isText (settings "resolution") "720p" &&
                  orElse (settings "quality") "high" &&
                  orElse (settings "audio") "preserve"
                if sidecar then
                  some { base with
                    profiles := some (if legacy then
                      [legacySidecarProfile, sidecarProfile]
                    else [sidecarProfile]) }
                else
                  some { base with
                    profiles := some (if legacy then
                      [legacyEmbeddedProfile, embeddedProfile]
                    else [embeddedProfile])
                    subtitleCodec := spec.textTrack }

/-- What some settings need, or nothing when they name no format. -/
def requiredOutput
    (settings : Record) : Option RequiredOutput :=
  match requiredFormatOutput settings with
  | none => none
  | some output =>
      let shape := settings "shape"
      if shape.isNone || isText shape "original" then
        some output
      else
        let spec := studioExportFormatSpec (some (.string output.format))
        let shaped := spec.any
          (fun spec => spec.kind = .video && spec.bitDepth = 8)
        if !isReframeShape shape || !shaped ||
            !isText (settings "color") "preserve" then
          some (impossible (some (.string output.format)))
        else
          some { output with
            reframe := true
            landscapeReframe := isText shape "landscape" }

/-- The encoders and containers that a conformance check verified. -/
structure Capabilities where
  codecs : List String
  formats : List String
deriving DecidableEq, Repr

/-- The evidence names one of the encoders and the container. -/
def provesOutput
    (language : Language)
    (capabilities : Option Capabilities)
    (output : RequiredOutput) : Bool :=
  match capabilities with
  | none => false
  | some capabilities =>
      let codecs := capabilities.codecs.map language.toLowerCase
      let formats := capabilities.formats.map language.toLowerCase
      !output.codec.isEmpty &&
        output.codec.any (fun encoder => codecs.contains encoder) &&
        output.subtitleCodec.all (fun codec => codecs.contains codec) &&
        formats.contains output.container &&
        (!output.combination ||
          capabilities.formats.contains output.format) &&
        output.profiles.all (fun profiles =>
          profiles.any (fun profile =>
            capabilities.formats.contains profile)) &&
        (!output.reframe || capabilities.formats.contains reframeProfile) &&
        (!output.landscapeReframe ||
          capabilities.formats.contains landscapeReframeProfile)

/-- The memory that a render at each resolution needs. -/
def renderMemoryByResolution : List (String × ℕ) :=
  [("720p", 2 * 1024 ^ 3), ("1080p", 4 * 1024 ^ 3), ("1440p", 6 * 1024 ^ 3),
    ("2160p", 8 * 1024 ^ 3), ("original", 8 * 1024 ^ 3)]

/-- The memory that an export needs; sound alone needs the smallest. -/
def renderMemoryOf
    (settings : Record) : Option ℕ :=
  let isAudio := (studioExportFormatSpec (settings "format")).any
    (fun spec => spec.kind = .audio)
  let resolution :=
    if isAudio then some "720p" else asString (settings "resolution")
  resolution.bind (fun name => List.lookup name renderMemoryByResolution)

/-- The colour that a conformance check verified. -/
structure RenderColorPrecision where
  maxBitDepth : Number
  hdr10 : Bool
  dolbyVision : Bool

/-- Eight bits of a standard picture. -/
def sdrOnly : RenderColorPrecision where
  maxBitDepth := .finite 8
  hdr10 := false
  dolbyVision := false

/-- A machine that an export may be offered for. -/
structure RenderOutputCandidate where
  gpuMemoryBytes : Option Number
  codecs : List String
  formats : Option (List String)
  colorPrecision : Option RenderColorPrecision
  engineDigest : Option String

/-- The evidence that a format was written with the hybrid transfer. -/
def hdrMasterEvidence
    (format : String) : String :=
  format ++ "+hlg"

/-- The picture precision that a format promises. -/
def formatBitDepth
    (format : Option Unknown) : ℕ :=
  ((studioExportFormatSpec format).map (·.bitDepth)).getD 8

/-- What the language takes for true. -/
def truthy : Option Unknown → Bool
  | none => false
  | some .null => false
  | some (.boolean value) => value
  | some (.number value) => value.isSome && value ≠ .finite 0
  | some (.string value) => value ≠ ""
  | some (.array _) => true
  | some (.object _) => true

/-- The value is the null value. -/
def isNull : Option Unknown → Bool
  | some .null => true
  | _ => false

/-- A machine can keep the colour that a request asks for. -/
def colorSupported
    (language : Language)
    (request : Record)
    (candidate : RenderOutputCandidate) : Bool :=
  let color := request "color"
  let format := request "format"
  let transfer := request "transfer"
  let minBitDepth := match request "minBitDepth" with
    | none => .finite 8
    | some (.number value) => value
    | some other => language.toNumber other
  let formats := candidate.formats.getD []
  let precision := candidate.colorPrecision.getD sdrOnly
  if isText format "hdr-jpeg" || isText format "hdr-heic" then
    Number.le (.finite 10) precision.maxBitDepth && precision.hdr10
  else
    let depth := Number.max
      (Number.max
        (Number.max (.finite (formatBitDepth format))
          (.finite (if isText color "preserve" then 8 else 10)))
        minBitDepth)
      (.finite (if truthy transfer then 10 else 8))
    let tenBitVideo := (studioExportFormatSpec format).any
      (fun spec => 8 < spec.bitDepth && spec.kind = .video)
    if precision.maxBitDepth.lt depth then
      false
    else if isNull transfer && tenBitVideo &&
        !formats.contains sdrTenBitProfile then
      false
    else if isText transfer "arib-std-b67" &&
        !formats.contains (hdrMasterEvidence ((asString format).getD "")) then
      false
    else if isText color "hdr10" || isText transfer "smpte2084" then
      precision.hdr10
    else if isText color "dolby-vision" then
      precision.dolbyVision
    else
      true

/-- Why no machine can render an export as asked. -/
inductive RenderOutputRefusal where
  | noQualifiedWorker
  | insufficientMemory
  | incompatibleColor
  | codecUnavailable
deriving DecidableEq, Repr

/-- A machine has verified the memory that an export needs. -/
def hasMemory
    (needed : ℕ)
    (candidate : RenderOutputCandidate) : Bool :=
  candidate.gpuMemoryBytes.any (fun bytes =>
    bytes.isSafeInteger && Number.le (.finite needed) bytes)

/-- A machine has proved the output that an export needs. -/
def hasCodec
    (language : Language)
    (output : Option RequiredOutput)
    (candidate : RenderOutputCandidate) : Bool :=
  output.any (fun output =>
    (output.profiles.isNone ||
      (candidate.engineDigest.getD "" ≠ "" : Bool)) &&
      provesOutput language
        (some ⟨candidate.codecs, candidate.formats.getD []⟩) output)

/-- Why no machine can render this export; nothing where one can. -/
def evaluateRenderOutput
    (language : Language)
    (candidates : List RenderOutputCandidate)
    (request : Record) : Option RenderOutputRefusal :=
  if candidates.isEmpty then
    some .noQualifiedWorker
  else
    match renderMemoryOf request with
    | none => some .insufficientMemory
    | some neededMemory =>
        let withMemory := candidates.filter (hasMemory neededMemory)
        let withCodec :=
          withMemory.filter (hasCodec language (requiredOutput request))
        let withColor := withCodec.filter (colorSupported language request)
        if withMemory.isEmpty then
          some .insufficientMemory
        else if withCodec.isEmpty then
          some .codecUnavailable
        else if withColor.isEmpty then
          some .incompatibleColor
        else
          none

end Frameleaf.RenderAdmission
