import Mathlib.Data.List.DropRight
import Frameleaf.Lib.TornWrite
import Frameleaf.Lib.Utf8
import Frameleaf.Manager.Contracts

namespace Frameleaf.Manager

open TornWrite Utf8

/-!
# The autostart list of the host

The host starts one container for each line of a text.  Fencing removes lines
and recovery puts recorded ones back.  The file is overwritten in place under a
journal entry, and a pending entry is reconciled before anything else.
-/

/-- `\s`, which is also what `trim` removes -/
def isSpace (character : Char) : Bool :=
  let point := character.toNat
  (9 ≤ point && point ≤ 13) || point == 0x20 || point == 0xA0 ||
    point == 0x1680 || (0x2000 ≤ point && point ≤ 0x200A) ||
    point == 0x2028 || point == 0x2029 || point == 0x202F ||
    point == 0x205F || point == 0x3000 || point == 0xFEFF

/-- `line.trim()` -/
def trim
    (line : Text) : Text :=
  (line.dropWhile isSpace).rdropWhile isSpace

/-- `line.trim().split(/\s+/)[0]` -/
def autostartName
    (line : Text) : Text :=
  (trim line).takeWhile (!isSpace ·)

/-- `text.split('\n')` -/
def splitLines
    (text : Text) : List Text :=
  text.splitOn '\n'

/-- `lines.join('\n')` -/
def joinLines
    (lines : List Text) : Text :=
  ['\n'].intercalate lines

/-- Drop the lines of some names. -/
def removeAutostart
    (text : Text)
    (names : List Text) : Text :=
  joinLines ((splitLines text).filter fun line =>
    !names.contains (autostartName line))

/-- Put recorded lines back at the top, without names already listed. -/
def restoreAutostart
    (text : Text)
    (lines : List Text) : Text :=
  let present := (splitLines text).map autostartName
  let missing := lines.filter fun line =>
    !present.contains (autostartName line)
  if missing.isEmpty then text else joinLines (missing ++ [text])

/-- The first line of a name, trimmed, as it is recorded. -/
def recordedLine
    (lines : List Text)
    (name : Text) : Option Text :=
  (lines.find? fun line => autostartName line == name).map trim

/-- Where a service stands in the list; those not in it come last. -/
def position
    (lines : List Text)
    (recorded : Option Text) : ℕ :=
  match recorded with
  | none => lines.length
  | some line =>
      if line = [] then lines.length else (lines.map trim).idxOf line

/-- The lines recorded for services, in the order of the list. -/
def recordedLines
    (text : Text)
    (names : List Text) : List Text :=
  let lines := splitLines text
  let services := (names.map (recordedLine lines)).mergeSort
    fun first second => position lines first ≤ position lines second
  services.filterMap fun recorded => recorded.filter (· ≠ [])

/-- The file of the host and the journal entry of a write. -/
structure Host where
  file : List UInt8
  pending : Option (Text × Text) := none
deriving DecidableEq

/-- Where a write is interrupted. -/
inductive Stop where
  | bytes (count : ℕ)
  | truncated
deriving DecidableEq, Repr

/-- How a call ends. -/
inductive Ending where
  | done
  | refused (refusal : Refusal)
  | stopped
deriving DecidableEq

/-- The list was changed by another program. -/
def autostartChanged : Refusal where
  code := "autostart_changed"

/-- The list was changed after an interrupted write. -/
def autostartChangedAfterWrite : Refusal where
  code := "autostart_changed"
  detail := some ("The Unraid autostart list changed after an interrupted " ++
    "write. Follow “Recover an interrupted Unraid autostart update” in the " ++
    "Manager guide to save the current list, retrieve the recorded " ++
    "versions, and retry safely. Do not delete the pending journal or " ++
    "re-enable fenced services.")

/-- Write the new text over the file that reads as the expected text. -/
def writeAutostart
    (file : List UInt8)
    (text modified : Text)
    (stop : Option Stop) : List UInt8 × Ending :=
  let bytes := encode modified
  if decode file ≠ text then
    (file, .refused autostartChanged)
  else
    match stop with
    | some (.bytes count) =>
        (overwritten bytes file (min count bytes.length), .stopped)
    | some .truncated =>
        ((overwritten bytes file bytes.length).take bytes.length, .stopped)
    | none =>
        let written :=
          (overwritten bytes file bytes.length).take bytes.length
        if decode written ≠ modified then
          (written, .refused { code := "autostart_write_failed" })
        else
          (written, .done)

/-- Whether bytes are a start of the new text followed by the old one's rest. -/
def isPartlyWritten
    (text modified : Text)
    (actual : List UInt8) : Bool :=
  let shared := commonPrefix actual (encode modified)
  actual == overwritten (encode modified) (encode text) shared

/-- Finish the write of a pending journal entry. -/
def reconcileAutostart
    (host : Host)
    (stop : Option Stop) : Host × Ending :=
  match host.pending with
  | none =>
      (host, .done)
  | some (text, modified) =>
      let current := decode host.file
      if current = modified then
        ({ host with pending := none }, .done)
      else if current ≠ text ∧
          isPartlyWritten text modified (encode current) = false then
        (host, .refused autostartChangedAfterWrite)
      else
        match writeAutostart host.file current modified stop with
        | (file, .done) =>
            ({ host with file := file, pending := none }, .done)
        | (file, ending) =>
            ({ host with file := file }, ending)

/-- Change the list, under a journal entry. -/
def rewriteAutostart
    (host : Host)
    (change : Text → Text)
    (stop : Option Stop) : Host × Ending :=
  match reconcileAutostart host none with
  | (host, .done) =>
      let text := decode host.file
      let modified := change text
      if modified = text then
        (host, .done)
      else
        match writeAutostart host.file text modified stop with
        | (file, .done) =>
            ({ host with file := file, pending := none }, .done)
        | (file, .refused refusal) =>
            ({ host with
                file := file
                pending :=
                  if refusal.code = "autostart_changed" then
                    none
                  else
                    some (text, modified) },
              .refused refusal)
        | (file, .stopped) =>
            ({ host with file := file, pending := some (text, modified) },
              .stopped)
  | (host, ending) =>
      (host, ending)

end Frameleaf.Manager
