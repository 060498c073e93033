import Frameleaf.Manager.Autostart

namespace Frameleaf.Manager

open TornWrite Utf8

/-!
# Interrupted rewrites of the autostart list

However often the write is interrupted, the file holds what a torn write can
leave.  The manager reads the file as UTF-8 and judges what it read, so it is
right exactly where reading does not move the bytes into or out of those
states.
-/

/-- A new list started over an old one and interrupted again and again. -/
def interrupted
    (text modified : Text) : List Stop → Host
  | [] => { file := encode text, pending := some (text, modified) }
  | stop :: later =>
      let first :=
        (rewriteAutostart { file := encode text } (fun _ => modified)
          (some stop)).1
      later.foldl (fun host stop => (reconcileAutostart host (some stop)).1)
        first

/-- What any number of interruptions leaves of the file. -/
def LeftBy
    (text modified : Text)
    (file : List UInt8) : Prop :=
  ∃ stops, (interrupted text modified stops).file = file

variable {text modified : Text}

theorem torn_writeAutostart
    {expected : Text}
    {file : List UInt8}
    (torn : Torn (encode modified) (encode text) file)
    (stop : Option Stop) :
    Torn (encode modified) (encode text)
      (writeAutostart file expected modified stop).1 := by
  simp only [writeAutostart]
  split
  · exact torn
  · cases stop with
    | none =>
        simp only [take_overwritten_length, decode_encode, ne_eq,
          not_true_eq_false, if_false]
        exact .truncated
    | some stop =>
        cases stop with
        | bytes count =>
            exact .cut _ torn (Nat.min_le_right ..)
        | truncated =>
            simp only [take_overwritten_length]
            exact .truncated

/-- A journaled rewrite that is under way, or done with. -/
structure UnderWay
    (text modified : Text)
    (host : Host) : Prop where
  torn : Torn (encode modified) (encode text) host.file
  journal : host.pending = some (text, modified) ∨ host.pending = none

theorem underWay_reconcile
    {host : Host}
    (underWay : UnderWay text modified host)
    (stop : Option Stop) :
    UnderWay text modified (reconcileAutostart host stop).1 := by
  rcases underWay.journal with pending | none
  · simp only [reconcileAutostart, pending]
    have written :=
      @torn_writeAutostart _ _ (decode host.file) _ underWay.torn stop
    split
    · exact ⟨underWay.torn, .inr rfl⟩
    · split
      · exact underWay
      · split
        · next file same =>
            rw [same] at written
            exact ⟨written, .inr rfl⟩
        · next file ending same =>
            rw [same] at written
            exact ⟨written, .inl rfl⟩
  · simp only [reconcileAutostart, none]
    exact underWay

theorem underWay_rewrite
    (text modified : Text)
    (stop : Option Stop) :
    UnderWay text modified
      (rewriteAutostart { file := encode text } (fun _ => modified)
        stop).1 := by
  simp only [rewriteAutostart, reconcileAutostart, decode_encode]
  have written :=
    @torn_writeAutostart text modified text (encode text) .untouched stop
  split
  · exact ⟨.untouched, .inr rfl⟩
  · split
    · next file same =>
        rw [same] at written
        exact ⟨written, .inr rfl⟩
    · next file refusal same =>
        rw [same] at written
        refine ⟨written, ?_⟩
        dsimp only
        split
        · exact .inr rfl
        · exact .inl rfl
    · next file same =>
        rw [same] at written
        exact ⟨written, .inl rfl⟩

theorem underWay_interrupted
    (text modified : Text)
    (stops : List Stop) :
    UnderWay text modified (interrupted text modified stops) := by
  cases stops with
  | nil =>
      exact ⟨.untouched, .inl rfl⟩
  | cons stop later =>
      have first := underWay_rewrite text modified (some stop)
      simp only [interrupted]
      generalize
        (rewriteAutostart { file := encode text } (fun _ => modified)
          (some stop)).1 = host at first ⊢
      induction later generalizing host with
      | nil =>
          exact first
      | cons next rest inductionHypothesis =>
          exact inductionHypothesis _ (underWay_reconcile first (some next))

theorem leftBy_iff
    {file : List UInt8} :
    LeftBy text modified file ↔
      Torn (encode modified) (encode text) file := by
  constructor
  · rintro ⟨stops, rfl⟩
    exact (underWay_interrupted text modified stops).torn
  · intro torn
    by_cases same : modified = text
    · subst same
      refine ⟨[], ?_⟩
      rcases torn_iff.mp torn with rfl | ⟨count, _, rfl⟩
      · rfl
      · exact (List.take_append_drop count (encode modified)).symm
    · rcases torn_iff.mp torn with rfl | ⟨count, within, rfl⟩
      · refine ⟨[.truncated], ?_⟩
        simp [interrupted, rewriteAutostart, reconcileAutostart, same,
          writeAutostart]
      · refine ⟨[.bytes count], ?_⟩
        simp [interrupted, rewriteAutostart, reconcileAutostart, same,
          writeAutostart, within]

/-- What a reader of a file would write again. -/
def reading
    (file : List UInt8) : List UInt8 :=
  encode (decode file)

theorem reading_eq_encode_iff
    {file : List UInt8} :
    reading file = encode text ↔ decode file = text := by
  constructor
  · intro same
    rw [← decode_encode (decode file), ← decode_encode text]
    exact congrArg decode same
  · rintro rfl
    rfl

/-- A text's own bytes read as themselves. -/
@[simp] theorem reading_encode
    (text : Text) : reading (encode text) = encode text := by
  rw [reading, decode_encode]

theorem torn_iff_isPartlyWritten
    {actual : List UInt8}
    (notDone : actual ≠ encode modified) :
    Torn (encode modified) (encode text) actual ↔
      isPartlyWritten text modified actual = true := by
  rw [torn_iff_commonPrefix, isPartlyWritten, beq_iff_eq]
  simp [notDone]

theorem reconcile_of_reading
    {file : List UInt8}
    (notDone : decode file ≠ modified) :
    reconcileAutostart ⟨file, some (text, modified)⟩ none =
      if Torn (encode modified) (encode text) (reading file) then
        (⟨encode modified, none⟩, .done)
      else
        (⟨file, some (text, modified)⟩,
          .refused autostartChangedAfterWrite) := by
  have readsOther : reading file ≠ encode modified := by
    rwa [Ne, reading_eq_encode_iff]
  have partly := @torn_iff_isPartlyWritten text _ _ readsOther
  simp only [reconcileAutostart, notDone, if_false]
  by_cases torn : Torn (encode modified) (encode text) (reading file)
  · have notRefused :
        ¬(decode file ≠ text ∧
          isPartlyWritten text modified (reading file) = false) := by
      rintro ⟨_, notPartly⟩
      rw [partly.mp torn] at notPartly
      cases notPartly
    rw [if_pos torn]
    simp only [reading] at notRefused
    simp [notRefused, writeAutostart]
  · have otherText : decode file ≠ text := by
      rintro rfl
      exact torn .untouched
    have notPartly :
        isPartlyWritten text modified (encode (decode file)) = false := by
      rw [Bool.eq_false_iff]
      exact fun isPartly => torn (partly.mpr isPartly)
    simp [torn, otherText, notPartly]

/-- The manager does with a file it finds what it should. -/
structure Reconciles
    (text modified : Text)
    (found : List UInt8) : Prop where
  accepts :
    LeftBy text modified found →
      reconcileAutostart ⟨found, some (text, modified)⟩ none =
        (⟨encode modified, none⟩, .done)
  refuses :
    ¬LeftBy text modified found →
      reconcileAutostart ⟨found, some (text, modified)⟩ none =
        (⟨found, some (text, modified)⟩, .refused autostartChangedAfterWrite)

/-- Reading a file as UTF-8 does not change what it counts as. -/
structure ReadsAsItIs
    (text modified : Text)
    (found : List UInt8) : Prop where
  written : reading found = encode modified → found = encode modified
  torn :
    Torn (encode modified) (encode text) (reading found) ↔
      Torn (encode modified) (encode text) found

theorem readsAsItIs_encode
    (text modified found : Text) :
    ReadsAsItIs text modified (encode found) := by
  constructor <;> simp

/-- The manager is right about a file exactly when it reads as it is. -/
theorem reconciles_iff
    {found : List UInt8} :
    Reconciles text modified found ↔ ReadsAsItIs text modified found := by
  by_cases isDone : decode found = modified
  · have readsDone : reading found = encode modified :=
      reading_eq_encode_iff.mpr isDone
    have accepted :
        reconcileAutostart ⟨found, some (text, modified)⟩ none =
          (⟨found, none⟩, .done) := by
      simp [reconcileAutostart, isDone]
    constructor
    · intro reconciles
      have left : LeftBy text modified found := by
        by_contra notLeft
        have refused := reconciles.refuses notLeft
        rw [accepted] at refused
        simp at refused
      have same : found = encode modified := by
        have ended := reconciles.accepts left
        rw [accepted] at ended
        simpa using ended
      subst same
      exact readsAsItIs_encode text modified modified
    · intro readsAsItIs
      have same := readsAsItIs.written readsDone
      subst same
      refine ⟨fun _ => accepted, ?_⟩
      intro notLeft
      exact absurd (leftBy_iff.mpr .truncated) notLeft
  · have notWritten : reading found ≠ encode modified := by
      rwa [Ne, reading_eq_encode_iff]
    have judged := @reconcile_of_reading text _ _ isDone
    constructor
    · intro reconciles
      refine ⟨fun same => absurd same notWritten, ?_⟩
      by_cases torn : Torn (encode modified) (encode text) (reading found)
      · rw [if_pos torn] at judged
        refine ⟨fun _ => ?_, fun _ => torn⟩
        by_contra notTorn
        have refused :=
          reconciles.refuses (fun left => notTorn (leftBy_iff.mp left))
        rw [judged] at refused
        simp at refused
      · rw [if_neg torn] at judged
        refine ⟨fun isTorn => absurd isTorn torn, fun foundTorn => ?_⟩
        have accepted := reconciles.accepts (leftBy_iff.mpr foundTorn)
        rw [judged] at accepted
        simp at accepted
    · intro readsAsItIs
      constructor
      · intro left
        have torn := readsAsItIs.torn.mpr (leftBy_iff.mp left)
        rw [judged, if_pos torn]
      · intro notLeft
        have notTorn :
            ¬Torn (encode modified) (encode text) (reading found) :=
          fun torn => notLeft (leftBy_iff.mpr (readsAsItIs.torn.mp torn))
        rw [judged, if_neg notTorn]

end Frameleaf.Manager
