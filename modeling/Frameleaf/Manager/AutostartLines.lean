import Mathlib.Data.List.Nodup
import Frameleaf.Manager.AutostartLaws

namespace Frameleaf.Manager

open TornWrite Utf8

/-!
# Lines taken off the autostart list and put back

A line is known by its first word.  Taking names off and putting recorded lines
back are each idempotent, and what is put back after it was taken off is there
once, above all the other lines.
-/

section Words

variable {line : Text}

theorem takeWhile_rdropWhile
    (line : Text) :
    (line.rdropWhile isSpace).takeWhile (!isSpace ·) =
      line.takeWhile (!isSpace ·) := by
  induction line using List.reverseRecOn with
  | nil =>
      simp
  | append_singleton earlier last inductionHypothesis =>
      by_cases space : isSpace last = true
      · rw [List.rdropWhile_concat_pos _ _ _ space, inductionHypothesis,
          List.takeWhile_append]
        split
        · next whole =>
            rw [List.takeWhile_cons_of_neg (by simp [space]),
              List.append_nil]
            exact List.takeWhile_eq_self_iff.mpr
              (List.takeWhile_eq_self_iff.mp
                ((List.takeWhile_prefix _).eq_of_length whole))
        · rfl
      · rw [List.rdropWhile_concat_neg _ _ _ space]

theorem autostartName_eq :
    autostartName line =
      (line.dropWhile isSpace).takeWhile (!isSpace ·) :=
  takeWhile_rdropWhile _

theorem autostartName_cons_space
    {character : Char}
    (space : isSpace character = true) :
    autostartName (character :: line) = autostartName line := by
  rw [autostartName_eq, autostartName_eq, List.dropWhile_cons_of_pos space]

theorem autostartName_cons_word
    {character : Char}
    (word : isSpace character = false) :
    autostartName (character :: line) =
      character :: line.takeWhile (!isSpace ·) := by
  rw [autostartName_eq, List.dropWhile_cons_of_neg (by simp [word]),
    List.takeWhile_cons_of_pos (by simp [word])]

theorem dropWhile_trim :
    (trim line).dropWhile isSpace = trim line := by
  rw [trim]
  cases trimmed : (line.dropWhile isSpace).rdropWhile isSpace with
  | nil =>
      rfl
  | cons first rest =>
      have isPrefix :
          (line.dropWhile isSpace).rdropWhile isSpace <+:
            line.dropWhile isSpace :=
        List.rdropWhile_prefix isSpace _
      obtain ⟨dropped, whole⟩ := isPrefix
      rw [trimmed] at whole
      have word : isSpace first = false := by
        have head := List.head?_dropWhile_not isSpace line
        rw [← whole] at head
        simpa using head
      exact List.dropWhile_cons_of_neg (by simp [word])

theorem autostartName_trim :
    autostartName (trim line) = autostartName line := by
  rw [autostartName_eq, dropWhile_trim, autostartName]

theorem autostartName_ne_nil
    (kept : trim line ≠ []) :
    autostartName line ≠ [] := by
  rw [← autostartName_trim, autostartName_eq, dropWhile_trim]
  cases trimmed : trim line with
  | nil =>
      exact absurd trimmed kept
  | cons first rest =>
      have noSpace := @dropWhile_trim line
      rw [trimmed] at noSpace
      have word : isSpace first = false := by
        rw [Bool.eq_false_iff]
        intro space
        rw [List.dropWhile_cons_of_pos space] at noSpace
        have isSuffix : rest.dropWhile isSpace <:+ rest :=
          List.dropWhile_suffix isSpace
        have shorter := isSuffix.length_le
        rw [noSpace] at shorter
        exact absurd shorter (Nat.not_succ_le_self _)
      simp [word]

end Words

section Lines

variable {text line : Text} {lines : List Text}

theorem splitLines_ne_nil : splitLines text ≠ [] :=
  List.splitOn_ne_nil _ _

theorem splitLines_cons
    (character : Char) :
    splitLines (character :: text) =
      if character = '\n' then
        [] :: splitLines text
      else
        (splitLines text).modifyHead (character :: ·) := by
  rw [splitLines, List.splitOn_cons_eq_if_modifyHead]
  simp only [beq_iff_eq]
  rfl

theorem newline_notMem
    (member : line ∈ splitLines text) :
    '\n' ∉ line := by
  induction text generalizing line with
  | nil =>
      have empty : line = [] := by
        simpa [splitLines, List.splitOn_nil] using member
      simp [empty]
  | cons character rest inductionHypothesis =>
      rw [splitLines_cons] at member
      split at member
      · rcases List.mem_cons.mp member with rfl | inRest
        · simp
        · exact inductionHypothesis inRest
      · next noBreak =>
          cases isSplit : splitLines rest with
          | nil =>
              exact absurd isSplit splitLines_ne_nil
          | cons first others =>
              rw [isSplit, List.modifyHead_cons] at member
              rcases List.mem_cons.mp member with rfl | inOthers
              · have clean : '\n' ∉ first :=
                  inductionHypothesis (by simp [isSplit])
                simp [clean, Ne.symm noBreak]
              · exact inductionHypothesis (by simp [isSplit, inOthers])

theorem splitLines_joinLines
    (some : lines ≠ [])
    (clean : ∀ line ∈ lines, '\n' ∉ line) :
    splitLines (joinLines lines) = lines :=
  List.splitOn_intercalate '\n' clean some

theorem splitLines_joinLines_append :
    splitLines (joinLines (lines ++ [text])) =
      lines.flatMap splitLines ++ splitLines text := by
  induction lines with
  | nil =>
      simp [joinLines]
  | cons first rest inductionHypothesis =>
      have continued :
          joinLines (first :: (rest ++ [text])) =
            first ++ '\n' :: joinLines (rest ++ [text]) := by
        rw [joinLines, List.intercalate_cons_of_ne_nil (by simp),
          List.append_assoc]
        rfl
      rw [List.cons_append, continued, splitLines,
        List.splitOn_append_cons_self, List.flatMap_cons, List.append_assoc,
        ← inductionHypothesis]
      rfl

theorem takeWhile_head_splitLines
    {first : Text}
    {others : List Text}
    (isSplit : splitLines text = first :: others) :
    first.takeWhile (!isSpace ·) = text.takeWhile (!isSpace ·) := by
  induction text generalizing first others with
  | nil =>
      have empty : first = [] := by
        have same : [[]] = first :: others := by
          simpa [splitLines, List.splitOn_nil] using isSplit
        exact (List.cons.inj same).1.symm
      simp [empty]
  | cons character rest inductionHypothesis =>
      rw [splitLines_cons] at isSplit
      split at isSplit
      · next isBreak =>
          have empty := (List.cons.inj isSplit).1
          rw [← empty, isBreak, List.takeWhile_cons_of_neg (by decide)]
          rfl
      · cases restSplit : splitLines rest with
        | nil =>
            exact absurd restSplit splitLines_ne_nil
        | cons head tail =>
            rw [restSplit, List.modifyHead_cons] at isSplit
            rw [← (List.cons.inj isSplit).1, List.takeWhile_cons,
              List.takeWhile_cons, inductionHypothesis restSplit]

theorem autostartName_mem :
    autostartName text ∈ (splitLines text).map autostartName := by
  induction text with
  | nil =>
      simp [splitLines, List.splitOn_nil]
  | cons character rest inductionHypothesis =>
      rw [splitLines_cons]
      split
      · next isBreak =>
          rw [autostartName_cons_space (by rw [isBreak]; decide)]
          exact List.mem_cons_of_mem _ inductionHypothesis
      · cases restSplit : splitLines rest with
        | nil =>
            exact absurd restSplit splitLines_ne_nil
        | cons first others =>
            rw [restSplit] at inductionHypothesis
            rw [List.modifyHead_cons, List.map_cons]
            cases space : isSpace character with
            | true =>
                rw [autostartName_cons_space space,
                  autostartName_cons_space space]
                exact inductionHypothesis
            | false =>
                rw [autostartName_cons_word space,
                  autostartName_cons_word space,
                  takeWhile_head_splitLines restSplit]
                exact List.mem_cons_self

end Lines

section Lists

variable {text : Text} {names : List Text}

/-- The lines of a text that keep their place when names are taken off. -/
def otherLines
    (text : Text)
    (names : List Text) : List Text :=
  (splitLines text).filter fun line => !names.contains (autostartName line)

variable {line : Text}

theorem mem_otherLines :
    line ∈ otherLines text names ↔
      line ∈ splitLines text ∧ autostartName line ∉ names := by
  simp [otherLines]

theorem splitLines_removeAutostart :
    splitLines (removeAutostart text names) =
      if otherLines text names = [] then [[]] else otherLines text names := by
  split
  · next none =>
      have removed : removeAutostart text names = joinLines [] :=
        congrArg joinLines none
      rw [removed]
      rfl
  · next some =>
      apply splitLines_joinLines some
      intro line member
      exact newline_notMem (mem_otherLines.mp member).1

theorem removeAutostart_idempotent
    (text : Text)
    (names : List Text) :
    removeAutostart (removeAutostart text names) names =
      removeAutostart text names := by
  conv_lhs => rw [removeAutostart, splitLines_removeAutostart]
  split
  · next none =>
      have removed : removeAutostart text names = joinLines [] :=
        congrArg joinLines none
      rw [removed, List.filter_singleton]
      cases names.contains (autostartName []) <;> rfl
  · rw [otherLines, List.filter_filter]
    simp only [Bool.and_self]
    rfl

/-- The lines that a restoration has to add. -/
def missingLines
    (text : Text)
    (lines : List Text) : List Text :=
  lines.filter fun line =>
    !((splitLines text).map autostartName).contains (autostartName line)

theorem restoreAutostart_of_none
    {lines : List Text}
    (none : missingLines text lines = []) :
    restoreAutostart text lines = text := by
  have isEmpty : (missingLines text lines).isEmpty = true := by
    rw [none]
    rfl
  exact if_pos isEmpty

theorem splitLines_restoreAutostart
    (text : Text)
    (lines : List Text) :
    splitLines (restoreAutostart text lines) =
      (missingLines text lines).flatMap splitLines ++ splitLines text := by
  by_cases none : missingLines text lines = []
  · rw [restoreAutostart_of_none none, none]
    rfl
  · have notEmpty : (missingLines text lines).isEmpty ≠ true := by
      rwa [Ne, List.isEmpty_iff]
    have added :
        restoreAutostart text lines =
          joinLines (missingLines text lines ++ [text]) :=
      if_neg notEmpty
    rw [added, splitLines_joinLines_append]

theorem restoreAutostart_idempotent
    (text : Text)
    (lines : List Text) :
    restoreAutostart (restoreAutostart text lines) lines =
      restoreAutostart text lines := by
  apply restoreAutostart_of_none
  apply List.filter_eq_nil_iff.mpr
  intro line member
  simp only [List.contains_iff_mem, Bool.not_eq_true, Bool.not_eq_false',
    splitLines_restoreAutostart, List.map_append, List.mem_append]
  by_cases listed :
      autostartName line ∈ (splitLines text).map autostartName
  · exact .inr listed
  · have missing : line ∈ missingLines text lines := by
      simp only [missingLines, List.mem_filter, member, true_and]
      simpa using listed
    obtain ⟨part, inLine, sameName⟩ :=
      List.mem_map.mp (@autostartName_mem line)
    refine .inl (List.mem_map.mpr ⟨part, ?_, sameName⟩)
    exact List.mem_flatMap.mpr ⟨line, missing, inLine⟩

theorem recordedLine_eq_some
    {lines : List Text}
    {name : Text}
    (recorded : recordedLine lines name = some line) :
    ∃ original ∈ lines, autostartName original = name ∧
      trim original = line := by
  obtain ⟨original, found, trimmed⟩ := Option.map_eq_some_iff.mp recorded
  have named := List.find?_some found
  exact ⟨original, List.mem_of_find?_eq_some found, by simpa using named,
    trimmed⟩

theorem mem_recordedLines
    (member : line ∈ recordedLines text names) :
    autostartName line ∈ names ∧ autostartName line ≠ [] ∧
      '\n' ∉ line := by
  simp only [recordedLines, List.mem_filterMap, List.mem_mergeSort,
    List.mem_map] at member
  obtain ⟨recorded, ⟨name, isName, rfl⟩, kept⟩ := member
  obtain ⟨isRecorded, notEmpty⟩ := Option.filter_eq_some_iff.mp kept
  obtain ⟨original, inText, named, rfl⟩ := recordedLine_eq_some isRecorded
  rw [autostartName_trim]
  refine ⟨named ▸ isName, autostartName_ne_nil (by simpa using notEmpty), ?_⟩
  intro isBreak
  have inDropped : '\n' ∈ original.dropWhile isSpace :=
    (List.rdropWhile_prefix isSpace _).sublist.mem isBreak
  exact newline_notMem inText ((List.dropWhile_sublist _).mem inDropped)

theorem nodup_recordedLines
    (distinct : names.Nodup) :
    (recordedLines text names).Nodup := by
  have sorted :
      (recordedLines text names).Perm
        ((names.map (recordedLine (splitLines text))).filterMap
          fun recorded => recorded.filter (· ≠ [])) :=
    (List.mergeSort_perm ..).filterMap _
  apply sorted.nodup_iff.mpr
  rw [List.filterMap_map]
  refine List.Nodup.filterMap ?_ distinct
  intro first second line fromFirst fromSecond
  have named
      {name : Text}
      (recorded :
        line ∈ (recordedLine (splitLines text) name).filter (· ≠ [])) :
      autostartName line = name := by
    obtain ⟨isRecorded, _⟩ := Option.filter_eq_some_iff.mp recorded
    obtain ⟨original, _, sameName, rfl⟩ := recordedLine_eq_some isRecorded
    rw [autostartName_trim, sameName]
  exact (named fromFirst).symm.trans (named fromSecond)

theorem missingLines_recordedLines :
    missingLines (removeAutostart text names) (recordedLines text names) =
      recordedLines text names := by
  apply List.filter_eq_self.mpr
  intro line member
  obtain ⟨isName, someName, _⟩ := mem_recordedLines member
  simp only [splitLines_removeAutostart, Bool.not_eq_true',
    List.contains_eq_mem, decide_eq_false_iff_not]
  intro listed
  obtain ⟨other, otherIn, sameName⟩ := List.mem_map.mp listed
  split at otherIn
  · rw [List.mem_singleton.mp otherIn] at sameName
    exact someName sameName.symm
  · have otherName := (mem_otherLines.mp otherIn).2
    rw [sameName] at otherName
    exact otherName isName

theorem splitLines_restored :
    splitLines
        (restoreAutostart (removeAutostart text names)
          (recordedLines text names)) =
      recordedLines text names ++
        splitLines (removeAutostart text names) := by
  have whole :
      (recordedLines text names).flatMap splitLines =
        recordedLines text names := by
    rw [List.flatMap_congr (g := fun line => [line])]
    · exact List.flatMap_singleton' _
    · intro line member
      exact List.splitOn_eq_singleton (mem_recordedLines member).2.2
  rw [splitLines_restoreAutostart, missingLines_recordedLines, whole]

theorem count_restored
    (distinct : names.Nodup)
    (member : line ∈ recordedLines text names) :
    (splitLines
        (restoreAutostart (removeAutostart text names)
          (recordedLines text names))).count line = 1 := by
  have notOther : line ∉ splitLines (removeAutostart text names) := by
    obtain ⟨isName, someName, _⟩ := mem_recordedLines member
    intro listed
    rw [splitLines_removeAutostart] at listed
    split at listed
    · rw [List.mem_singleton.mp listed] at someName
      exact someName rfl
    · exact (mem_otherLines.mp listed).2 isName
  rw [splitLines_restored, List.count_append,
    List.count_eq_one_of_mem (nodup_recordedLines distinct) member,
    List.count_eq_zero_of_not_mem notOther]

end Lists

/-- What the manager does with the autostart list. -/
structure AutostartLaws
    (text modified : Text)
    (found : List UInt8) : Prop where
  /-- A pending rewrite is finished, or what was found is not touched. -/
  reconciles : Reconciles text modified found
  removeIdempotent : ∀ names,
    removeAutostart (removeAutostart text names) names =
      removeAutostart text names
  restoreIdempotent : ∀ lines,
    restoreAutostart (restoreAutostart text lines) lines =
      restoreAutostart text lines
  /-- The recorded lines come first, then the others in their order. -/
  restores : ∀ names,
    splitLines
        (restoreAutostart (removeAutostart text names)
          (recordedLines text names)) =
      recordedLines text names ++
        if otherLines text names = [] then [[]] else otherLines text names
  /-- Every recorded line is there exactly once. -/
  once : ∀ names : List Text, names.Nodup →
    ∀ line ∈ recordedLines text names,
      (splitLines
        (restoreAutostart (removeAutostart text names)
          (recordedLines text names))).count line = 1

end Frameleaf.Manager
