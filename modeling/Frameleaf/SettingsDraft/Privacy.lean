import Frameleaf.SettingsDraft.Recovery

namespace Frameleaf.SettingsDraft

open Json PathTrees

/-!
# What the journal and the export tell

No secret and no credentials are kept, provided that no object in an array
carries some; what is kept is taken up again after a reload.
-/

variable (urls : UrlLibrary) (isFinite : String → Bool) (revision : String)

/-- A configuration whose leaves are JSON values. -/
structure JsonConfig extends SystemConfig where
  written : ∀ path value, valueOf (leaf (.node entries) path) = some value →
    value.isWritable = true

/-- The journal of a draft. -/
def journalOf
    (baseline draft : Config) : SystemConfigJournal :=
  (createJournal urls revision
    ((diffConfig baseline draft).map ConfigChange.journaled)).1

/-- The text of the journal of a draft. -/
def journalText
    (baseline draft : Config) : Utf8.Text :=
  stringify (journalJson (journalOf urls revision baseline draft))

/-- The texts of a kept value. -/
def keptTexts
    (value : Option Json) : List String :=
  value.elim [] texts

/-- The texts of a kept value that lie in objects. -/
def keptObjectTexts
    (value : Option Json) : List String :=
  value.elim [] objectTexts

/-- The changes of a draft are within the limits of a journal. -/
structure WithinLimits
    (baseline draft : Config) : Prop where
  changes : (((diffConfig baseline draft).map ConfigChange.journaled).filter
    (isJournalSafe urls)).length ≤ JOURNAL_CHANGES
  characters : unitLength (journalText urls revision baseline draft) ≤
    JOURNAL_CHARACTERS

/-- A change that may be kept sets a known leaf to a value of its kind. -/
structure IsRestorable
    (baseline : Config)
    (change : ConfigChange) : Prop where
  safe : isJournalSafe urls change.journaled = true
  known : change.path ∈ (configLeaves baseline).map Prod.fst
  kind : sameKind isFinite (leaf baseline change.path)
    change.journaled.after = true

/-- A journal that was read restores a draft. -/
structure Restores
    (baseline draft : Config)
    (read : SystemConfigJournal) : Prop where
  restored : ∀ change ∈ diffConfig baseline draft,
    IsRestorable urls isFinite baseline change →
      leaf (recoverJournal isFinite baseline read).draft change.path =
        change.after
  kept : ∀ path, path ≠ [] → (∀ change ∈ diffConfig baseline draft,
      change.path = path → ¬IsRestorable urls isFinite baseline change) →
    leaf (recoverJournal isFinite baseline read).draft path =
      leaf baseline path
  unmoved : (recoverJournal isFinite baseline read).conflicts = []
  recovered : ∀ saved : SystemConfig, ∀ change ∈ read.changes, ∀ path,
    IsRecovered isFinite saved.tree path change →
      leaf (recoverJournal isFinite saved.tree read).draft path =
        configOf change.after
  conflicts : ∀ saved : SystemConfig, ∀ name,
    name ∈ (recoverJournal isFinite saved.tree read).conflicts.map
        RecoveryConflict.path ↔
      ∃ change ∈ read.changes, change.path = name ∧
        ∃ path, IsRecovered isFinite saved.tree path change ∧
          isEqual (leaf saved.tree path) (configOf change.before) = false

/-- What is wanted of the journal and the export of a draft. -/
structure DraftPrivacy
    (baseline draft : Config) : Prop where
  secrets : ∀ change ∈ (journalOf urls revision baseline draft).changes,
    isSecretConfigPath change.path = false
  credentials : ∀ change ∈ (journalOf urls revision baseline draft).changes,
    areClean urls (keptTexts change.before) ∧
      areClean urls (keptTexts change.after)
  exported : ExportClean urls draft
  restores : WithinLimits urls revision baseline draft →
    ∃ read, parseJournal urls (some (journalText urls revision baseline draft))
        = some read ∧
      Restores urls isFinite baseline draft read

/-- A draft that can be kept: no object in an array carries credentials. -/
structure Keepable
    (baseline draft : Config) : Prop where
  journaled : ∀ change ∈ (((diffConfig baseline draft).map
      ConfigChange.journaled).filter (isJournalSafe urls)).take JOURNAL_CHANGES,
    areClean urls (keptObjectTexts change.before) ∧
      areClean urls (keptObjectTexts change.after)
  exported : Exportable urls draft
  /-- What can be restored is at a path as the journal writes them. -/
  named : WithinLimits urls revision baseline draft →
    ∀ change ∈ diffConfig baseline draft,
      IsRestorable urls isFinite baseline change →
        isConfigPath (pathText change.path) = true

mutual

/-- Two values that differ only in texts with credentials. -/
def alike : Json → Json → Bool
  | .string first, .string second =>
      first == second || (urlHasCredentials urls first.toList &&
        urlHasCredentials urls second.toList)
  | .array first, .array second =>
      alikeItems first second
  | .object first, .object second =>
      alikeFields first second
  | first, second =>
      decide (first = second)

/-- Items that differ only in texts with credentials. -/
def alikeItems : List Json → List Json → Bool
  | [], [] =>
      true
  | first :: firsts, second :: seconds =>
      alike first second && alikeItems firsts seconds
  | _, _ =>
      false

/-- Fields that differ only in texts with credentials. -/
def alikeFields : Fields → Fields → Bool
  | [], [] =>
      true
  | (name, first) :: firsts, (other, second) :: seconds =>
      name == other && alike first second && alikeFields firsts seconds
  | _, _ =>
      false

end

/-- Kept values that differ only in texts with credentials. -/
def alikeValues : Option Json → Option Json → Bool
  | none, none => true
  | some first, some second => alike urls first second
  | _, _ => false

/-- Two drafts differ only in secrets. -/
def DifferOnlyInSecrets
    (first second : Config) : Prop :=
  List.Forall₂ (fun one other => one.1 = other.1 ∧
      (isSecretConfigPath (pathText one.1) = true ∨
        alikeValues urls (valueOf one.2) (valueOf other.2) = true))
    (configLeaves first) (configLeaves second)

variable {urls}

mutual

/-- Values that are alike show the same, and are the same when one is clean. -/
theorem alike_laws :
    ∀ first second : Json, alike urls first second = true →
      containsCredentials urls first = containsCredentials urls second ∧
        (areClean urls (texts first) ∨ areClean urls (texts second) →
          first = second)
  | .string first, .string second, isAlike => by
      rw [alike, Bool.or_eq_true, beq_iff_eq, Bool.and_eq_true] at isAlike
      rcases isAlike with rfl | ⟨inFirst, inSecond⟩
      · exact ⟨rfl, fun _ => rfl⟩
      · refine ⟨?_, ?_⟩
        · rw [containsCredentials, containsCredentials, inFirst, inSecond]
        · rintro (clean | clean)
          · rw [clean first List.mem_cons_self] at inFirst
            cases inFirst
          · rw [clean second List.mem_cons_self] at inSecond
            cases inSecond
  | .array first, .array second, isAlike => by
      rw [alike] at isAlike
      obtain ⟨shown, same⟩ := alikeItems_laws first second isAlike
      refine ⟨?_, fun clean => ?_⟩
      · rw [containsCredentials, containsCredentials, shown]
      · rw [same clean]
  | .object first, .object second, isAlike => by
      rw [alike] at isAlike
      have same := alikeFields_laws first second isAlike
      refine ⟨?_, fun clean => ?_⟩
      · rfl
      · rw [same clean]
  | .null, second, isAlike => by
      have same : Json.null = second := by
        cases second with
        | null => rfl
        | _ => simp [alike] at isAlike
      subst same
      exact ⟨rfl, fun _ => rfl⟩
  | .bool value, second, isAlike => by
      have same : Json.bool value = second := by
        cases second with
        | bool other => simpa [alike] using isAlike
        | _ => simp [alike] at isAlike
      subst same
      exact ⟨rfl, fun _ => rfl⟩
  | .number text, second, isAlike => by
      have same : Json.number text = second := by
        cases second with
        | number other => simpa [alike] using isAlike
        | _ => simp [alike] at isAlike
      subst same
      exact ⟨rfl, fun _ => rfl⟩
  | .string first, .null, isAlike | .string first, .bool _, isAlike
  | .string first, .number _, isAlike | .string first, .array _, isAlike
  | .string first, .object _, isAlike => by
      simp [alike] at isAlike
  | .array first, .null, isAlike | .array first, .bool _, isAlike
  | .array first, .number _, isAlike | .array first, .string _, isAlike
  | .array first, .object _, isAlike => by
      simp [alike] at isAlike
  | .object first, .null, isAlike | .object first, .bool _, isAlike
  | .object first, .number _, isAlike | .object first, .string _, isAlike
  | .object first, .array _, isAlike => by
      simp [alike] at isAlike

theorem alikeItems_laws :
    ∀ first second : List Json, alikeItems urls first second = true →
      someContainsCredentials urls first =
          someContainsCredentials urls second ∧
        (areClean urls (itemsTexts first) ∨
          areClean urls (itemsTexts second) → first = second)
  | [], [], _ => ⟨rfl, fun _ => rfl⟩
  | first :: firsts, second :: seconds, isAlike => by
      rw [alikeItems, Bool.and_eq_true] at isAlike
      obtain ⟨shown, same⟩ := alike_laws first second isAlike.1
      obtain ⟨restShown, restSame⟩ :=
        alikeItems_laws firsts seconds isAlike.2
      refine ⟨?_, ?_⟩
      · rw [someContainsCredentials, someContainsCredentials, shown, restShown]
      · rw [itemsTexts, itemsTexts, areClean_append, areClean_append]
        rintro (⟨clean, restClean⟩ | ⟨clean, restClean⟩)
        · rw [same (.inl clean), restSame (.inl restClean)]
        · rw [same (.inr clean), restSame (.inr restClean)]
  | [], _ :: _, isAlike | _ :: _, [], isAlike => by
      simp [alikeItems] at isAlike

theorem alikeFields_laws :
    ∀ first second : Fields, alikeFields urls first second = true →
      areClean urls (fieldsTexts first) ∨
        areClean urls (fieldsTexts second) → first = second
  | [], [], _ => fun _ => rfl
  | (name, first) :: firsts, (other, second) :: seconds, isAlike => by
      rw [alikeFields, Bool.and_eq_true, Bool.and_eq_true,
        beq_iff_eq] at isAlike
      obtain ⟨⟨rfl, valuesAlike⟩, fieldsAlike⟩ := isAlike
      have same := (alike_laws first second valuesAlike).2
      have restSame := alikeFields_laws firsts seconds fieldsAlike
      have cleanParts : ∀ {value : Json} {fields : Fields},
          areClean urls (fieldsTexts ((name, value) :: fields)) →
            areClean urls (texts value) ∧
              areClean urls (fieldsTexts fields) := by
        intro value fields clean
        rw [fieldsTexts] at clean
        obtain ⟨clean, restClean⟩ := areClean_append.mp clean
        exact ⟨fun text member => clean text (List.mem_cons_of_mem _ member),
          restClean⟩
      rintro (clean | clean)
      · obtain ⟨clean, restClean⟩ := cleanParts clean
        rw [same (.inl clean), restSame (.inl restClean)]
      · obtain ⟨clean, restClean⟩ := cleanParts clean
        rw [same (.inr clean), restSame (.inr restClean)]
  | [], _ :: _, isAlike | _ :: _, [], isAlike => by
      simp [alikeFields] at isAlike

end

end Frameleaf.SettingsDraft
