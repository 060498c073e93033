import Frameleaf.Lib.Representatives
import Frameleaf.CloudBackup.Periods
import Mathlib.Data.List.Lex
import Mathlib.Data.Prod.Lex
import Mathlib.Data.List.Sort

namespace Frameleaf.CloudBackup

open Representatives UtcDate

/-!
# Cloud backup retention

Which manifests a retention pass keeps.  The pass sorts the manifests newest
first and scans them once per rule; a manifest is kept when it is the newest of
all or when a rule took it.  Pruned histories stay consistent: what one pass
removes is never missed by a later one.
-/

/-- A string as the language compares it: by UTF-16 code unit. -/
abbrev Key := List (Fin 65536)

/-- One manifest a retention pass decides about. -/
class CloudBackupRetentionCandidate (T : Type*) where
  key : T → Key
  createdAt : T → Date

/-- How many days, weeks and months keep their newest manifest. -/
structure CloudBackupRetention where
  keepDaily : ℕ
  keepWeekly : ℕ
  keepMonthly : ℕ
  deriving Repr, DecidableEq

/-- Order two strings by code unit. -/
def compareCodeUnits (a b : Key) : ℤ :=
  if a < b then -1 else if b < a then 1 else 0

variable {T : Type*} [CloudBackupRetentionCandidate T]

open CloudBackupRetentionCandidate

/-- Newer manifests first; ties on time are broken by key. -/
def compareNewest (a b : T) : ℤ :=
  let byTime := (createdAt b).time - (createdAt a).time
  if byTime ≠ 0 then byTime else compareCodeUnits (key b) (key a)

/-- The manifests sorted stably, newest first. -/
def newestFirst (manifests : List T) : List T :=
  manifests.mergeSort fun a b => compareNewest a b ≤ 0

/-- One rule's scan over the manifests, newest first. -/
def keepPeriods
    (count : ℕ)
    (periodOf : Date → Period) :
    Finset Period → Finset Key → List T → Finset Key
  | _, kept, [] => kept
  | periods, kept, manifest :: older =>
      if periods.card ≥ count then
        kept
      else
        let period := periodOf (createdAt manifest)
        if period ∈ periods then
          keepPeriods count periodOf periods kept older
        else
          keepPeriods count periodOf (insert period periods)
            (insert (key manifest) kept) older

/-- The three rules, with how many periods each keeps. -/
def retentionRules
    (retention : CloudBackupRetention) : List (ℕ × (Date → Period)) :=
  [(retention.keepDaily, dayOf),
    (retention.keepWeekly, isoWeekOf),
    (retention.keepMonthly, monthOf)]

/-- The keys that a pass keeps, from its manifests sorted newest first. -/
def keptKeys
    (sorted : List T)
    (retention : CloudBackupRetention) : Finset Key :=
  let newest :=
    match sorted with
    | [] => ∅
    | first :: _ => {key first}
  (retentionRules retention).foldl
    (fun kept rule => keepPeriods rule.1 rule.2 ∅ kept sorted) newest

/-- What a retention pass keeps and what it removes. -/
structure RetentionPlan (T : Type*) where
  keep : List T
  remove : List T
  deriving Repr, DecidableEq

/-- Which manifests to keep and which to remove. -/
def retentionPlan
    (manifests : List T)
    (retention : CloudBackupRetention) : RetentionPlan T :=
  let sorted := newestFirst manifests
  let kept := keptKeys sorted retention
  { keep := sorted.filter fun manifest => key manifest ∈ kept
    remove := sorted.filter fun manifest => key manifest ∉ kept }

/-! ## The order of a pass -/

/-- The rank of a manifest: its time, then its key. -/
def rank (manifest : T) : ℤ ×ₗ Key :=
  toLex ((createdAt manifest).time, key manifest)

theorem compareNewest_nonpos_iff
    (a b : T) :
    compareNewest a b ≤ 0 ↔ rank b ≤ rank a := by
  simp only [compareNewest, rank, Prod.Lex.toLex_le_toLex]
  by_cases sameTime : (createdAt b).time - (createdAt a).time = 0
  · have timeEq : (createdAt b).time = (createdAt a).time := by omega
    rw [if_neg (not_not.mpr sameTime)]
    simp only [timeEq, lt_irrefl, true_and, false_or, compareCodeUnits]
    rcases lt_trichotomy (key b) (key a) with below | same | above
    · simp [below, below.le]
    · simp [same]
    · simp [above, above.not_gt, above.not_ge]
  · rw [if_pos sameTime]
    constructor
    · intro newer
      exact Or.inl (by omega)
    · rintro (older | ⟨same, _⟩) <;> omega

theorem newestFirst_perm
    (manifests : List T) :
    (newestFirst manifests).Perm manifests :=
  List.mergeSort_perm _ _

variable {manifests first second added : List T} {manifest : T}

/-- A sorted manifest is one of those given. -/
@[simp] theorem mem_newestFirst :
    manifest ∈ newestFirst manifests ↔ manifest ∈ manifests :=
  (newestFirst_perm manifests).mem_iff

theorem newestFirst_descending
    (distinctKeys : (manifests.map key).Nodup) :
    Descending rank (newestFirst manifests) := by
  have sorted :
      (newestFirst manifests).Pairwise fun a b => rank b ≤ rank a := by
    have pairwise :=
      @List.pairwise_mergeSort T
        (fun a b => decide (compareNewest a b ≤ 0))
      (fun a b c firstSecond secondThird => by
        simp only [decide_eq_true_eq, compareNewest_nonpos_iff] at *
        exact secondThird.trans firstSecond)
      (fun a b => by
        simp only [Bool.or_eq_true, decide_eq_true_eq,
          compareNewest_nonpos_iff]
        exact le_total _ _)
      manifests
    refine pairwise.imp fun {a b} ordered => ?_
    rwa [decide_eq_true_eq, compareNewest_nonpos_iff] at ordered
  have apart :
      (newestFirst manifests).Pairwise fun a b => key a ≠ key b := by
    rw [← List.pairwise_map]
    exact ((newestFirst_perm manifests).map key).nodup_iff.mpr distinctKeys
  refine (sorted.and apart).imp fun {a b} ⟨ordered, keysDiffer⟩ => ?_
  refine lt_of_le_of_ne ordered fun sameRank => ?_
  have sameKey := congrArg (fun value => (ofLex value).2) sameRank
  exact keysDiffer sameKey.symm

theorem newestFirst_eq_of_perm
    (distinctKeys : (first.map key).Nodup)
    (permuted : first.Perm second) :
    newestFirst first = newestFirst second := by
  have distinctSecond : (second.map key).Nodup :=
    (permuted.map key).nodup_iff.mp distinctKeys
  have sameManifests : (newestFirst first).Perm (newestFirst second) :=
    (newestFirst_perm first).trans
      (permuted.trans (newestFirst_perm second).symm)
  exact List.Perm.eq_of_pairwise'
    (newestFirst_descending distinctKeys)
    (newestFirst_descending distinctSecond) sameManifests

/-! ## What a pass keeps -/

/-- A rule as the selection library states it. -/
def selectionRule
    (rule : ℕ × (Date → Period)) : Rule T Period where
  count := rule.1
  classOf := fun manifest => rule.2 (createdAt manifest)

/-- Keeping the newest manifest, whatever the settings say. -/
def newestRule : Rule T Period where
  count := 1
  classOf := fun _ => []

/-- Everything a pass keeps by: the newest manifest and the three rules. -/
def keepRules
    (retention : CloudBackupRetention) : List (Rule T Period) :=
  newestRule :: (retentionRules retention).map selectionRule

variable {name : Key}

theorem mem_keepPeriods_iff
    {rule : ℕ × (Date → Period)}
    {periods : Finset Period}
    {kept : Finset Key} :
    name ∈ keepPeriods rule.1 rule.2 periods kept manifests ↔
      name ∈ kept ∨
        ∃ manifest ∈ scan (selectionRule rule).classOf rule.1 periods manifests,
          key manifest = name := by
  induction manifests generalizing periods kept with
  | nil =>
      simp [keepPeriods, scan]
  | cons newest older inductionHypothesis =>
      have sameClass :
          (selectionRule (T := T) rule).classOf newest =
            rule.2 (createdAt newest) := rfl
      unfold keepPeriods scan
      by_cases full : rule.1 ≤ periods.card
      · simp [full]
      · rw [if_neg full, if_neg full, sameClass]
        by_cases sawPeriod : rule.2 (createdAt newest) ∈ periods
        · rw [if_pos sawPeriod, if_pos sawPeriod]
          exact inductionHypothesis
        · rw [if_neg sawPeriod, if_neg sawPeriod, inductionHypothesis]
          simp only [Finset.mem_insert, List.mem_cons, exists_eq_or_imp]
          constructor
          · rintro ((rfl | member) | selected)
            · exact Or.inr (Or.inl rfl)
            · exact Or.inl member
            · exact Or.inr (Or.inr selected)
          · rintro (member | rfl | selected)
            · exact Or.inl (Or.inr member)
            · exact Or.inl (Or.inl rfl)
            · exact Or.inr selected

theorem mem_foldl_keepPeriods_iff
    {rules : List (ℕ × (Date → Period))}
    {kept : Finset Key} :
    name ∈ rules.foldl
        (fun kept rule => keepPeriods rule.1 rule.2 ∅ kept manifests) kept ↔
      name ∈ kept ∨
        ∃ rule ∈ rules,
          ∃ manifest ∈ scan (selectionRule rule).classOf rule.1 ∅ manifests,
            key manifest = name := by
  induction rules generalizing kept with
  | nil =>
      simp
  | cons rule rest inductionHypothesis =>
      rw [List.foldl_cons, inductionHypothesis, mem_keepPeriods_iff]
      simp only [List.mem_cons, exists_eq_or_imp, or_assoc]

omit [CloudBackupRetentionCandidate T] in
theorem scan_newestRule
    (manifests : List T) :
    scan (newestRule (T := T)).classOf 1 ∅ manifests =
      manifests.head?.toList := by
  cases manifests with
  | nil =>
      rfl
  | cons newest older =>
      cases older <;> simp [scan, newestRule]

variable {retention : CloudBackupRetention}

theorem mem_keptKeys_iff :
    name ∈ keptKeys manifests retention ↔
      ∃ rule ∈ keepRules retention,
        ∃ manifest ∈ scan rule.classOf rule.count ∅ manifests,
          key manifest = name := by
  have newestKeys :
      (name ∈ (match manifests with
        | [] => (∅ : Finset Key)
        | first :: _ => {key first})) ↔
      ∃ manifest ∈ scan (newestRule (T := T)).classOf 1 ∅ manifests,
        key manifest = name := by
    rw [scan_newestRule]
    cases manifests with
    | nil =>
        simp
    | cons newest older =>
        simp [eq_comm]
  unfold keptKeys
  rw [mem_foldl_keepPeriods_iff, newestKeys]
  simp only [keepRules, List.mem_cons, exists_eq_or_imp, List.mem_map,
    exists_exists_and_eq_and]
  rfl

theorem eq_of_key_eq
    {first second : T}
    (distinctKeys : (manifests.map key).Nodup)
    (firstMember : first ∈ manifests)
    (secondMember : second ∈ manifests)
    (sameKey : key first = key second) :
    first = second :=
  List.inj_on_of_nodup_map distinctKeys firstMember secondMember sameKey

theorem retained_congr
    {rules : List (Rule T Period)}
    (sameMembers : ∀ other, other ∈ first ↔ other ∈ second) :
    Retained rank rules first manifest ↔
      Retained rank rules second manifest := by
  refine retained_iff_of_complete
    (fun other => (sameMembers other).mp) fun other otherRetained => ?_
  obtain ⟨rule, _, representative⟩ := otherRetained
  exact (sameMembers other).mpr representative.present

theorem mem_keep_iff
    (distinctKeys : (manifests.map key).Nodup) :
    manifest ∈ (retentionPlan manifests retention).keep ↔
      Retained rank (keepRules retention) manifests manifest := by
  have descending := newestFirst_descending distinctKeys
  rw [← retained_congr fun other => mem_newestFirst]
  simp only [retentionPlan, List.mem_filter, decide_eq_true_eq,
    mem_keptKeys_iff, mem_newestFirst]
  constructor
  · rintro ⟨member, rule, ruleMember, selected, inScan, sameKey⟩
    have selectedMember : selected ∈ manifests :=
      mem_newestFirst.mp (scan_sublist.subset inScan)
    obtain rfl :=
      eq_of_key_eq distinctKeys selectedMember member sameKey
    exact ⟨rule, ruleMember, (mem_scan_empty_iff descending).mp inScan⟩
  · rintro ⟨rule, ruleMember, representative⟩
    exact ⟨mem_newestFirst.mp representative.present, rule, ruleMember,
      manifest, (mem_scan_empty_iff descending).mpr representative, rfl⟩

/-! ## The laws of a pass -/

theorem keep_subset
    (manifests : List T)
    (retention : CloudBackupRetention) :
    (retentionPlan manifests retention).keep ⊆ manifests := fun _ member =>
  mem_newestFirst.mp (List.mem_of_mem_filter member)

theorem mem_remove_iff :
    manifest ∈ (retentionPlan manifests retention).remove ↔
      manifest ∈ manifests ∧
        manifest ∉ (retentionPlan manifests retention).keep := by
  simp only [retentionPlan, List.mem_filter, mem_newestFirst,
    decide_eq_true_eq]
  tauto

theorem retentionPlan_perm
    (manifests : List T)
    (retention : CloudBackupRetention) :
    ((retentionPlan manifests retention).keep ++
      (retentionPlan manifests retention).remove).Perm manifests := by
  have splits :=
    List.filter_append_perm
      (fun manifest =>
        decide (key manifest ∈ keptKeys (newestFirst manifests) retention))
      (newestFirst manifests)
  simp only [← decide_not] at splits
  exact splits.trans (newestFirst_perm manifests)

theorem keep_descending
    (retention : CloudBackupRetention)
    (distinctKeys : (manifests.map key).Nodup) :
    Descending rank (retentionPlan manifests retention).keep :=
  List.Pairwise.sublist List.filter_sublist
    (newestFirst_descending distinctKeys)

theorem keep_eq_of_complete
    {fewer : List T}
    (distinctKeys : (manifests.map key).Nodup)
    (distinctFewer : (fewer.map key).Nodup)
    (subset : fewer ⊆ manifests)
    (complete : (retentionPlan manifests retention).keep ⊆ fewer) :
    (retentionPlan fewer retention).keep =
      (retentionPlan manifests retention).keep := by
  refine (keep_descending retention distinctFewer).eq_of_mem_iff
    (keep_descending retention distinctKeys) fun manifest => ?_
  rw [mem_keep_iff distinctFewer, mem_keep_iff distinctKeys]
  refine retained_iff_of_complete subset fun other retained => ?_
  exact complete ((mem_keep_iff distinctKeys).mpr retained)

theorem nodup_keep_append
    (retention : CloudBackupRetention)
    (distinctKeys : ((manifests ++ added).map key).Nodup) :
    (((retentionPlan manifests retention).keep ++ added).map key).Nodup := by
  have allKeys :
      (((retentionPlan manifests retention).keep ++
        (retentionPlan manifests retention).remove ++ added).map key).Nodup :=
    (((retentionPlan_perm manifests retention).append_right
      added).map key).nodup_iff.mpr distinctKeys
  refine allKeys.sublist (List.Sublist.map key ?_)
  exact (List.sublist_append_left _ _).append (List.Sublist.refl added)

/-- The periods of a rule that have a manifest. -/
def presentPeriods
    (periodOf : Date → Period)
    (manifests : List T) : Finset Period :=
  (manifests.map fun manifest => periodOf (createdAt manifest)).toFinset

/-- A manifest that no other one is newer than. -/
def IsNewest
    (manifests : List T)
    (manifest : T) : Prop :=
  manifest ∈ manifests ∧ ∀ other ∈ manifests, rank other ≤ rank manifest

/--
What a retention pass promises for manifests with distinct keys.  A period is
later than another when its newest manifest is newer.
-/
structure RetentionLaws
    (manifests : List T)
    (retention : CloudBackupRetention) : Prop where
  /-- Nothing is lost or duplicated. -/
  split :
    ((retentionPlan manifests retention).keep ++
      (retentionPlan manifests retention).remove).Perm manifests
  /-- The newest manifest is kept. -/
  newestKept :
    ∀ manifest, IsNewest manifests manifest →
      manifest ∈ (retentionPlan manifests retention).keep
  /-- Kept are the newest and the newest of the latest periods of each rule. -/
  keptExactly :
    ∀ manifest,
      manifest ∈ (retentionPlan manifests retention).keep ↔
        IsNewest manifests manifest ∨
          ∃ rule ∈ retentionRules retention,
            IsRepresentative rank (fun other => rule.2 (createdAt other))
              rule.1 manifests manifest
  /-- A rule keeps one manifest for each of the latest periods present. -/
  periodsCounted :
    ∀ rule ∈ retentionRules retention,
      ∃ chosen : List T,
        (∀ manifest, manifest ∈ chosen ↔
          IsRepresentative rank (fun other => rule.2 (createdAt other))
            rule.1 manifests manifest) ∧
        (chosen.map fun manifest => rule.2 (createdAt manifest)).Nodup ∧
        chosen.length = min rule.1 (presentPeriods rule.2 manifests).card
  /-- The answer does not depend on the order of the input. -/
  orderFree :
    ∀ shuffled : List T, shuffled.Perm manifests →
      retentionPlan shuffled retention = retentionPlan manifests retention
  /-- Planning over what was kept removes nothing. -/
  idempotent :
    retentionPlan (retentionPlan manifests retention).keep retention =
      { keep := (retentionPlan manifests retention).keep, remove := [] }
  /-- Pruning before manifests are added changes nothing that is kept later. -/
  incremental :
    ∀ added : List T, ((manifests ++ added).map key).Nodup →
      (retentionPlan ((retentionPlan manifests retention).keep ++ added)
          retention).keep =
        (retentionPlan (manifests ++ added) retention).keep

theorem mem_keep_iff_newest_or_rule
    (distinctKeys : (manifests.map key).Nodup) :
    manifest ∈ (retentionPlan manifests retention).keep ↔
      IsNewest manifests manifest ∨
        ∃ rule ∈ retentionRules retention,
          IsRepresentative rank (fun other => rule.2 (createdAt other))
            rule.1 manifests manifest := by
  rw [mem_keep_iff distinctKeys]
  simp only [Retained, keepRules, List.mem_cons, exists_eq_or_imp,
    List.mem_map, exists_exists_and_eq_and]
  exact or_congr (isRepresentative_const_iff _) Iff.rfl

theorem exists_chosen
    (rule : ℕ × (Date → Period))
    (distinctKeys : (manifests.map key).Nodup) :
    ∃ chosen : List T,
      (∀ manifest, manifest ∈ chosen ↔
        IsRepresentative rank (fun other => rule.2 (createdAt other))
          rule.1 manifests manifest) ∧
      (chosen.map fun manifest => rule.2 (createdAt manifest)).Nodup ∧
      chosen.length = min rule.1 (presentPeriods rule.2 manifests).card := by
  have descending := newestFirst_descending distinctKeys
  refine ⟨scan (fun other => rule.2 (createdAt other)) rule.1 ∅
    (newestFirst manifests), fun manifest => ?_,
    nodup_scan_classes descending, ?_⟩
  · rw [mem_scan_empty_iff descending]
    exact isRepresentative_iff_of_complete
      (fun _ member => mem_newestFirst.mpr member)
      (fun _ representative => mem_newestFirst.mp representative.present)
      |>.symm
  · have samePeriods :
        ((newestFirst manifests).map fun other =>
            rule.2 (createdAt other)).toFinset =
          presentPeriods rule.2 manifests :=
      List.toFinset_eq_of_perm _ _ ((newestFirst_perm manifests).map _)
    rw [length_scan, samePeriods]
    simp

theorem retentionPlan_keep
    (retention : CloudBackupRetention)
    (distinctKeys : (manifests.map key).Nodup) :
    retentionPlan (retentionPlan manifests retention).keep retention =
      { keep := (retentionPlan manifests retention).keep, remove := [] } := by
  have distinctKept :
      ((retentionPlan manifests retention).keep.map key).Nodup := by
    have appended :
        (((retentionPlan manifests retention).keep ++ []).map key).Nodup :=
      nodup_keep_append retention (by simpa using distinctKeys)
    simpa using appended
  have sameKeep :=
    keep_eq_of_complete distinctKeys distinctKept
      (keep_subset manifests retention) (List.Subset.refl _)
  have noneRemoved :
      (retentionPlan (retentionPlan manifests retention).keep
        retention).remove = [] := by
    refine List.eq_nil_iff_forall_not_mem.mpr fun manifest removed => ?_
    rw [mem_remove_iff, sameKeep] at removed
    exact removed.2 removed.1
  rw [← noneRemoved]
  exact congrArg (RetentionPlan.mk · _) sameKeep

theorem keep_append
    (retention : CloudBackupRetention)
    (distinctKeys : ((manifests ++ added).map key).Nodup) :
    (retentionPlan ((retentionPlan manifests retention).keep ++ added)
        retention).keep =
      (retentionPlan (manifests ++ added) retention).keep := by
  have distinctManifests : (manifests.map key).Nodup := by
    rw [List.map_append] at distinctKeys
    exact distinctKeys.of_append_left
  refine keep_eq_of_complete distinctKeys
    (nodup_keep_append retention distinctKeys) ?_ fun manifest kept => ?_
  · exact List.append_subset.mpr
      ⟨List.Subset.trans (keep_subset manifests retention)
        (List.subset_append_left _ _), List.subset_append_right _ _⟩
  · -- What the whole history keeps of the old part, the old part keeps too.
    have retained := (mem_keep_iff distinctKeys).mp kept
    rcases List.mem_append.mp (keep_subset _ _ kept) with old | new
    · refine List.mem_append_left _ ((mem_keep_iff distinctManifests).mpr ?_)
      exact retained.of_subset (List.subset_append_left _ _) old
    · exact List.mem_append_right _ new

/-- What retention keeps, by the calendar, and with more to be kept. -/
structure CalendarLaws (manifests : List T) : Prop where
  calendar : ∀ retention manifest, (manifests.map key).Nodup →
    (∀ other ∈ manifests, FourDigitYear (createdAt other) ∧
      101 ≤ (createdAt other).civil.year) →
      (manifest ∈ (retentionPlan manifests retention).keep ↔
        IsNewest manifests manifest ∨
        IsRepresentative rank (fun other => dayNumber (createdAt other).time)
          retention.keepDaily manifests manifest ∨
        IsRepresentative rank
          (fun other => (dayNumber (createdAt other).time + 3) / 7)
          retention.keepWeekly manifests manifest ∨
        IsRepresentative rank (fun other =>
          ((createdAt other).civil.year, (createdAt other).civil.month))
          retention.keepMonthly manifests manifest)
  grows : ∀ fewer more : CloudBackupRetention, (manifests.map key).Nodup →
    fewer.keepDaily ≤ more.keepDaily → fewer.keepWeekly ≤ more.keepWeekly →
    fewer.keepMonthly ≤ more.keepMonthly →
      (retentionPlan manifests fewer).keep ⊆ (retentionPlan manifests more).keep

/-- Retention counts by days, weeks from Monday to Sunday and months of the
calendar, and keeping more of them removes nothing that was kept. -/
theorem calendarLaws
    (manifests : List T) :
    CalendarLaws manifests where
  calendar retention manifest distinctKeys modern := by
    rw [mem_keep_iff_newest_or_rule distinctKeys]
    simp only [retentionRules, List.mem_cons, List.not_mem_nil, or_false,
      exists_eq_or_imp, exists_eq_left]
    refine or_congr_right (or_congr ?_ (or_congr ?_ ?_))
    · exact IsRepresentative.congr fun _ isFirst _ isSecond =>
        dayOf_eq_iff (modern _ isFirst).1 (modern _ isSecond).1
    · exact IsRepresentative.congr fun _ isFirst _ isSecond =>
        isoWeekOf_eq_iff (modern _ isFirst).2 (modern _ isSecond).2
    · exact IsRepresentative.congr fun _ isFirst _ isSecond =>
        (monthOf_eq_iff (modern _ isFirst).1 (modern _ isSecond).1).trans
          Prod.mk_inj.symm
  grows fewer more distinctKeys daily weekly monthly := by
    intro manifest
    rw [mem_keep_iff_newest_or_rule distinctKeys,
      mem_keep_iff_newest_or_rule distinctKeys]
    simp only [retentionRules, List.mem_cons, List.not_mem_nil, or_false,
      exists_eq_or_imp, exists_eq_left]
    exact Or.imp_right (Or.imp (·.of_le daily)
      (Or.imp (·.of_le weekly) (·.of_le monthly)))

/-- A manifest as the maintenance pass lists it. -/
structure Manifest where
  key : Key
  createdAt : Date
  deriving DecidableEq

instance : CloudBackupRetentionCandidate Manifest where
  key := Manifest.key
  createdAt := Manifest.createdAt

/-- Three runs on the first two days of the year 1970. -/
def firstRuns : List Manifest :=
  [{ key := [109, 47, 49], createdAt := { time := 0, inRange := by decide } },
    { key := [109, 47, 50],
      createdAt := { time := 3600000, inRange := by decide } },
    { key := [109, 47, 51],
      createdAt := { time := 86400000, inRange := by decide } }]

end Frameleaf.CloudBackup
