import Mathlib.Algebra.Group.Nat.Defs
import Mathlib.Data.List.Chain
import Mathlib.Data.Int.Order.Basic

namespace Frameleaf.MediaOperation

/-!
# The measured progress of a Studio render

A claim attempt owns its measurements.  A report that repeats, or goes behind,
what the attempt already measured is not recorded.
-/

/-- The largest number that JavaScript counts exactly. -/
def MAX_SAFE_INTEGER : ℕ := 2 ^ 53 - 1

/-- The last moment that a JavaScript date can name. -/
def MAX_DATE : ℕ := 8640000000000000

/-- The stage of a render. -/
inductive StudioRenderStage where
  | preparing
  | rendering
  | finalising
deriving DecidableEq, Repr

/-- What the units of a report are, where they are not just units. -/
inductive StudioRenderUnit where
  | frames
deriving DecidableEq, Repr

/-- What a render says about itself. -/
structure StudioRenderReport where
  stage : StudioRenderStage
  unit : Option StudioRenderUnit
deriving DecidableEq, Repr

/-- How many frames were rendered at a moment. -/
structure Sample where
  moment : ℤ
  frames : ℕ
deriving DecidableEq, Repr

/-- What is recorded about a render. -/
structure StudioRenderMeasurement where
  attempt : ℕ
  stage : StudioRenderStage
  unit : Option StudioRenderUnit
  processed : ℕ
  total : Option ℕ
  lastProgressAt : ℤ
  samples : List Sample
deriving DecidableEq, Repr

/-- The place of a stage in their order. -/
def StudioRenderStage.index : StudioRenderStage → ℕ
  | .preparing => 0
  | .rendering => 1
  | .finalising => 2

/-- A number that can be counted to. -/
def finiteCount (value : ℕ) : Bool :=
  decide (value ≤ MAX_SAFE_INTEGER)

/-- A moment that a date can name. -/
def isMoment (moment : ℤ) : Bool :=
  decide (moment.natAbs ≤ MAX_DATE)

/-- One sample is later than another and has more frames. -/
def Sample.Precedes (before after : Sample) : Prop :=
  before.moment < after.moment ∧ before.frames < after.frames

/-- Which of two samples comes first can be decided. -/
instance : DecidableRel Sample.Precedes :=
  fun before after => inferInstanceAs
    (Decidable (before.moment < after.moment ∧ before.frames < after.frames))

/-- The checks that a stored measurement passes before it is used. -/
def StudioRenderMeasurement.isStored (stored : StudioRenderMeasurement) : Bool :=
  finiteCount stored.attempt &&
    finiteCount stored.processed &&
    stored.total.all finiteCount &&
    isMoment stored.lastProgressAt &&
    decide (stored.samples.length ≤ 8) &&
    stored.samples.all (fun sample =>
      isMoment sample.moment && finiteCount sample.frames) &&
    decide (stored.samples.IsChain Sample.Precedes)

/-- The stored measurement, if it is one. -/
def measurementOf
    (stored : Option StudioRenderMeasurement) :
    Option StudioRenderMeasurement :=
  stored.filter StudioRenderMeasurement.isStored

/-- The last entries of a list, at most so many. -/
def lastEntries {Entry : Type} (count : ℕ) (entries : List Entry) : List Entry :=
  entries.drop (entries.length - count)

/-- The samples after a report: a new one only when both counts went up. -/
def sampled
    (samples : List Sample)
    (report : StudioRenderReport)
    (processed : ℕ)
    (now : ℤ) : List Sample :=
  if report.stage = .rendering ∧ report.unit = some .frames ∧
      (∀ last ∈ samples.getLast?, last.frames < processed ∧ last.moment < now) then
    samples ++ [⟨now, processed⟩]
  else
    samples

/-- The measurement after a report, or nothing when it is not recorded. -/
def advanceStudioRenderProgress
    (previous : Option StudioRenderMeasurement)
    (attempt : ℕ)
    (report : StudioRenderReport)
    (processed : ℕ)
    (total : Option ℕ)
    (now : ℤ) : Option StudioRenderMeasurement :=
  if !finiteCount processed ||
      total.any (fun total => !finiteCount total || decide (total < processed)) then
    none
  else
    let prior := (measurementOf previous).filter (·.attempt == attempt)
    let sameCursor := prior.any fun prior =>
      prior.stage == report.stage && prior.unit == report.unit
    let behind := prior.any fun prior =>
      decide (report.stage.index < prior.stage.index) ||
        decide (now < prior.lastProgressAt) ||
        (sameCursor &&
          (decide (processed < prior.processed) ||
            (total.isSome && prior.total.isSome && total != prior.total))) ||
        (prior.stage == report.stage && prior.unit == some .frames &&
          report.unit != some .frames)
    if behind then
      none
    else
      let unchanged := prior.filter fun prior =>
        sameCursor && decide (processed ≤ prior.processed)
      let samples :=
        ((prior.filter fun prior => sameCursor && prior.total == total).map
          (·.samples)).getD []
      some {
        attempt
        stage := report.stage
        unit := report.unit
        processed
        total
        lastProgressAt := (unchanged.map (·.lastProgressAt)).getD now
        samples := lastEntries 8 (sampled samples report processed now)
      }

/-- Samples that a stored measurement may hold. -/
structure Sampled (samples : List Sample) : Prop where
  counted : ∀ sample ∈ samples,
    isMoment sample.moment = true ∧ finiteCount sample.frames = true
  ordered : samples.IsChain Sample.Precedes

theorem StudioRenderMeasurement.isStored_iff
    {stored : StudioRenderMeasurement} :
    stored.isStored = true ↔
      finiteCount stored.attempt = true ∧ finiteCount stored.processed = true ∧
        stored.total.all finiteCount = true ∧
        isMoment stored.lastProgressAt = true ∧ stored.samples.length ≤ 8 ∧
        Sampled stored.samples := by
  simp only [StudioRenderMeasurement.isStored, Bool.and_eq_true,
    List.all_eq_true, decide_eq_true_eq, and_assoc]
  constructor
  · rintro ⟨attempt, processed, total, moment, few, counted, ordered⟩
    exact ⟨attempt, processed, total, moment, few, counted, ordered⟩
  · rintro ⟨attempt, processed, total, moment, few, counted, ordered⟩
    exact ⟨attempt, processed, total, moment, few, counted, ordered⟩

theorem Sampled.sampled
    {samples : List Sample}
    (proper : Sampled samples)
    (report : StudioRenderReport)
    {processed : ℕ}
    {now : ℤ}
    (countable : finiteCount processed = true)
    (nameable : isMoment now = true) :
    Sampled (sampled samples report processed now) := by
  unfold MediaOperation.sampled
  split
  case isFalse =>
    exact proper
  case isTrue taken =>
    obtain ⟨_, _, later⟩ := taken
    constructor
    · intro sample member
      rcases List.mem_append.mp member with old | new
      · exact proper.counted sample old
      · obtain rfl := List.mem_singleton.mp new
        exact ⟨nameable, countable⟩
    · apply List.isChain_append.mpr
      refine ⟨proper.ordered, List.isChain_singleton _, ?_⟩
      intro last isLast new isNew
      simp only [List.head?_cons, Option.mem_def, Option.some.injEq] at isNew
      subst isNew
      have after := later last isLast
      exact ⟨after.2, after.1⟩

theorem Sampled.lastEntries
    {samples : List Sample}
    (proper : Sampled samples)
    (count : ℕ) :
    Sampled (lastEntries count samples) where
  counted sample member := proper.counted sample (List.mem_of_mem_drop member)
  ordered := proper.ordered.drop _

theorem length_lastEntries_le
    {Entry : Type}
    (count : ℕ)
    (entries : List Entry) :
    (lastEntries count entries).length ≤ count := by
  rw [lastEntries, List.length_drop]
  omega

theorem getD_map_of_forall
    {Value : Type}
    {prior : Option StudioRenderMeasurement}
    {read : StudioRenderMeasurement → Value}
    {default : Value}
    (Keeps : Value → Prop)
    (ofPrior : ∀ measurement ∈ prior, Keeps (read measurement))
    (ofDefault : Keeps default) :
    Keeps ((prior.map read).getD default) := by
  cases prior with
  | none =>
      exact ofDefault
  | some measurement =>
      exact ofPrior measurement rfl

/-- Every measurement that is recorded is one that is read back. -/
theorem advanceStudioRenderProgress_isStored
    {previous : Option StudioRenderMeasurement}
    {attempt : ℕ}
    {report : StudioRenderReport}
    {processed : ℕ}
    {total : Option ℕ}
    {now : ℤ}
    {measurement : StudioRenderMeasurement}
    (counted : finiteCount attempt = true)
    (nameable : isMoment now = true)
    (advanced :
      advanceStudioRenderProgress previous attempt report processed total now =
        some measurement) :
    measurement.isStored = true := by
  unfold advanceStudioRenderProgress at advanced
  split at advanced
  case isTrue =>
    cases advanced
  case isFalse sound =>
    dsimp only at advanced
    split at advanced
    case isTrue =>
      cases advanced
    case isFalse =>
      obtain rfl := Option.some.inj advanced
      obtain ⟨countable, totalCountable⟩ :
          finiteCount processed = true ∧ total.all finiteCount = true := by
        cases total with
        | none =>
            simpa using sound
        | some total =>
            simp only [Option.any_some, Bool.or_eq_true, Bool.not_eq_true',
              decide_eq_true_eq, not_or, Bool.not_eq_false] at sound
            exact ⟨sound.1, by simpa using sound.2.1⟩
      have stored :
          ∀ prior ∈ (measurementOf previous).filter (·.attempt == attempt),
            prior.isStored = true := by
        intro prior isPrior
        have found := (Option.filter_eq_some_iff.mp isPrior).1
        exact (Option.filter_eq_some_iff.mp found).2
      have ofKept {keep : StudioRenderMeasurement → Bool} :
          ∀ kept ∈ ((measurementOf previous).filter
            (·.attempt == attempt)).filter keep,
            isMoment kept.lastProgressAt = true ∧ Sampled kept.samples := by
        intro kept isKept
        obtain ⟨_, _, _, moment, _, samples⟩ :=
          StudioRenderMeasurement.isStored_iff.mp
            (stored kept (Option.filter_eq_some_iff.mp isKept).1)
        exact ⟨moment, samples⟩
      refine StudioRenderMeasurement.isStored_iff.mpr
        ⟨counted, countable, totalCountable, ?lastMoment,
          length_lastEntries_le _ _, ?samples⟩
      case lastMoment =>
        apply getD_map_of_forall (isMoment · = true) _ nameable
        exact fun kept isKept => (ofKept kept isKept).1
      case samples =>
        apply Sampled.lastEntries
        apply Sampled.sampled _ report countable nameable
        apply getD_map_of_forall Sampled _ ⟨by simp, List.isChain_nil⟩
        exact fun kept isKept => (ofKept kept isKept).2

/-! ## The measurements of an attempt -/

variable {before between after : StudioRenderMeasurement}

/-- A measurement does not go behind one before it. -/
structure StudioRenderMeasurement.LeadsTo
    (before after : StudioRenderMeasurement) : Prop where
  stage : before.stage.index ≤ after.stage.index
  moment : before.lastProgressAt ≤ after.lastProgressAt
  unit : before.stage = after.stage → before.unit = some .frames →
    after.unit = some .frames
  processed : before.stage = after.stage → before.unit = after.unit →
    before.processed ≤ after.processed

theorem StudioRenderStage.index_injective :
    Function.Injective StudioRenderStage.index := by
  intro first second same
  cases first <;> cases second <;> first | rfl | nomatch same

theorem StudioRenderMeasurement.LeadsTo.trans
    (first : before.LeadsTo between)
    (second : between.LeadsTo after) :
    before.LeadsTo after := by
  have sameStage (same : before.stage = after.stage) :
      before.stage = between.stage ∧ between.stage = after.stage := by
    have back : between.stage = after.stage :=
      StudioRenderStage.index_injective
        (second.stage.antisymm (same ▸ first.stage))
    exact ⟨same.trans back.symm, back⟩
  refine ⟨first.stage.trans second.stage, first.moment.trans second.moment,
    fun same isFrames => second.unit (sameStage same).2
      (first.unit (sameStage same).1 isFrames), fun same sameUnit => ?_⟩
  have keepsUnit : before.unit = between.unit := by
    cases isUnit : between.unit with
    | none =>
        cases isBefore : before.unit with
        | none => rfl
        | some _ =>
            rw [first.unit (sameStage same).1 isBefore] at isUnit
            nomatch isUnit
    | some _ =>
        rw [sameUnit, second.unit (sameStage same).2 isUnit]
  exact (first.processed (sameStage same).1 keepsUnit).trans
    (second.processed (sameStage same).2 (keepsUnit.symm.trans sameUnit))

theorem leadsTo_of_advance
    {attempt : ℕ}
    {report : StudioRenderReport}
    {processed : ℕ}
    {total : Option ℕ}
    {now : ℤ}
    (stored : before.isStored = true)
    (owned : before.attempt = attempt)
    (advanced : advanceStudioRenderProgress (some before) attempt report
      processed total now = some after) :
    before.LeadsTo after := by
  have prior : (measurementOf (some before)).filter (·.attempt == attempt) =
      some before := by
    rw [measurementOf, Option.filter_some, if_pos stored, Option.filter_some,
      if_pos (beq_iff_eq.mpr owned)]
  unfold advanceStudioRenderProgress at advanced
  rw [prior] at advanced
  split at advanced
  · nomatch advanced
  · dsimp only at advanced
    split at advanced
    · nomatch advanced
    · rename_i ahead
      obtain rfl := Option.some.inj advanced
      simp only [Option.any_some, Bool.or_eq_true, Bool.and_eq_true,
        decide_eq_true_eq, not_or, not_and, Nat.not_lt, Int.not_lt, beq_iff_eq]
        at ahead
      obtain ⟨⟨⟨stage, moment⟩, sameCursor⟩, keepsUnit⟩ := ahead
      refine ⟨stage, ?_, fun same isFrames => ?_, fun same sameUnit =>
        (sameCursor ⟨same, sameUnit⟩).1⟩
      · dsimp only
        cases kept : Option.filter _ (some before) with
        | none => exact moment
        | some _ =>
            cases (Option.filter_eq_some_iff.mp kept).1
            exact le_rfl
      · by_contra other
        exact keepsUnit ⟨same, isFrames⟩ (bne_iff_ne.mpr other)

/-- A report of a render, when it comes. -/
structure ProgressReport where
  report : StudioRenderReport
  processed : ℕ
  total : Option ℕ
  now : ℤ

/-- What an attempt has recorded after its reports. -/
def progressAfter
    (attempt : ℕ)
    (reports : List ProgressReport) : Option StudioRenderMeasurement :=
  reports.foldl (fun recorded report =>
    (advanceStudioRenderProgress recorded attempt report.report report.processed
      report.total report.now).or recorded) none

/-- What is recorded in every run of reports of an attempt. -/
structure ProgressLaws : Prop where
  stored : ∀ attempt reports, finiteCount attempt = true →
    (∀ report ∈ reports, isMoment report.now = true) →
      ∀ recorded ∈ progressAfter attempt reports,
        recorded.isStored = true ∧ recorded.attempt = attempt
  forward : ∀ attempt earlier later, finiteCount attempt = true →
    (∀ report ∈ earlier ++ later, isMoment report.now = true) →
      ∀ before ∈ progressAfter attempt earlier,
        ∃ after ∈ progressAfter attempt (earlier ++ later),
          before.LeadsTo after

theorem attempt_of_advance
    {previous : Option StudioRenderMeasurement}
    {attempt : ℕ}
    {report : StudioRenderReport}
    {processed : ℕ}
    {total : Option ℕ}
    {now : ℤ}
    (advanced : advanceStudioRenderProgress previous attempt report
      processed total now = some after) :
    after.attempt = attempt := by
  unfold advanceStudioRenderProgress at advanced
  split at advanced
  · nomatch advanced
  · dsimp only at advanced
    split at advanced
    · nomatch advanced
    · exact congrArg StudioRenderMeasurement.attempt
        (Option.some.inj advanced).symm

/-- In every run of reports what is recorded is read back, and progress does
not go back. -/
theorem progressLaws : ProgressLaws := by
  have stored (attempt : ℕ) (reports : List ProgressReport)
      (counted : finiteCount attempt = true)
      (nameable : ∀ report ∈ reports, isMoment report.now = true) :
      ∀ recorded ∈ progressAfter attempt reports,
        recorded.isStored = true ∧ recorded.attempt = attempt := by
    induction reports using List.reverseRecOn with
    | nil =>
        nofun
    | append_singleton earlier report inductionHypothesis =>
        intro recorded isRecorded
        rw [progressAfter, List.foldl_append, List.foldl_cons, List.foldl_nil,
          Option.mem_def, Option.or_eq_some_iff] at isRecorded
        rcases isRecorded with advanced | ⟨_, kept⟩
        · exact ⟨advanceStudioRenderProgress_isStored counted
            (nameable _ (by simp)) advanced, attempt_of_advance advanced⟩
        · exact inductionHypothesis
            (fun other isOther => nameable _ (List.mem_append_left _ isOther))
            recorded kept
  refine ⟨stored, fun attempt earlier later counted nameable => ?_⟩
  induction later using List.reverseRecOn with
  | nil =>
      intro before isBefore
      rw [List.append_nil]
      exact ⟨before, isBefore, le_rfl, le_rfl, fun _ => id, fun _ _ => le_rfl⟩
  | append_singleton later report inductionHypothesis =>
      intro before isBefore
      rw [← List.append_assoc] at nameable ⊢
      have nameableBefore := fun other isOther =>
        nameable other (List.mem_append_left _ isOther)
      obtain ⟨between, isBetween, leads⟩ :=
        inductionHypothesis nameableBefore before isBefore
      obtain ⟨isStored, owned⟩ :=
        stored attempt _ counted nameableBefore between isBetween
      rw [progressAfter, List.foldl_append, List.foldl_cons, List.foldl_nil]
      rw [progressAfter, Option.mem_def] at isBetween
      rw [isBetween]
      cases advanced : advanceStudioRenderProgress (some between) attempt
          report.report report.processed report.total report.now with
      | none =>
          exact ⟨between, rfl, leads⟩
      | some after =>
          exact ⟨after, rfl,
            leads.trans (leadsTo_of_advance isStored owned advanced)⟩

end Frameleaf.MediaOperation
