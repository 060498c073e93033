import Frameleaf.RenderAdmission.Claim

namespace Frameleaf.RenderAdmission

/-!
# Offers and claims agree

A machine that is admitted to a claim has the memory and has proved the output
that an offer asks for.  What is offered for a machine is not refused to it for
its memory or its evidence when it claims.
-/

variable {language : Language} {input : ClaimAdmissionInput}
variable {settings request : Record}
variable {candidates : List RenderOutputCandidate}
variable {candidate : RenderOutputCandidate}
variable {colorPrecision : Option RenderColorPrecision}

/-- Two records agree on everything but the sealed picture. -/
def SameSettings
    (settings request : Record) : Prop :=
  ∀ name, name ≠ "minBitDepth" → name ≠ "transfer" →
    request name = settings name

theorem SameSettings.refl
    (settings : Record) :
    SameSettings settings settings :=
  fun _ _ _ => rfl

theorem SameSettings.requiredOutput_eq
    (same : SameSettings settings request) :
    requiredOutput request = requiredOutput settings := by
  have format := same "format" (by decide) (by decide)
  have mode := same "subtitleMode" (by decide) (by decide)
  have color := same "color" (by decide) (by decide)
  have resolution := same "resolution" (by decide) (by decide)
  have quality := same "quality" (by decide) (by decide)
  have audio := same "audio" (by decide) (by decide)
  have shape := same "shape" (by decide) (by decide)
  have sameFormat : requiredFormatOutput request =
      requiredFormatOutput settings := by
    unfold requiredFormatOutput
    rw [format, mode, color, resolution, quality, audio]
  unfold requiredOutput
  rw [sameFormat, shape, color]

theorem SameSettings.renderMemoryOf_eq
    (same : SameSettings settings request) :
    renderMemoryOf request = renderMemoryOf settings := by
  have format := same "format" (by decide) (by decide)
  have resolution := same "resolution" (by decide) (by decide)
  unfold renderMemoryOf
  rw [format, resolution]

theorem not_isEmpty_of_mem
    {items : List RenderOutputCandidate}
    (member : candidate ∈ items) :
    ¬ items.isEmpty = true :=
  fun empty => List.not_mem_nil (List.isEmpty_iff.mp empty ▸ member)

/-- An output is offered when one machine has all that it needs. -/
theorem evaluateRenderOutput_eq_none_iff :
    evaluateRenderOutput language candidates request = none ↔
      ∃ neededMemory, renderMemoryOf request = some neededMemory ∧
        ∃ candidate ∈ candidates,
          hasMemory neededMemory candidate = true ∧
            hasCodec language (requiredOutput request) candidate = true ∧
              colorSupported language request candidate = true := by
  unfold evaluateRenderOutput
  cases needs : renderMemoryOf request with
  | none =>
      constructor
      · intro offered
        split at offered
        · cases offered
        · cases offered
      · rintro ⟨_, found, _⟩
        cases found
  | some neededMemory =>
      constructor
      · intro offered
        dsimp only at offered
        split at offered
        · cases offered
        · split at offered
          · cases offered
          · split at offered
            · cases offered
            · split at offered
              · cases offered
              · rename_i hasColor
                obtain ⟨candidate, found⟩ := List.exists_mem_of_ne_nil _
                  (fun empty => hasColor (List.isEmpty_iff.mpr empty))
                simp only [List.mem_filter] at found
                obtain ⟨⟨⟨member, memory⟩, codec⟩, color⟩ := found
                exact ⟨_, rfl, candidate, member, memory, codec, color⟩
      · rintro ⟨_, found, candidate, member, memory, codec, color⟩
        cases found
        have inMemory : candidate ∈ candidates.filter
            (hasMemory neededMemory) :=
          List.mem_filter.mpr ⟨member, memory⟩
        have inCodec := List.mem_filter.mpr ⟨inMemory, codec⟩
        have inColor := List.mem_filter.mpr ⟨inCodec, color⟩
        dsimp only
        rw [if_neg (not_isEmpty_of_mem member),
          if_neg (not_isEmpty_of_mem inMemory),
          if_neg (not_isEmpty_of_mem inCodec),
          if_neg (not_isEmpty_of_mem inColor)]

variable {neededMemory : ℕ}

theorem evaluateRenderOutput_of_machine
    (needs : renderMemoryOf request = some neededMemory)
    (member : candidate ∈ candidates)
    (memory : hasMemory neededMemory candidate = true)
    (codec : hasCodec language (requiredOutput request) candidate = true) :
    evaluateRenderOutput language candidates request = none ∨
      evaluateRenderOutput language candidates request =
        some .incompatibleColor := by
  have inMemory : candidate ∈ candidates.filter (hasMemory neededMemory) :=
    List.mem_filter.mpr ⟨member, memory⟩
  have inCodec := List.mem_filter.mpr ⟨inMemory, codec⟩
  unfold evaluateRenderOutput
  rw [needs, if_neg (not_isEmpty_of_mem member)]
  dsimp only
  rw [if_neg (not_isEmpty_of_mem inMemory),
    if_neg (not_isEmpty_of_mem inCodec)]
  split
  · exact .inr rfl
  · exact .inl rfl

theorem isNumber_snapshotNumber
    {snapshot : Record}
    {key : String}
    {value : Number}
    (found : snapshotNumber snapshot key = some value) :
    value.IsNumber := by
  unfold snapshotNumber at found
  split at found
  · split at found
    · rename_i isFinite
      cases found
      exact .of_isFinite isFinite
    · cases found
  · split at found
    · rw [← Option.some.inj found]
      exact Number.isNumber_ofDigits _
    · cases found
  · cases found

theorem hasMemory_of_not_lacksMemory
    (isSettings : input.operation.settings = some settings)
    (enough : lacksMemory input = false) :
    ∃ neededMemory, renderMemoryOf settings = some neededMemory ∧
      hasMemory neededMemory (candidateOf input.session colorPrecision) =
        true := by
  unfold lacksMemory at enough
  rw [isSettings, Option.bind_some] at enough
  split at enough
  · rename_i requiredMemory bytes needs isBytes
    refine ⟨requiredMemory, needs, ?_⟩
    rw [Bool.or_eq_false_iff, Bool.not_eq_false'] at enough
    obtain ⟨isSafe, notBelow⟩ := enough
    have isHint : ((snapshotNumber input.operation.snapshot
        "gpuMemoryHintBytes").getD (.finite 0)).IsNumber := by
      cases found : snapshotNumber input.operation.snapshot
          "gpuMemoryHintBytes" with
      | none => exact Number.isNumber_finite 0
      | some hint => exact isNumber_snapshotNumber found
    have above := Number.le_of_not_lt_max (.of_isSafeInteger isSafe)
      (Number.isNumber_finite _) isHint notBelow
    rw [hasMemory, candidateOf, isBytes, Option.any_some, isSafe, above]
    rfl
  · cases enough

theorem not_lacksMemory_of_hasMemory
    (isSettings : input.operation.settings = some settings)
    (needs : renderMemoryOf settings = some neededMemory)
    (noHint : snapshotNumber input.operation.snapshot
      "gpuMemoryHintBytes" = none)
    (memory : hasMemory neededMemory
      (candidateOf input.session colorPrecision) = true) :
    lacksMemory input = false := by
  unfold lacksMemory
  rw [isSettings, Option.bind_some, needs, noHint]
  rw [hasMemory, candidateOf] at memory
  cases isBytes : input.session.gpuMemoryBytes with
  | none =>
      rw [isBytes] at memory
      cases memory
  | some bytes =>
      rw [isBytes, Option.any_some, Bool.and_eq_true] at memory
      obtain ⟨isSafe, above⟩ := memory
      have nonnegative : (Number.finite 0).le bytes = true :=
        Number.finite_le_of_le (Nat.cast_nonneg neededMemory) above
      dsimp only
      rw [isSafe, Option.getD_none,
        Number.not_lt_max_of_le above nonnegative]
      rfl

theorem requiredOutput_isSome
    {format : String}
    (names : asString (settings "format") = some format)
    (nonempty : format ≠ "") :
    (requiredOutput settings).isSome = true := by
  have isFormat : (requiredFormatOutput settings).isSome = true := by
    unfold requiredFormatOutput
    dsimp only
    rw [names]
    split
    · rfl
    · split
      · contradiction
      · rename_i isEmpty
        exact absurd (Option.some.inj isEmpty) nonempty
      · split
        · rfl
        · split
          · rfl
          · split
            · rfl
            · split
              · rfl
              · split
                · rfl
                · rfl
  obtain ⟨output, isOutput⟩ := Option.isSome_iff_exists.mp isFormat
  unfold requiredOutput
  rw [isOutput]
  dsimp only
  split
  · rfl
  · split
    · rfl
    · rfl

theorem engine_of_pairedRefusal
    {output : RequiredOutput}
    (paired : output.profiles.isNone = false)
    (passes : pairedRefusal input output = none) :
    input.session.engineDigest.getD "" ≠ "" := by
  unfold pairedRefusal at passes
  rw [paired] at passes
  dsimp only at passes
  rw [if_neg Bool.false_ne_true] at passes
  split at passes
  · cases passes
  · rename_i measured
    simp only [not_or, not_not] at measured
    obtain ⟨isRequired, _, _, same⟩ := measured
    obtain ⟨engine, isEngine⟩ := Option.ne_none_iff_exists'.mp isRequired
    rw [same, isEngine, Option.getD_some]
    unfold snapshotString named at isEngine
    exact of_decide_eq_true (Option.filter_eq_some_iff.mp isEngine).2

theorem admitted_iff :
    evaluateClaimAdmission language input = none ↔
      workerRefusal input = none ∧
        (input.operation.settings.bind requiredOutput).bind
          (pairedRefusal input) = none ∧
        (input.operation.settings.bind requiredOutput).any (fun output =>
          !provesOutput language input.session.capabilities output) = false ∧
        lacksMemory input = false ∧ concurrencyRefusal input = none := by
  unfold evaluateClaimAdmission
  dsimp only
  cases workerRefusal input with
  | some reason => simp
  | none =>
      cases (input.operation.settings.bind requiredOutput).bind
          (pairedRefusal input) with
      | some reason => simp
      | none =>
          dsimp only
          split
          · rename_i unproved
            simp [unproved]
          · rename_i proved
            split
            · rename_i lacks
              simp [lacks]
            · rename_i enough
              simp [proved, enough]

theorem provesOutput_candidateOf
    (session : Session)
    (output : RequiredOutput) :
    provesOutput language (some ⟨(candidateOf session colorPrecision).codecs,
        (candidateOf session colorPrecision).formats.getD []⟩) output =
      provesOutput language session.capabilities output := by
  unfold candidateOf
  cases session.capabilities with
  | some capabilities => rfl
  | none => simp [provesOutput]

theorem hasCodec_of_admitted
    {output : RequiredOutput}
    (isSettings : input.operation.settings = some settings)
    (isOutput : requiredOutput settings = some output)
    (admitted : evaluateClaimAdmission language input = none) :
    hasCodec language (some output)
      (candidateOf input.session colorPrecision) = true := by
  obtain ⟨_, passes, proves, _⟩ := admitted_iff.mp admitted
  rw [isSettings, Option.bind_some, isOutput] at passes proves
  rw [Option.bind_some] at passes
  rw [Option.any_some, Bool.not_eq_false'] at proves
  unfold hasCodec
  rw [Option.any_some, provesOutput_candidateOf, proves, Bool.and_true]
  cases paired : output.profiles.isNone with
  | true => rfl
  | false =>
      rw [Bool.false_or]
      exact decide_eq_true (engine_of_pairedRefusal paired passes)

/-- Every gate of a claim passes but those of its output and its memory. -/
structure OtherGatesPass
    (input : ClaimAdmissionInput) : Prop where
  worker : workerRefusal input = none
  paired : (input.operation.settings.bind requiredOutput).bind
    (pairedRefusal input) = none
  concurrency : concurrencyRefusal input = none
  noHint : snapshotNumber input.operation.snapshot "gpuMemoryHintBytes" = none

theorem admitted_of_offered
    (isSettings : input.operation.settings = some settings)
    (needs : renderMemoryOf settings = some neededMemory)
    (memory : hasMemory neededMemory
      (candidateOf input.session colorPrecision) = true)
    (codec : hasCodec language (requiredOutput settings)
      (candidateOf input.session colorPrecision) = true)
    (others : OtherGatesPass input) :
    evaluateClaimAdmission language input = none := by
  refine admitted_iff.mpr ⟨others.worker, others.paired, ?_,
    not_lacksMemory_of_hasMemory isSettings needs others.noHint memory,
    others.concurrency⟩
  rw [isSettings, Option.bind_some]
  unfold hasCodec at codec
  cases isOutput : requiredOutput settings with
  | none => rfl
  | some output =>
      rw [isOutput, Option.any_some, Bool.and_eq_true,
        provesOutput_candidateOf] at codec
      rw [Option.any_some, codec.2]
      rfl

/-- Offers and claims agree.  Where settings that name a format are admitted
for a machine, an offer of them stops at no stage before that of the colour;
and what is offered is admitted for one of the machines when it claims, if no
memory hint is given and its other gates pass. -/
theorem offers_agree_with_claims
    (language : Language)
    (candidates : List RenderOutputCandidate)
    (settings request : Record)
    (same : SameSettings settings request) :
    (∀ input colorPrecision format,
      input.operation.settings = some settings →
        asString (settings "format") = some format → format ≠ "" →
          candidateOf input.session colorPrecision ∈ candidates →
            evaluateClaimAdmission language input = none →
              evaluateRenderOutput language candidates request = none ∨
                evaluateRenderOutput language candidates request =
                  some .incompatibleColor) ∧
    (evaluateRenderOutput language candidates request = none →
      ∃ candidate ∈ candidates, ∀ input colorPrecision,
        candidateOf input.session colorPrecision = candidate →
          input.operation.settings = some settings →
            OtherGatesPass input →
              evaluateClaimAdmission language input = none) := by
  constructor
  · intro input colorPrecision format isSettings names nonempty member admitted
    obtain ⟨output, isOutput⟩ := Option.isSome_iff_exists.mp
      (requiredOutput_isSome names nonempty)
    obtain ⟨neededMemory, needs, memory⟩ := hasMemory_of_not_lacksMemory
      isSettings (admitted_iff.mp admitted).2.2.2.1
    refine evaluateRenderOutput_of_machine
      (same.renderMemoryOf_eq.trans needs) member memory ?_
    rw [same.requiredOutput_eq, isOutput]
    exact hasCodec_of_admitted isSettings isOutput admitted
  · intro offered
    obtain ⟨neededMemory, needs, candidate, member, memory, codec, _⟩ :=
      evaluateRenderOutput_eq_none_iff.mp offered
    rw [same.renderMemoryOf_eq] at needs
    rw [same.requiredOutput_eq] at codec
    refine ⟨candidate, member, ?_⟩
    rintro input colorPrecision rfl isSettings others
    exact admitted_of_offered isSettings needs memory codec others

/-- The language where texts are plain and settings hold plain numbers. -/
def plainLanguage : Language where
  toLowerCase := String.toLower
  toNumber _ := none

/-- Settings of an export, with the format that they name. -/
def exportSettings
    (format : Option Unknown) : Record
  | "format" => format
  | "color" => some (.string "preserve")
  | "resolution" => some (.string "720p")
  | _ => none

/-- A claim of a worker with two gigabytes that writes H.264 into MP4. -/
def exportClaim
    (format : Option Unknown) : ClaimAdmissionInput where
  worker := {
    id := "worker"
    name := "Studio"
    destination := .localMachine
    revoked := false
    kinds := [.studioExport]
    activeOperations := .finite 0
    maxConcurrentOperations := .finite 1
    engineDigest := none
    conformanceMaxAgeMs := .finite 1000 }
  session := {
    expiresAt := .finite 2000
    revoked := false
    scopes := [.studioExport]
    gpuMemoryBytes := some (.finite (2 * 1024 ^ 3))
    engineDigest := none
    conformanceReportedAt := .finite 900
    capabilities := some ⟨["libx264"], ["mp4"]⟩ }
  operation := {
    kind := .studioExport
    destination := .localMachine
    destinationDetail := none
    snapshot := fun _ => none
    settings := some (exportSettings format) }
  owner := ⟨.finite 0, .finite 1⟩
  destinationHealth := .available
  now := .finite 1000

/-- The settings of this claim are offered for its machine. -/
theorem mp4_is_offered :
    evaluateRenderOutput plainLanguage
        [candidateOf (exportClaim (some (.string "mp4-h264"))).session none]
        (exportSettings (some (.string "mp4-h264"))) = none ∨
      evaluateRenderOutput plainLanguage
        [candidateOf (exportClaim (some (.string "mp4-h264"))).session none]
        (exportSettings (some (.string "mp4-h264"))) =
          some .incompatibleColor :=
  (offers_agree_with_claims plainLanguage _ _ _ (SameSettings.refl _)).1
    (exportClaim (some (.string "mp4-h264"))) none "mp4-h264" rfl rfl
    (by decide) (List.mem_singleton_self _) (by decide +kernel)

/-- Settings that name no format are admitted, though none offers them. -/
theorem no_format_is_admitted_but_not_offered :
    evaluateClaimAdmission plainLanguage (exportClaim none) = none ∧
      evaluateRenderOutput plainLanguage
        [candidateOf (exportClaim none).session none] (exportSettings none) =
          some .codecUnavailable := by
  decide +kernel

end Frameleaf.RenderAdmission
