import Mathlib.Data.List.DropRight
import Mathlib.Data.List.Infix
import Mathlib.Data.List.Sort
import Mathlib.Data.List.TakeWhile

namespace Frameleaf.MediaOperation

/-!
# Where a resumed render starts

Chunks are kept from the first one on until one does not match what is stored.
The start is then moved back over chunks that cannot be entered from a cold
decoder, so that some matching chunks are rendered once more.
-/

/-- States of a stored chunk. -/
inductive CheckpointState where
  | pending
  | complete
  | invalid
deriving DecidableEq

/-- Everything that decides whether a chunk is the same work as before. -/
structure ChunkIdentity where
  inputDigest : String
  historyDigest : String
  configDigest : String
  seed : Option String
  timebase : String
  startTicks : ℤ
  endTicks : ℤ
deriving DecidableEq

attribute [ext] ChunkIdentity

/-- A chunk of an earlier render. -/
structure StoredChunk extends ChunkIdentity where
  sequence : ℤ
  state : CheckpointState
  chunkKey : String
  requiresSequentialContext : Bool
  outputPath : Option String
deriving DecidableEq

/-- A chunk of the render that is planned. -/
structure ChunkPlan extends ChunkIdentity where
  sequence : ℤ
  chunkKey : String
  requiresSequentialContext : Bool
deriving DecidableEq

/-- Why a stored chunk is not used again. -/
inductive ChunkReuseRejection where
  | notFound
  | notComplete
  | noOutput
  | chunkKeyMismatch
  | inputMismatch
  | historyMismatch
  | configMismatch
  | seedMismatch
  | timebaseMismatch
  | rangeMismatch
deriving DecidableEq

/-- Whether a stored chunk may be used again. -/
inductive ChunkReuseDecision where
  | reusable
  | rejected (reason : ChunkReuseRejection)
deriving DecidableEq

/-- Whether a stored chunk may be used for a planned one. -/
def canReuseChunk
    (stored : Option StoredChunk)
    (planned : ChunkPlan) : ChunkReuseDecision :=
  match stored with
  | none =>
      .rejected .notFound
  | some stored =>
      if stored.state ≠ .complete then
        .rejected .notComplete
      else if stored.outputPath.getD "" = "" then
        .rejected .noOutput
      else if stored.chunkKey ≠ planned.chunkKey then
        .rejected .chunkKeyMismatch
      else if stored.inputDigest ≠ planned.inputDigest then
        .rejected .inputMismatch
      else if stored.historyDigest ≠ planned.historyDigest then
        .rejected .historyMismatch
      else if stored.configDigest ≠ planned.configDigest then
        .rejected .configMismatch
      else if stored.seed ≠ planned.seed then
        .rejected .seedMismatch
      else if stored.timebase ≠ planned.timebase then
        .rejected .timebaseMismatch
      else if stored.startTicks ≠ planned.startTicks ∨
          stored.endTicks ≠ planned.endTicks then
        .rejected .rangeMismatch
      else
        .reusable

/-- What a resumed render keeps and where it starts. -/
structure ResumePlan where
  reusable : List ChunkPlan
  resumeFrom : ℤ
  rerendered : List ChunkPlan

/-- `byFrame.get(sequence)`: of two stored chunks with one number, the map has
the later one. -/
def byFrame
    (stored : List StoredChunk)
    (sequence : ℤ) : Option StoredChunk :=
  stored.reverse.find? fun chunk => chunk.sequence = sequence

/-- The planned chunks by their numbers; a stable sort. -/
def orderedChunks
    (planned : List ChunkPlan) : List ChunkPlan :=
  planned.insertionSort fun first second => first.sequence ≤ second.sequence

/-- Whether the stored chunk of a planned one may be used for it. -/
def isReusable
    (stored : List StoredChunk)
    (chunk : ChunkPlan) : Bool :=
  canReuseChunk (byFrame stored chunk.sequence) chunk = .reusable

/-- How many chunks from the first one on may be used again. -/
def reuseBoundary
    (stored : List StoredChunk) : List ChunkPlan → ℕ
  | [] =>
      0
  | chunk :: chunks =>
      if isReusable stored chunk then
        reuseBoundary stored chunks + 1
      else
        0

/-- The boundary, walked back over chunks that carry state. -/
def walkBack
    (ordered : List ChunkPlan) : ℕ → ℕ
  | 0 =>
      0
  | safe + 1 =>
      if ordered[safe]?.any (·.requiresSequentialContext) then
        walkBack ordered safe
      else
        safe + 1

/-- `planChunkResume` -/
def planChunkResume
    (stored : List StoredChunk)
    (planned : List ChunkPlan) : ResumePlan :=
  let ordered := orderedChunks planned
  let boundary := reuseBoundary stored ordered
  let safe := walkBack ordered boundary
  { reusable := ordered.take safe
    resumeFrom := ((ordered[safe]?).map (·.sequence)).getD ordered.length
    rerendered := (ordered.take boundary).drop safe }

/-! ## The chunks that match -/

/-- A planned chunk agrees with its stored chunk in everything that identifies
its work. -/
def Matches
    (stored : List StoredChunk)
    (planned : ChunkPlan) : Prop :=
  ∃ chunk, byFrame stored planned.sequence = some chunk ∧
    chunk.state = .complete ∧
    (∃ path, chunk.outputPath = some path ∧ path ≠ "") ∧
    chunk.chunkKey = planned.chunkKey ∧
    chunk.toChunkIdentity = planned.toChunkIdentity

theorem canReuseChunk_some_iff
    {stored : StoredChunk}
    {planned : ChunkPlan} :
    canReuseChunk (some stored) planned = .reusable ↔
      stored.state = .complete ∧
        (∃ path, stored.outputPath = some path ∧ path ≠ "") ∧
        stored.chunkKey = planned.chunkKey ∧
        stored.toChunkIdentity = planned.toChunkIdentity := by
  have hasOutput : stored.outputPath.getD "" ≠ "" ↔
      ∃ path, stored.outputPath = some path ∧ path ≠ "" := by
    cases stored.outputPath with
    | none =>
        simp
    | some path =>
        simp
  have sameIdentity : stored.toChunkIdentity = planned.toChunkIdentity ↔
      stored.inputDigest = planned.inputDigest ∧
        stored.historyDigest = planned.historyDigest ∧
        stored.configDigest = planned.configDigest ∧
        stored.seed = planned.seed ∧ stored.timebase = planned.timebase ∧
        stored.startTicks = planned.startTicks ∧
        stored.endTicks = planned.endTicks :=
    ChunkIdentity.ext_iff
  rw [← hasOutput, sameIdentity]
  unfold canReuseChunk
  dsimp only
  constructor
  · intro reusable
    split_ifs at reusable with state output key input history config seed
      timebase range
    obtain ⟨start, stop⟩ := not_or.mp range
    exact ⟨not_not.mp state, output, not_not.mp key, not_not.mp input,
      not_not.mp history, not_not.mp config, not_not.mp seed,
      not_not.mp timebase, not_not.mp start, not_not.mp stop⟩
  · rintro ⟨state, output, key, input, history, config, seed, timebase, start,
      stop⟩
    simp [state, output, key, input, history, config, seed, timebase, start,
      stop]

variable {stored : List StoredChunk}

theorem isReusable_iff
    {planned : ChunkPlan} :
    isReusable stored planned = true ↔ Matches stored planned := by
  unfold isReusable Matches
  rw [decide_eq_true_iff]
  cases byFrame stored planned.sequence with
  | none =>
      simp [canReuseChunk]
  | some chunk =>
      rw [canReuseChunk_some_iff]
      simp

theorem take_reuseBoundary
    (stored : List StoredChunk)
    (chunks : List ChunkPlan) :
    chunks.take (reuseBoundary stored chunks) =
      chunks.takeWhile (isReusable stored) := by
  induction chunks with
  | nil =>
      rfl
  | cons chunk chunks inductionHypothesis =>
      rw [reuseBoundary, List.takeWhile_cons]
      split
      · rw [List.take_succ_cons, inductionHypothesis]
      · rfl

theorem take_walkBack
    {ordered : List ChunkPlan}
    {boundary : ℕ}
    (inside : boundary ≤ ordered.length) :
    ordered.take (walkBack ordered boundary) =
      (ordered.take boundary).rdropWhile (·.requiresSequentialContext) := by
  induction boundary with
  | zero =>
      rfl
  | succ safe inductionHypothesis =>
      have here : safe < ordered.length := inside
      have last : ordered.take (safe + 1) = ordered.take safe ++ [ordered[safe]] :=
        List.take_succ_eq_append_getElem here
      rw [walkBack, last, List.rdropWhile_concat, List.getElem?_eq_getElem here,
        Option.any_some]
      split
      · exact inductionHypothesis here.le
      · exact last

/-! ## Prefixes -/

section Prefixes

variable {α : Type} {property : α → Bool}

variable {list kept : List α}

theorem prefix_takeWhile
    (isPrefix : kept <+: list)
    (holds : ∀ element ∈ kept, property element = true) :
    kept <+: list.takeWhile property := by
  induction kept generalizing list with
  | nil =>
      exact List.nil_prefix
  | cons element kept inductionHypothesis =>
      obtain ⟨rest, rfl⟩ := isPrefix
      obtain ⟨here, later⟩ := List.forall_mem_cons.mp holds
      rw [List.cons_append, List.takeWhile_cons_of_pos here,
        List.prefix_cons_inj]
      exact inductionHypothesis (List.prefix_append kept rest) later

theorem prefix_rdropWhile
    (isPrefix : kept <+: list)
    (last : ∀ element, kept.getLast? = some element →
      property element = false) :
    kept <+: list.rdropWhile property := by
  induction list using List.reverseRecOn with
  | nil =>
      exact isPrefix
  | append_singleton list element inductionHypothesis =>
      obtain rfl | before := List.prefix_concat_iff.mp isPrefix
      · have without := last element List.getLast?_concat
        have nothing := List.rdropWhile_concat_neg property list element
          (Bool.eq_false_iff.mp without)
        exact nothing.symm ▸ List.prefix_refl _
      · rw [List.rdropWhile_concat]
        split
        · exact inductionHypothesis before
        · exact isPrefix

theorem getLast?_rdropWhile
    {element : α}
    (isLast : (list.rdropWhile property).getLast? = some element) :
    property element = false := by
  have nonempty := List.ne_nil_of_mem (List.mem_of_getLast? isLast)
  have without := List.rdropWhile_last_not property list nonempty
  rw [List.getLast?_eq_some_getLast nonempty] at isLast
  rw [Option.some_inj.mp isLast] at without
  exact Bool.eq_false_iff.mpr without

end Prefixes

/-! ## The plan -/

/-- The numbers of planned chunks are different. -/
def DistinctSequences
    (planned : List ChunkPlan) : Prop :=
  (planned.map (·.sequence)).Nodup

theorem orderedChunks_perm
    (planned : List ChunkPlan) :
    (orderedChunks planned).Perm planned :=
  List.perm_insertionSort _ _

variable {planned : List ChunkPlan}

theorem orderedChunks_ascends
    (distinct : DistinctSequences planned) :
    (orderedChunks planned).Pairwise (·.sequence < ·.sequence) := by
  have sorted : (orderedChunks planned).Pairwise
      (·.sequence ≤ ·.sequence) := by
    have total : Std.Total fun first second : ChunkPlan =>
        first.sequence ≤ second.sequence :=
      ⟨fun first second => le_total first.sequence second.sequence⟩
    have transitive : IsTrans ChunkPlan fun first second =>
        first.sequence ≤ second.sequence :=
      ⟨fun _ _ _ => le_trans⟩
    exact List.pairwise_insertionSort _ planned
  have different : (orderedChunks planned).Pairwise
      (·.sequence ≠ ·.sequence) := by
    apply List.pairwise_map.mp
    exact ((orderedChunks_perm planned).map _).nodup_iff.mpr distinct
  exact (sorted.and different).imp fun both => lt_of_le_of_ne both.1 both.2

theorem reuseBoundary_le
    (stored : List StoredChunk)
    (chunks : List ChunkPlan) :
    reuseBoundary stored chunks ≤ chunks.length := by
  induction chunks with
  | nil =>
      exact le_rfl
  | cons chunk chunks inductionHypothesis =>
      rw [reuseBoundary, List.length_cons]
      split
      · omega
      · omega

theorem walkBack_le
    (ordered : List ChunkPlan)
    (boundary : ℕ) :
    walkBack ordered boundary ≤ boundary := by
  induction boundary with
  | zero =>
      exact le_rfl
  | succ safe inductionHypothesis =>
      rw [walkBack]
      split
      · omega
      · exact le_rfl

section Plan

variable (stored : List StoredChunk) (planned : List ChunkPlan)

/-- The chunks that match from the first one on. -/
def matchingChunks : List ChunkPlan :=
  (orderedChunks planned).takeWhile (isReusable stored)

theorem reusable_eq :
    (planChunkResume stored planned).reusable =
      (matchingChunks stored planned).rdropWhile
        (·.requiresSequentialContext) := by
  unfold matchingChunks
  rw [← take_reuseBoundary, ← take_walkBack (reuseBoundary_le _ _)]
  rfl

theorem reusable_append_rerendered :
    (planChunkResume stored planned).reusable ++
        (planChunkResume stored planned).rerendered =
      matchingChunks stored planned := by
  have notBehind := walkBack_le (orderedChunks planned)
    (reuseBoundary stored (orderedChunks planned))
  have isTaken : (planChunkResume stored planned).reusable =
      ((orderedChunks planned).take
        (reuseBoundary stored (orderedChunks planned))).take
        (walkBack (orderedChunks planned)
          (reuseBoundary stored (orderedChunks planned))) := by
    rw [List.take_take, min_eq_left notBehind]
    rfl
  unfold matchingChunks
  rw [isTaken, ← take_reuseBoundary]
  exact List.take_append_drop _ _

theorem exists_rest :
    ∃ rest,
      (planChunkResume stored planned).reusable ++ rest =
          orderedChunks planned ∧
        (planChunkResume stored planned).rerendered <+: rest ∧
        (planChunkResume stored planned).resumeFrom =
          ((rest.head?).map (·.sequence)).getD (planned.length : ℤ) := by
  have inFront := List.take_prefix
    (reuseBoundary stored (orderedChunks planned)) (orderedChunks planned)
  refine ⟨(orderedChunks planned).drop (walkBack (orderedChunks planned)
    (reuseBoundary stored (orderedChunks planned))),
    List.take_append_drop _ _, inFront.drop _, ?_⟩
  rw [List.head?_drop, ← (orderedChunks_perm planned).length_eq]
  rfl

end Plan

theorem filter_resumeFrom
    {rest : List ChunkPlan}
    {first : ChunkPlan}
    (distinct : DistinctSequences planned)
    (parts : (planChunkResume stored planned).reusable ++ first :: rest =
      orderedChunks planned) :
    (∀ chunk ∈ (planChunkResume stored planned).reusable,
        chunk.sequence < first.sequence) ∧
      (orderedChunks planned).filter (first.sequence ≤ ·.sequence) =
        first :: rest := by
  have ascends := orderedChunks_ascends distinct
  rw [← parts] at ascends ⊢
  obtain ⟨-, later, before⟩ := List.pairwise_append.mp ascends
  have isBefore (chunk : ChunkPlan)
      (member : chunk ∈ (planChunkResume stored planned).reusable) :
      chunk.sequence < first.sequence :=
    before chunk member first List.mem_cons_self
  refine ⟨isBefore, ?_⟩
  rw [List.filter_append, List.filter_eq_nil_iff.mpr, List.filter_eq_self.mpr,
    List.nil_append]
  · intro chunk member
    obtain rfl | inRest := List.mem_cons.mp member
    · exact decide_eq_true le_rfl
    · exact decide_eq_true ((List.pairwise_cons.mp later).1 chunk inRest).le
  · intro chunk member
    rw [decide_eq_true_iff, not_le]
    exact isBefore chunk member

theorem exists_first
    (unfinished : (planChunkResume stored planned).reusable ≠
      orderedChunks planned) :
    ∃ first rest,
      (planChunkResume stored planned).reusable ++ first :: rest =
          orderedChunks planned ∧
        (planChunkResume stored planned).rerendered <+: first :: rest ∧
        (planChunkResume stored planned).resumeFrom = first.sequence := by
  obtain ⟨rest, parts, again, start⟩ := exists_rest stored planned
  cases rest with
  | nil =>
      rw [List.append_nil] at parts
      exact absurd parts unfinished
  | cons first rest =>
      exact ⟨first, rest, parts, again, start⟩

/-- What holds of the plan of a resumed render. -/
structure ChunkResumeLaws : Prop where
  /-- The plan is ordered by the numbers of its chunks. -/
  ordered : ∀ planned, (orderedChunks planned).Perm planned ∧
    (DistinctSequences planned →
      (orderedChunks planned).Pairwise (·.sequence < ·.sequence))
  /-- The kept and the rendered chunks are the longest prefix of the plan, by
  its numbers, in which every chunk matches. -/
  longest : ∀ stored planned,
    let resume := planChunkResume stored planned
    resume.reusable ++ resume.rerendered <+: orderedChunks planned ∧
      (∀ chunk ∈ resume.reusable ++ resume.rerendered,
        Matches stored chunk) ∧
      ∀ kept, kept <+: orderedChunks planned →
        (∀ chunk ∈ kept, Matches stored chunk) →
        kept <+: resume.reusable ++ resume.rerendered
  /-- The render does not start behind a chunk that carries state. -/
  startsClean : ∀ stored planned chunk,
    (planChunkResume stored planned).reusable.getLast? = some chunk →
    chunk.requiresSequentialContext = false
  /-- No longer part of the matching chunks ends without state. -/
  leastGivenUp : ∀ stored planned kept,
    let resume := planChunkResume stored planned
    kept <+: resume.reusable ++ resume.rerendered →
    (∀ chunk, kept.getLast? = some chunk →
      chunk.requiresSequentialContext = false) →
    kept <+: resume.reusable
  /-- As long as a chunk is not kept, the render starts at the number of a
  chunk, and the kept chunks and those from this number on are the plan.  The
  chunks that are rendered again are the first of the latter. -/
  covers : ∀ stored planned,
    let resume := planChunkResume stored planned
    let rest := (orderedChunks planned).filter
      (resume.resumeFrom ≤ ·.sequence)
    DistinctSequences planned →
    resume.reusable ≠ orderedChunks planned →
    resume.reusable ++ rest = orderedChunks planned ∧
      resume.rerendered <+: rest ∧
      ∃ first, rest.head? = some first ∧ first.sequence = resume.resumeFrom
  /-- So the render never starts at a chunk that is kept. -/
  apart : ∀ stored planned,
    let resume := planChunkResume stored planned
    DistinctSequences planned →
    resume.reusable ≠ orderedChunks planned →
    ∀ chunk ∈ resume.reusable, chunk.sequence < resume.resumeFrom
  /-- When all chunks are kept and their numbers are below their count, no
  chunk is left from the start on. -/
  finished : ∀ stored planned,
    let resume := planChunkResume stored planned
    resume.reusable = orderedChunks planned →
    (∀ chunk ∈ planned, chunk.sequence < planned.length) →
    ∀ chunk ∈ planned, chunk.sequence < resume.resumeFrom
  /-- When all chunks match and the last one carries state, the render starts
  at a chunk that is rendered again. -/
  stateful : ∀ stored planned last,
    let resume := planChunkResume stored planned
    (∀ chunk ∈ planned, Matches stored chunk) →
    (orderedChunks planned).getLast? = some last →
    last.requiresSequentialContext = true →
    ∃ first, resume.rerendered.head? = some first ∧
      first.sequence = resume.resumeFrom

/-- A resumed render keeps what it may and starts at what is left. -/
theorem chunkResumeLaws : ChunkResumeLaws where
  ordered planned :=
    ⟨orderedChunks_perm planned, orderedChunks_ascends⟩
  longest stored planned := by
    intro resume
    rw [reusable_append_rerendered]
    refine ⟨List.takeWhile_prefix _, ?_, ?_⟩
    · intro chunk member
      exact isReusable_iff.mp (List.mem_takeWhile_imp member)
    · intro kept isPrefix matching
      apply prefix_takeWhile isPrefix
      intro chunk member
      exact isReusable_iff.mpr (matching chunk member)
  startsClean stored planned chunk isLast := by
    rw [reusable_eq] at isLast
    have clean := getLast?_rdropWhile isLast
    exact clean
  leastGivenUp stored planned kept := by
    intro resume isPrefix clean
    rw [reusable_append_rerendered] at isPrefix
    rw [reusable_eq]
    exact prefix_rdropWhile isPrefix clean
  covers stored planned := by
    intro resume rest distinct unfinished
    obtain ⟨first, later, parts, again, start⟩ := exists_first unfinished
    have isRest : rest = first :: later := by
      have from' := (filter_resumeFrom distinct parts).2
      rw [← start] at from'
      exact from'
    rw [isRest]
    exact ⟨parts, again, first, rfl, start.symm⟩
  apart stored planned := by
    intro resume distinct unfinished chunk member
    obtain ⟨first, later, parts, again, start⟩ := exists_first unfinished
    rw [start]
    exact (filter_resumeFrom distinct parts).1 chunk member
  finished stored planned := by
    intro resume all below chunk member
    obtain ⟨rest, parts, again, start⟩ := exists_rest stored planned
    have nothing : rest = [] := by
      rw [all] at parts
      exact List.append_right_eq_self.mp parts
    rw [nothing] at start
    rw [start]
    exact below chunk member
  stateful stored planned last := by
    intro resume all isLast carries
    have matching : matchingChunks stored planned = orderedChunks planned := by
      apply List.takeWhile_eq_self_iff.mpr
      intro chunk member
      have isPlanned := (orderedChunks_perm planned).mem_iff.mp member
      exact isReusable_iff.mpr (all chunk isPlanned)
    have unfinished : resume.reusable ≠ orderedChunks planned := by
      intro kept
      rw [← kept, reusable_eq] at isLast
      have clean := getLast?_rdropWhile isLast
      rw [carries] at clean
      cases clean
    obtain ⟨first, later, parts, again, start⟩ := exists_first unfinished
    have together := reusable_append_rerendered stored planned
    rw [matching, ← parts] at together
    refine ⟨first, ?_, start.symm⟩
    rw [List.append_cancel_left together, List.head?_cons]

/-- A planned chunk with a number, and whether it carries state. -/
def numberedChunk
    (sequence : ℤ)
    (carries : Bool) : ChunkPlan where
  inputDigest := "input"
  historyDigest := "history"
  configDigest := "config"
  seed := none
  timebase := "1/30000"
  startTicks := 0
  endTicks := 30000
  sequence
  chunkKey := "chunk"
  requiresSequentialContext := carries

/-- The stored chunk of a planned one that was rendered. -/
def renderedChunk
    (chunk : ChunkPlan) : StoredChunk :=
  { chunk with
    state := .complete
    outputPath := some "chunk.mp4" }

/-- A matching chunk that carries state is rendered again and also one of those
from the start on; and when the chunks 1 and 2 are both kept, the start is 2. -/
theorem resume_overlaps :
    (∃ stored planned,
      let resume := planChunkResume stored planned
      DistinctSequences planned ∧
        ¬ (resume.reusable ++ resume.rerendered ++
          planned.filter (resume.resumeFrom ≤ ·.sequence)).Perm planned) ∧
    (∃ stored planned,
      let resume := planChunkResume stored planned
      DistinctSequences planned ∧
        ∃ chunk ∈ resume.reusable, chunk.sequence = resume.resumeFrom) := by
  constructor
  · refine ⟨[renderedChunk (numberedChunk 0 true)], [numberedChunk 0 true], ?_⟩
    unfold DistinctSequences
    decide +kernel
  · refine ⟨[renderedChunk (numberedChunk 1 false),
      renderedChunk (numberedChunk 2 false)],
      [numberedChunk 1 false, numberedChunk 2 false], ?_⟩
    unfold DistinctSequences
    decide +kernel

end Frameleaf.MediaOperation
