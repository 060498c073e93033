import Frameleaf.AttemptTree.Turns

namespace Frameleaf.AttemptTree

/-!
# Slices and their progress

Every slice takes some of the pending turns, in order.  The work that is left
falls with every turn and with every read of a page that is cut, so a slice
that keeps its windows never stands still.
-/

variable {fileSystem : FileSystem} {roots : List Path}

/-- The work left: the turns, and the reads of the page at hand. -/
def workLeft
    (fileSystem : FileSystem)
    (roots : List Path)
    (cursor : Cursor)
    (windows : Windows) : ℕ :=
  (pendingTurns fileSystem roots cursor).length * (fileSystem.width + 2) +
    readsLeft fileSystem roots cursor windows

theorem directoryTurns_ne_nil
    (walk : Option (Path → List (List Visit)))
    (path : Path)
    (entries : List Name) :
    directoryTurns fileSystem walk path entries ≠ [] := by
  rw [directoryTurns]
  split <;> simp

theorem Reaches.pendingTurns_eq_nil_iff
    {cursor : Cursor}
    {windows : Windows}
    (reaches : Reaches fileSystem roots cursor windows) :
    pendingTurns fileSystem roots cursor = [] ↔
      cursor.root = roots.length := by
  constructor
  · intro noTurns
    by_contra notEnd
    obtain ⟨-, notEmpty, -⟩ :=
      reaches.enter (lt_of_le_of_ne reaches.inRange notEnd)
    rw [pendingTurns, List.append_eq_nil_iff] at noTurns
    cases isStack : (cursor.enter roots).stack with
    | nil =>
        exact notEmpty isStack
    | cons frame below =>
        rw [isStack, stackTurns, List.append_eq_nil_iff] at noTurns
        exact directoryTurns_ne_nil _ _ _ noTurns.1.1
  · intro isEnd
    obtain ⟨root, stack⟩ := cursor
    have noStack : stack = [] := by
      by_contra notEmpty
      exact (reaches.opened notEmpty).ne isEnd
    subst noStack
    rw [pendingTurns_root, List.drop_of_length_le (le_of_eq isEnd.symm),
      List.flatMap_nil]

variable {slice next last : Slice}

theorem Takes.workLeft_lt
    (taken : Takes fileSystem roots slice next) :
    workLeft fileSystem roots next.cursor next.windows <
      workLeft fileSystem roots slice.cursor slice.windows := by
  obtain ⟨visits, first, -⟩ := taken.first
  have few := taken.reaches.readsLeft_le
  rw [workLeft, workLeft, first, List.length_cons, Nat.add_mul]
  omega

variable {reads : ℕ}

theorem Spent.pos
    {budget spent : Budget}
    (isSpent : Spent budget spent reads)
    (mayRead : budget.mayRead)
    (exhausted : spent.mayRead = false) :
    0 < reads := by
  apply Nat.pos_of_ne_zero
  rintro rfl
  obtain ⟨maximum, made, clock⟩ := isSpent
  have same : spent.mayRead = budget.mayRead := by
    rw [Budget.mayRead, Budget.mayRead, maximum, made, ← clock]
    rfl
  rw [same, mayRead] at exhausted
  simp at exhausted

theorem Spent.mayRead
    {budget spent : Budget}
    (isSpent : Spent budget spent reads)
    (enoughReads : budget.reads + reads < budget.maximum)
    (enoughTime : reads < budget.clock) :
    spent.mayRead := by
  obtain ⟨maximum, made, clock⟩ := isSpent
  simp only [Budget.mayRead, Bool.and_eq_true, decide_eq_true_eq]
  omega

/-- What a slice has done when its loop ends. -/
structure Advances
    (fileSystem : FileSystem)
    (roots : List Path)
    (slice last : Slice) : Prop where
  reaches : Reaches fileSystem roots last.cursor last.windows
  turns : ∃ taken,
    pendingTurns fileSystem roots slice.cursor =
        taken ++ pendingTurns fileSystem roots last.cursor ∧
      last.visits = slice.visits ++ taken.flatten
  work : workLeft fileSystem roots last.cursor last.windows ≤
    workLeft fileSystem roots slice.cursor slice.windows

theorem Advances.refl
    (reaches : Reaches fileSystem roots slice.cursor slice.windows) :
    Advances fileSystem roots slice slice :=
  ⟨reaches, ⟨[], by simp, by simp⟩, le_rfl⟩

theorem Takes.advances
    (taken : Takes fileSystem roots slice next)
    (advances : Advances fileSystem roots next last) :
    Advances fileSystem roots slice last := by
  have less := taken.workLeft_lt
  obtain ⟨visits, first, made⟩ := taken.first
  obtain ⟨reaches, ⟨rest, left, madeRest⟩, work⟩ := advances
  refine ⟨reaches, ⟨visits :: rest, ?_, ?_⟩, work.trans less.le⟩
  · rw [first, left, List.cons_append]
  · rw [madeRest, made, List.flatten_cons, List.append_assoc]

theorem Advances.ofTick
    (advances : Advances fileSystem roots slice.tick last) :
    Advances fileSystem roots slice last :=
  ⟨advances.reaches, advances.turns, advances.work⟩

theorem workLeft_cut
    (left : pendingTurns fileSystem roots next.cursor =
      pendingTurns fileSystem roots slice.cursor)
    (fewer : readsLeft fileSystem roots slice.cursor slice.windows =
      readsLeft fileSystem roots next.cursor next.windows + reads) :
    workLeft fileSystem roots slice.cursor slice.windows =
      workLeft fileSystem roots next.cursor next.windows + reads := by
  rw [workLeft, workLeft, left, fewer, Nat.add_assoc]

variable {limits : Limits}

theorem Slice.rootLeft_of_mayContinue
    (mayContinue : slice.mayContinue roots limits) :
    slice.cursor.root < roots.length := by
  simp only [Slice.mayContinue, Bool.and_eq_true,
    decide_eq_true_eq] at mayContinue
  exact mayContinue.1.1.1

theorem sweepLoop_advances
    (limits : Limits)
    (turns : ℕ)
    (reaches : Reaches fileSystem roots slice.cursor slice.windows) :
    Advances fileSystem roots slice
      (sweepLoop fileSystem roots limits turns slice) := by
  induction turns generalizing slice with
  | zero =>
      exact .refl reaches
  | succ turns inductionHypothesis =>
      rw [sweepLoop]
      split
      · rename_i mayContinue
        have rootLeft := Slice.rootLeft_of_mayContinue mayContinue
        apply Advances.ofTick
        have outcome : TurnOutcome fileSystem roots slice.tick
            (turn fileSystem roots slice.tick) :=
          turn_outcome reaches rootLeft
        generalize turn fileSystem roots slice.tick = result at outcome
        cases outcome with
        | taken next reads takes few isSpent =>
            exact takes.advances (inductionHypothesis takes.reaches)
        | cut next reads reaches left made exhausted few fewer isSpent =>
            refine ⟨reaches, ⟨[], left.symm, ?_⟩, ?_⟩
            · rw [List.flatten_nil, List.append_nil]
              exact made
            · rw [workLeft_cut left fewer]
              exact Nat.le_add_right _ _
      · exact .refl reaches

/-- The budgets let a slice take one turn and make one read. -/
structure Limits.Positive
    (limits : Limits) : Prop where
  entries : 0 < limits.maxEntries
  files : 0 < limits.maxFiles
  reads : 0 < limits.maxDirectoryEntries
  time : 1 < limits.clock

/-- The budgets let a slice read the largest directory at once. -/
structure Limits.Roomy
    (fileSystem : FileSystem)
    (limits : Limits) : Prop where
  reads : fileSystem.width < limits.maxDirectoryEntries
  time : fileSystem.width + 1 < limits.clock

instance
    (fileSystem : FileSystem)
    (limits : Limits) : Decidable (limits.Roomy fileSystem) :=
  decidable_of_iff
    (fileSystem.width < limits.maxDirectoryEntries ∧
      fileSystem.width + 1 < limits.clock)
    ⟨fun enough => ⟨enough.1, enough.2⟩, fun roomy => ⟨roomy.reads, roomy.time⟩⟩

theorem sweepLoop_start
    {cursor : Cursor}
    {windows : Windows}
    (positive : limits.Positive)
    (rootLeft : cursor.root < roots.length) :
    ∃ turns,
      sweepLoop fileSystem roots limits limits.clock
          (Slice.start limits cursor windows) =
        let result := turn fileSystem roots
          (Slice.start limits cursor windows).tick
        if result.2 then
          sweepLoop fileSystem roots limits turns result.1
        else
          result.1 := by
  have mayContinue :
      (Slice.start limits cursor windows).mayContinue roots limits := by
    have running : 0 < limits.clock := Nat.zero_lt_of_lt positive.time
    simp [Slice.mayContinue, Slice.start, rootLeft, positive.entries,
      positive.files, running]
  obtain ⟨turns, isClock⟩ :=
    Nat.exists_eq_succ_of_ne_zero (Nat.ne_zero_of_lt positive.time)
  refine ⟨turns, ?_⟩
  conv_lhs => rw [isClock, sweepLoop, if_pos mayContinue]

theorem sweepLoop_workLeft_lt
    {cursor : Cursor}
    {windows : Windows}
    (positive : limits.Positive)
    (reaches : Reaches fileSystem roots cursor windows)
    (rootLeft : cursor.root < roots.length) :
    let last := sweepLoop fileSystem roots limits limits.clock
      (Slice.start limits cursor windows)
    workLeft fileSystem roots last.cursor last.windows <
      workLeft fileSystem roots cursor windows := by
  obtain ⟨turns, isLoop⟩ :=
    @sweepLoop_start fileSystem roots limits cursor windows positive rootLeft
  intro last
  have outcome : TurnOutcome fileSystem roots
      (Slice.start limits cursor windows).tick
      (turn fileSystem roots (Slice.start limits cursor windows).tick) :=
    turn_outcome reaches rootLeft
  change workLeft fileSystem roots (sweepLoop _ _ _ _ _).cursor
    (sweepLoop _ _ _ _ _).windows < _
  rw [isLoop]
  generalize turn fileSystem roots (Slice.start limits cursor windows).tick =
    result at outcome
  cases outcome with
  | taken next reads takes few isSpent =>
      have later := sweepLoop_advances limits turns takes.reaches
      exact later.work.trans_lt takes.workLeft_lt
  | cut next reads reaches left made exhausted few fewer isSpent =>
      have mayRead :
          (Slice.start limits cursor windows).tick.budget.mayRead := by
        have running : 0 < limits.clock - 1 :=
          Nat.sub_pos_of_lt positive.time
        simp only [Budget.mayRead, Slice.start, Slice.tick, Budget.tick,
          positive.reads, running, decide_true, Bool.and_true]
      have someRead := isSpent.pos mayRead exhausted
      have total := workLeft_cut left fewer
      change workLeft fileSystem roots next.cursor next.windows <
        workLeft fileSystem roots
          (Slice.start limits cursor windows).tick.cursor
          (Slice.start limits cursor windows).tick.windows
      omega

/-- A roomy slice takes a turn even when its windows were lost. -/
theorem sweepLoop_turns_lt
    {cursor : Cursor}
    {windows : Windows}
    (positive : limits.Positive)
    (roomy : limits.Roomy fileSystem)
    (reaches : Reaches fileSystem roots cursor windows)
    (rootLeft : cursor.root < roots.length) :
    let last := sweepLoop fileSystem roots limits limits.clock
      (Slice.start limits cursor windows)
    (pendingTurns fileSystem roots last.cursor).length <
      (pendingTurns fileSystem roots cursor).length := by
  obtain ⟨turns, isLoop⟩ :=
    @sweepLoop_start fileSystem roots limits cursor windows positive rootLeft
  intro last
  have outcome : TurnOutcome fileSystem roots
      (Slice.start limits cursor windows).tick
      (turn fileSystem roots (Slice.start limits cursor windows).tick) :=
    turn_outcome reaches rootLeft
  change (pendingTurns fileSystem roots
    (sweepLoop _ _ _ _ _).cursor).length < _
  rw [isLoop]
  generalize turn fileSystem roots (Slice.start limits cursor windows).tick =
    result at outcome
  cases outcome with
  | taken next reads takes few isSpent =>
      obtain ⟨visits, first, -⟩ := takes.first
      obtain ⟨taken, left, -⟩ :=
        (sweepLoop_advances limits turns takes.reaches).turns
      change (pendingTurns fileSystem roots
          (sweepLoop fileSystem roots limits turns next).cursor).length <
        (pendingTurns fileSystem roots
          (Slice.start limits cursor windows).tick.cursor).length
      rw [first, left, List.length_cons, List.length_append]
      omega
  | cut next reads reaches left made exhausted few fewer isSpent =>
      have time := roomy.time
      have enough := roomy.reads
      have mayRead := isSpent.mayRead
        (by simp only [Slice.start, Slice.tick, Budget.tick]; omega)
        (by simp only [Slice.start, Slice.tick, Budget.tick]; omega)
      rw [exhausted] at mayRead
      simp at mayRead

/-- Budgets that are large enough let the loop take every pending turn. -/
theorem sweepLoop_takesAll
    {turns : ℕ}
    (reaches : Reaches fileSystem roots slice.cursor slice.windows)
    (enoughTurns :
      (pendingTurns fileSystem roots slice.cursor).length ≤ turns)
    (enoughEntries :
      slice.visited + (pendingTurns fileSystem roots slice.cursor).length ≤
        limits.maxEntries)
    (enoughFiles :
      slice.examined + (pendingTurns fileSystem roots slice.cursor).length ≤
        limits.maxFiles)
    (enoughReads :
      slice.budget.reads +
          (pendingTurns fileSystem roots slice.cursor).length *
            (fileSystem.width + 1) ≤
        slice.budget.maximum)
    (enoughTime :
      (pendingTurns fileSystem roots slice.cursor).length *
          (fileSystem.width + 2) ≤
        slice.budget.clock) :
    pendingTurns fileSystem roots
      (sweepLoop fileSystem roots limits turns slice).cursor = [] := by
  induction turns generalizing slice with
  | zero =>
      exact List.eq_nil_of_length_eq_zero (Nat.le_zero.mp enoughTurns)
  | succ turns inductionHypothesis =>
      rw [sweepLoop]
      by_cases rootLeft : slice.cursor.root < roots.length
      · have somePending :
            (pendingTurns fileSystem roots slice.cursor).length ≠ 0 := by
          intro noPending
          have isEnd := reaches.pendingTurns_eq_nil_iff.mp
            (List.eq_nil_of_length_eq_zero noPending)
          exact rootLeft.ne isEnd
        obtain ⟨left, isLeft⟩ := Nat.exists_eq_succ_of_ne_zero somePending
        rw [isLeft, Nat.succ_mul] at enoughReads enoughTime
        rw [isLeft] at enoughTurns enoughEntries enoughFiles
        have mayContinue : slice.mayContinue roots limits := by
          simp only [Slice.mayContinue, Bool.and_eq_true, decide_eq_true_eq]
          omega
        rw [if_pos mayContinue]
        have outcome : TurnOutcome fileSystem roots slice.tick
            (turn fileSystem roots slice.tick) :=
          turn_outcome reaches rootLeft
        generalize turn fileSystem roots slice.tick = result at outcome
        cases outcome with
        | taken next reads takes few isSpent =>
            obtain ⟨visits, first, -⟩ := takes.first
            have visited := takes.visited
            have examined := takes.examined
            obtain ⟨maximum, made, clock⟩ := isSpent
            have oneLess :
                (pendingTurns fileSystem roots next.cursor).length = left := by
              have sameTurns :
                  (pendingTurns fileSystem roots slice.cursor).length =
                    (pendingTurns fileSystem roots next.cursor).length + 1 := by
                change (pendingTurns fileSystem roots
                  slice.tick.cursor).length = _
                rw [first, List.length_cons]
              omega
            simp only [Slice.tick] at visited examined
            simp only [Slice.tick, Budget.tick] at maximum made clock
            apply inductionHypothesis takes.reaches
            all_goals
              rw [oneLess]
              omega
        | cut next reads reaches left made exhausted few fewer isSpent =>
            have mayRead := isSpent.mayRead
              (by simp only [Slice.tick, Budget.tick]; omega)
              (by simp only [Slice.tick, Budget.tick]; omega)
            rw [exhausted] at mayRead
            simp at mayRead
      · have notContinue : ¬slice.mayContinue roots limits := by
          intro mayContinue
          exact rootLeft (Slice.rootLeft_of_mayContinue mayContinue)
        rw [if_neg notContinue]
        apply reaches.pendingTurns_eq_nil_iff.mpr
        exact le_antisymm reaches.inRange (not_lt.mp rootLeft)

end Frameleaf.AttemptTree
