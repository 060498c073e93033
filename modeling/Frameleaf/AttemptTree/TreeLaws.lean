import Frameleaf.AttemptTree.Slices
import Frameleaf.AttemptTree.Walk
import Frameleaf.Lib.Outcome
import Mathlib.Data.List.Induction

namespace Frameleaf.AttemptTree

open Outcome

/-!
# A pass made of slices

However its slices are cut, a pass makes the visits of the whole walk, in its
order.  A slice leaves less work behind, unless it lost its windows and had no
room for a whole directory; such a slice adds at most one directory's reads.
-/

variable {fileSystem : FileSystem} {roots : List Path}

/-- The slice lost its windows and has no room for a whole directory. -/
def Resume.losesListing
    (fileSystem : FileSystem)
    (resume : Resume) : Bool :=
  !resume.kept && !decide (resume.limits.Roomy fileSystem)

/-- What one slice reports. -/
structure SliceReport
    (fileSystem : FileSystem)
    (roots : List Path)
    (limits : Limits)
    (cursor : Cursor)
    (windows : Windows)
    (result : SweepResult)
    (after : Windows) : Prop where
  done : result.done = true →
    result.visits = (pendingTurns fileSystem roots cursor).flatten
  reaches : result.done = false →
    Reaches fileSystem roots result.cursor after
  left : result.done = false →
    (pendingTurns fileSystem roots cursor).flatten =
      result.visits ++ (pendingTurns fileSystem roots result.cursor).flatten
  work : result.done = false → limits.Positive →
    workLeft fileSystem roots result.cursor after <
      workLeft fileSystem roots cursor windows
  turns : result.done = false → limits.Positive → limits.Roomy fileSystem →
    (pendingTurns fileSystem roots result.cursor).length <
      (pendingTurns fileSystem roots cursor).length

variable {cursor : Cursor} {windows : Windows}

/-- Every slice from a reachable cursor is accepted and reports its turns. -/
theorem sweepAttemptTree_report
    (limits : Limits)
    (reaches : Reaches fileSystem roots cursor windows) :
    ∃ result after,
      sweepAttemptTree fileSystem roots limits cursor windows =
        .ok (result, after) ∧
      SliceReport fileSystem roots limits cursor windows result after := by
  have advances : Advances fileSystem roots (Slice.start limits cursor windows)
      (sweepLoop fileSystem roots limits limits.clock
        (Slice.start limits cursor windows)) :=
    sweepLoop_advances limits limits.clock reaches
  have work := @sweepLoop_workLeft_lt fileSystem roots limits cursor windows
  have turns := @sweepLoop_turns_lt fileSystem roots limits cursor windows
  rw [sweepAttemptTree, if_pos reaches.isValid]
  refine ⟨_, _, rfl, ?_⟩
  generalize sweepLoop fileSystem roots limits limits.clock
    (Slice.start limits cursor windows) = last at advances work turns
  obtain ⟨lastReaches, ⟨taken, parts, made⟩, -⟩ := advances
  have startParts :
      pendingTurns fileSystem roots cursor =
        taken ++ pendingTurns fileSystem roots last.cursor :=
    parts
  have startMade : last.visits = taken.flatten := made
  cases isDone : last.cursor.root == roots.length with
  | true =>
      have isEnd := lastReaches.pendingTurns_eq_nil_iff.mpr
        (by simpa using isDone)
      rw [isEnd, List.append_nil] at startParts
      refine ⟨fun _ => ?_, by simp, by simp, by simp, by simp⟩
      rw [startParts]
      exact startMade
  | false =>
      have rootLeft : cursor.root < roots.length := by
        apply lt_of_le_of_ne reaches.inRange
        intro isEnd
        have noTurns := reaches.pendingTurns_eq_nil_iff.mpr isEnd
        rw [noTurns, List.nil_eq_append_iff] at startParts
        have lastEnd := lastReaches.pendingTurns_eq_nil_iff.mp startParts.2
        simp [lastEnd] at isDone
      refine ⟨by simp, fun _ => lastReaches, fun _ => ?_,
        fun _ positive => work positive reaches rootLeft,
        fun _ positive roomy => turns positive roomy reaches rootLeft⟩
      change _ = last.visits ++ (pendingTurns fileSystem roots
        last.cursor).flatten
      rw [startParts, List.flatten_append, startMade]

/-- Every budget of a slice is at least as large. -/
structure Limits.AtLeast
    (bound : ℕ)
    (limits : Limits) : Prop where
  entries : bound ≤ limits.maxEntries
  files : bound ≤ limits.maxFiles
  reads : bound ≤ limits.maxDirectoryEntries
  time : bound ≤ limits.clock

theorem sweepAttemptTree_done
    {limits : Limits}
    (reaches : Reaches fileSystem roots cursor windows)
    (enough : limits.AtLeast
      ((pendingTurns fileSystem roots cursor).length *
        (fileSystem.width + 2))) :
    ∃ result after,
      sweepAttemptTree fileSystem roots limits cursor windows =
        .ok (result, after) ∧
      result.done = true := by
  obtain ⟨entries, files, reads, time⟩ := enough
  have someRoom :
      (pendingTurns fileSystem roots cursor).length ≤
        (pendingTurns fileSystem roots cursor).length *
          (fileSystem.width + 2) :=
    Nat.le_mul_of_pos_right _ (Nat.succ_pos _)
  have readRoom :
      (pendingTurns fileSystem roots cursor).length *
          (fileSystem.width + 1) ≤
        (pendingTurns fileSystem roots cursor).length *
          (fileSystem.width + 2) :=
    Nat.mul_le_mul_left _ (Nat.le_succ _)
  have startReaches : Reaches fileSystem roots
      (Slice.start limits cursor windows).cursor
      (Slice.start limits cursor windows).windows :=
    reaches
  have noneLeft := @sweepLoop_takesAll fileSystem roots
    (Slice.start limits cursor windows) limits limits.clock startReaches
    (someRoom.trans time)
    ((Nat.zero_add _).le.trans (someRoom.trans entries))
    ((Nat.zero_add _).le.trans (someRoom.trans files))
    ((Nat.zero_add _).le.trans (readRoom.trans reads))
    time
  have lastReaches :=
    (sweepLoop_advances limits limits.clock startReaches).reaches
  have isEnd := lastReaches.pendingTurns_eq_nil_iff.mp noneLeft
  rw [sweepAttemptTree, if_pos reaches.isValid]
  exact ⟨_, _, rfl, by simpa using isEnd⟩

/-- What is known of a pass after some slices. -/
structure PassReport
    (fileSystem : FileSystem)
    (roots : List Path)
    (pass : Pass) : Prop where
  done : pass.done = true → pass.visits = passVisits fileSystem roots
  reaches : pass.done = false →
    Reaches fileSystem roots pass.cursor pass.windows
  left : pass.done = false →
    passVisits fileSystem roots =
      pass.visits ++ (pendingTurns fileSystem roots pass.cursor).flatten

theorem passReport_start :
    PassReport fileSystem roots Pass.start where
  done := by simp [Pass.start]
  reaches := fun _ => reaches_start fileSystem roots 0
  left := fun _ => (flatten_pendingTurns_start fileSystem roots).symm

theorem Reaches.resume
    (reaches : Reaches fileSystem roots cursor windows)
    (resume : Resume) :
    Reaches fileSystem roots cursor (resume.windows windows) := by
  rw [Resume.windows]
  split
  · exact reaches
  · exact reaches.restart windows.opened

theorem workLeft_resume_le
    (cursor : Cursor)
    (windows : Windows)
    (resume : Resume) :
    workLeft fileSystem roots cursor (resume.windows windows) ≤
      workLeft fileSystem roots cursor windows +
        if resume.kept then 0 else fileSystem.width + 1 := by
  rw [Resume.windows]
  split
  · exact le_rfl
  · have few : readsLeft fileSystem roots cursor
        (Windows.new windows.opened) ≤ fileSystem.width + 1 := by
      rw [readsLeft]
      split
      · exact Nat.zero_le _
      · exact readsLeft_new_le _ _ _
    rw [workLeft, workLeft]
    omega

theorem workLeft_resumed
    {resume : Resume}
    {after : Windows}
    {result : SweepResult}
    (positive : resume.limits.Positive)
    (report : SliceReport fileSystem roots resume.limits cursor
      (resume.windows windows) result after)
    (notDone : result.done = false) :
    workLeft fileSystem roots result.cursor after + 1 ≤
      workLeft fileSystem roots cursor windows +
        if resume.losesListing fileSystem then fileSystem.width + 1 else 0 := by
  have less := report.work notDone positive
  have resumed :=
    @workLeft_resume_le fileSystem roots cursor windows resume
  by_cases isKept : resume.kept
  · rw [if_pos isKept] at resumed
    omega
  · rw [if_neg isKept] at resumed
    by_cases roomy : resume.limits.Roomy fileSystem
    · have fewer := report.turns notDone positive roomy
      have few := (report.reaches notDone).readsLeft_le
      have product := Nat.mul_le_mul_right (fileSystem.width + 2) fewer
      rw [Nat.succ_mul] at product
      rw [workLeft, workLeft]
      omega
    · have loses : resume.losesListing fileSystem = true := by
        simp [Resume.losesListing, isKept, roomy]
      rw [if_pos loses]
      omega

theorem resume_report
    {pass : Pass}
    (report : PassReport fileSystem roots pass)
    (resume : Resume) :
    ∃ next, pass.resume fileSystem roots resume = .ok next ∧
      PassReport fileSystem roots next ∧
      (pass.done = true → next.done = true) ∧
      (next.done = false → resume.limits.Positive →
        workLeft fileSystem roots next.cursor next.windows + 1 ≤
          workLeft fileSystem roots pass.cursor pass.windows +
            if resume.losesListing fileSystem then
              fileSystem.width + 1
            else
              0) := by
  rw [Pass.resume]
  cases isDone : pass.done with
  | true =>
      refine ⟨pass, rfl, report, fun _ => isDone, ?_⟩
      intro notDone
      rw [isDone] at notDone
      simp at notDone
  | false =>
      have reaches := report.reaches isDone
      obtain ⟨result, after, isSlice, slice⟩ :=
        sweepAttemptTree_report resume.limits (reaches.resume resume)
      rw [if_neg (by simp), isSlice]
      refine ⟨_, rfl, ⟨?_, slice.reaches, ?_⟩, by simp, ?_⟩
      · intro sliceDone
        rw [report.left isDone, ← slice.done sliceDone]
      · intro notDone
        rw [report.left isDone, slice.left notDone, List.append_assoc]
      · intro notDone positive
        exact workLeft_resumed positive slice notDone

theorem runSlices_append
    (resumes : List Resume)
    (resume : Resume) :
    runSlices fileSystem roots (resumes ++ [resume]) =
      runSlices fileSystem roots resumes >>= fun pass =>
        pass.resume fileSystem roots resume := by
  rw [runSlices, List.foldlM_append, runSlices]
  congr 1
  funext pass
  exact List.foldlM_cons.trans (bind_pure _)

/-- Every run of slices is accepted, in order and never past the pass. -/
theorem runSlices_report
    (resumes : List Resume) :
    ∃ pass, runSlices fileSystem roots resumes = .ok pass ∧
      PassReport fileSystem roots pass ∧
      (pass.done = false →
        (∀ resume ∈ resumes, resume.limits.Positive) →
          workLeft fileSystem roots pass.cursor pass.windows +
              resumes.length ≤
            workLeft fileSystem roots emptyAttemptCursor (Windows.new 0) +
              (fileSystem.width + 1) *
                resumes.countP (Resume.losesListing fileSystem)) := by
  induction resumes using List.reverseRecOn with
  | nil =>
      exact ⟨Pass.start, rfl, passReport_start, fun _ _ => by
        simp [Pass.start]⟩
  | append_singleton resumes resume inductionHypothesis =>
      obtain ⟨pass, isRun, report, bounded⟩ := inductionHypothesis
      obtain ⟨next, isNext, nextReport, keepsDone, less⟩ :=
        resume_report report resume
      refine ⟨next, ?_, nextReport, ?_⟩
      · rw [runSlices_append, isRun, ok_bind, isNext]
      · intro notDone positive
        have wasNotDone : pass.done = false := by
          cases isDone : pass.done with
          | false =>
              rfl
          | true =>
              rw [keepsDone isDone] at notDone
              exact notDone
        have before := bounded wasNotDone fun other member =>
          positive other (List.mem_append_left _ member)
        have step := less notDone (positive resume (by simp))
        rw [List.countP_append, List.length_append, Nat.mul_add]
        cases loses : resume.losesListing fileSystem with
        | true =>
            rw [if_pos loses] at step
            simp only [List.countP_singleton, loses, if_true,
              List.length_singleton]
            omega
        | false =>
            rw [if_neg (by simp [loses])] at step
            simp only [List.countP_singleton, loses, List.length_singleton]
            simp
            omega

open LeastWindow Outcome

/-!
## The laws of the sweep

A pass over a tree at rest makes the visits of one unbounded walk, whatever its
slices are, and it is done after finitely many of them unless slices keep
losing windows that are too small for a directory.
-/

variable {fileSystem : FileSystem} {roots : List Path}

/-- Slices run to the end of the pass, in the order of the whole walk. -/
structure SliceLaws
    (fileSystem : FileSystem)
    (roots : List Path) : Prop where
  /-- However they are cut, the slices make the first visits of the walk. -/
  sameVisits : ∀ resumes, ∃ pass,
    runSlices fileSystem roots resumes = .ok pass ∧
      pass.visits <+: passVisits fileSystem roots ∧
      (pass.done = true → pass.visits = passVisits fileSystem roots)
  /-- Only slices that lose their windows while cut can delay the end. -/
  done : ∃ work, ∀ resumes : List Resume,
    (∀ resume ∈ resumes, resume.limits.Positive) →
      work + (fileSystem.width + 1) *
          resumes.countP (Resume.losesListing fileSystem) ≤
        resumes.length →
      ∃ pass, runSlices fileSystem roots resumes = .ok pass ∧
        pass.done = true
  /-- One slice without a tight budget makes the whole pass. -/
  unbounded : ∃ bound, ∀ resume : Resume, resume.limits.AtLeast bound →
    ∃ pass, runSlices fileSystem roots [resume] = .ok pass ∧
      pass.done = true

/-- The walk stays under its roots and makes every visit once. -/
structure WalkLaws
    (fileSystem : FileSystem)
    (roots : List Path) : Prop where
  /-- The roots are walked one after the other. -/
  inOrder : passVisits fileSystem roots =
    roots.flatMap (rootVisits fileSystem)
  /-- No visit leaves its root. -/
  within : ∀ root, ∀ visit ∈ rootVisits fileSystem root, root <+: visit.path
  /-- Under a root no visit is made twice. -/
  once : ∀ root, (rootVisits fileSystem root).Nodup
  /-- Roots that lie apart are visited once altogether. -/
  apart : (roots.Pairwise fun first second =>
      ¬first <+: second ∧ ¬second <+: first) →
    (passVisits fileSystem roots).Nodup
  /-- The names of every opened directory are visited, and nothing else. -/
  entries : ∀ root path,
    .entry path ∈ rootVisits fileSystem root ↔
      VisitsNames fileSystem (maxDepth - 1) root path

/-- A reader receives the sorted directory window after window. -/
structure WindowLaws
    (fileSystem : FileSystem) : Prop where
  /-- Whatever cuts the reads, the windows are the front of the directory. -/
  front : ∀ path calls,
    (readCalls fileSystem path calls).received.flatten <+:
      ascending (fileSystem.names path)
  /-- After an empty window the whole directory was received. -/
  complete : ∀ path calls,
    [] ∈ (readCalls fileSystem path calls).received →
      (readCalls fileSystem path calls).received.flatten =
        ascending (fileSystem.names path)
  /-- With room for the directory every call returns the next window. -/
  next : ∀ path (calls : List ReadCall),
    (∀ call ∈ calls,
      fileSystem.width < call.budget.maximum - call.budget.reads ∧
        fileSystem.width < call.budget.clock) →
    (readCalls fileSystem path calls).received.flatten =
      (ascending (fileSystem.names path)).take (windowSize * calls.length)

/-- Slices make the visits of the whole walk and come to its end. -/
theorem sliceLaws
    (fileSystem : FileSystem)
    (roots : List Path) :
    SliceLaws fileSystem roots where
  sameVisits := by
    intro resumes
    obtain ⟨pass, isRun, report, -⟩ :=
      @runSlices_report fileSystem roots resumes
    refine ⟨pass, isRun, ?_, report.done⟩
    cases isDone : pass.done with
    | true =>
        exact report.done isDone ▸ List.prefix_rfl
    | false =>
        rw [report.left isDone]
        exact List.prefix_append _ _
  done := by
    refine ⟨workLeft fileSystem roots emptyAttemptCursor (Windows.new 0) + 1,
      ?_⟩
    intro resumes positive enough
    obtain ⟨pass, isRun, -, bounded⟩ :=
      @runSlices_report fileSystem roots resumes
    refine ⟨pass, isRun, ?_⟩
    by_contra notDone
    have few := bounded (Bool.eq_false_iff.mpr notDone) positive
    omega
  unbounded := by
    refine ⟨(pendingTurns fileSystem roots emptyAttemptCursor).length *
      (fileSystem.width + 2), ?_⟩
    intro resume enough
    have reaches := (reaches_start fileSystem roots 0).resume resume
    obtain ⟨result, after, isSlice, isDone⟩ :=
      sweepAttemptTree_done reaches enough
    have isRun : runSlices fileSystem roots [resume] =
        Pass.start.resume fileSystem roots resume :=
      (List.foldlM_cons.trans (bind_pure _))
    have isStart : Pass.start.done = false := rfl
    rw [isRun, Pass.resume, if_neg (by simp [isStart])]
    change ∃ pass,
      ((sweepAttemptTree fileSystem roots resume.limits emptyAttemptCursor
        (resume.windows (Windows.new 0))) >>= _) = .ok pass ∧ _
    rw [isSlice]
    exact ⟨_, rfl, isDone⟩

theorem walkLaws
    (fileSystem : FileSystem)
    (roots : List Path) :
    WalkLaws fileSystem roots where
  inOrder := rfl
  within := fun root => pathTurns_under (maxDepth - 1) root
  once := fun root => nodup_pathTurns (maxDepth - 1) root
  apart := by
    intro areApart
    apply List.nodup_flatMap.mpr
    refine ⟨fun root _ => nodup_pathTurns (maxDepth - 1) root, ?_⟩
    apply areApart.imp
    rintro first second ⟨notFirst, notSecond⟩ visit isFirst isSecond
    have underFirst := pathTurns_under (maxDepth - 1) first visit isFirst
    have underSecond := pathTurns_under (maxDepth - 1) second visit isSecond
    rcases List.prefix_or_prefix_of_prefix underFirst underSecond with
      inside | outside
    · exact notFirst inside
    · exact notSecond outside
  entries := fun root path => entry_mem_pathTurns (maxDepth - 1) root path

theorem windowLaws
    (fileSystem : FileSystem) :
    WindowLaws fileSystem where
  front := by
    intro path calls
    rw [← (@readCalls_sound fileSystem path calls).left]
    exact List.prefix_append _ _
  complete := by
    intro path calls someEmpty
    have sound := @readCalls_sound fileSystem path calls
    rw [← sound.left, sound.ended someEmpty, List.append_nil]
  next := fun path calls roomy => readCalls_roomy calls roomy

/--
The sweep of a tree at rest.

Slices make the visits of one walk in its order and come to its end, the walk
stays under the roots and is complete, and directories are listed in windows.
-/
theorem treeLaws
    (fileSystem : FileSystem)
    (roots : List Path) :
    SliceLaws fileSystem roots ∧ WalkLaws fileSystem roots ∧
      WindowLaws fileSystem :=
  ⟨sliceLaws fileSystem roots, walkLaws fileSystem roots,
    windowLaws fileSystem⟩

/-- The names in the directories of a small tree. -/
def smallTreeNames
    (path : Path) : List Name :=
  if path = [name "r"] then
    [name ".x"]
  else if path = [name "r", name ".x"] then
    [name "f"]
  else
    []

/-- A root that holds one hidden directory with one file. -/
def smallTree : FileSystem where
  lstat := fun path =>
    if path = [name "r"] ∨ path = [name "r", name ".x"] then
      some .directory
    else if path = [name "r", name ".x", name "f"] then
      some .file
    else
      none
  listing := fun _ path => smallTreeNames path
  static := fun _ _ _ => List.Perm.refl _
  distinct := by
    intro _ path
    rw [smallTreeNames]
    split
    · exact List.nodup_singleton _
    · split
      · exact List.nodup_singleton _
      · exact List.nodup_nil
  named := by
    intro _ path
    rw [smallTreeNames]
    split
    · decide
    · split <;> decide
  width := 1
  narrow := by
    intro _ path
    rw [smallTreeNames]
    split
    · exact le_rfl
    · split
      · exact le_rfl
      · exact Nat.zero_le _

/-- A slice of one read that starts without windows. -/
def restartedSlice : Resume where
  limits :=
    { maxEntries := 1000
      maxFiles := 100
      maxDirectoryEntries := 1
      clock := 5 }
  kept := false

/-- The cursor at which restarted slices of one read stay. -/
def stuckCursor : Cursor where
  root := 0
  stack := [⟨[name "r"], .empty⟩]

theorem restartedSlice_stays
    (isStart : cursor = emptyAttemptCursor ∨ cursor = stuckCursor)
    (opened : ℕ) :
    ∃ result after,
      sweepAttemptTree smallTree [[name "r"]] restartedSlice.limits cursor
          (Windows.new opened) = .ok (result, after) ∧
        result.done = false ∧ result.cursor = stuckCursor := by
  rcases isStart with rfl | rfl
  · exact ⟨_, _, rfl, rfl, rfl⟩
  · exact ⟨_, _, rfl, rfl, rfl⟩

theorem restartedSlices_stay
    (count : ℕ) :
    ∃ pass,
      runSlices smallTree [[name "r"]]
          (List.replicate count restartedSlice) = .ok pass ∧
        pass.done = false ∧
        (pass.cursor = emptyAttemptCursor ∨ pass.cursor = stuckCursor) := by
  induction count with
  | zero =>
      exact ⟨Pass.start, rfl, rfl, .inl rfl⟩
  | succ count inductionHypothesis =>
      obtain ⟨pass, isRun, notDone, isStart⟩ := inductionHypothesis
      obtain ⟨result, after, isSlice, stillNot, isStuck⟩ :=
        restartedSlice_stays isStart pass.windows.opened
      refine ⟨
        { cursor := result.cursor
          windows := after
          visits := pass.visits ++ result.visits
          done := result.done }, ?_, stillNot, .inr isStuck⟩
      rw [List.replicate_succ', runSlices_append, isRun, ok_bind, Pass.resume,
        if_neg (by simp [notDone])]
      change (sweepAttemptTree smallTree [[name "r"]] restartedSlice.limits
        pass.cursor (Windows.new pass.windows.opened) >>= _) = _
      rw [isSlice]
      rfl

/--
Positive budgets alone do not bring a pass to its end, a hidden directory is
not entered, and a root that is listed twice is visited twice.
-/
theorem treeLaws_fail_for_restarts_hidden_names_and_repeated_roots :
    ¬(∀ (fileSystem : FileSystem) (roots : List Path)
        (resumes : ℕ → Resume),
        (∀ slice, (resumes slice).limits.Positive) →
          ∃ count pass,
            runSlices fileSystem roots
                ((List.range count).map resumes) = .ok pass ∧
              pass.done = true) ∧
    ¬(∀ (fileSystem : FileSystem) (root directory : Path) (entry : Name),
        root <+: directory →
          fileSystem.realAttemptEntry directory = some .directory →
          entry ∈ fileSystem.names directory →
          .entry (directory ++ [entry]) ∈ passVisits fileSystem [root]) ∧
    ¬(∀ (fileSystem : FileSystem) (roots : List Path),
        (passVisits fileSystem roots).Nodup) := by
  refine ⟨?_, ?_, ?_⟩
  · intro claimed
    obtain ⟨count, pass, isRun, isDone⟩ :=
      claimed smallTree [[name "r"]] (fun _ => restartedSlice)
        fun _ => ⟨by decide, by decide, by decide, by decide⟩
    obtain ⟨other, isOther, notDone, -⟩ := restartedSlices_stay count
    rw [List.map_const', List.length_range, isOther, Except.ok.injEq]
      at isRun
    rw [isRun, isDone] at notDone
    simp at notDone
  · intro claimed
    have visited := claimed smallTree [name "r"] [name "r", name ".x"]
      (name "f") (by decide) (by decide +kernel) (by decide +kernel)
    revert visited
    decide +kernel
  · intro claimed
    have distinct := claimed smallTree [[name "r"], [name "r"]]
    revert distinct
    decide +kernel

end Frameleaf.AttemptTree
