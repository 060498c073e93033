import Frameleaf.AttemptTree.Visits

namespace Frameleaf.AttemptTree

open LeastWindow

/-!
# One turn of the sweep

A position is a cursor with windows that a sweep reaches.  A turn either takes
the first of the pending turns or leaves them all and ends the slice with fewer
reads to come.
-/

variable {fileSystem : FileSystem} {roots : List Path}

/-- The page of an open directory starts at or before its position. -/
def Frame.HasPage
    (fileSystem : FileSystem)
    (frame : Frame)
    (path : Path)
    (page : List Name) : Prop :=
  frame.path = path ∧ ∃ start ≤ frame.after, page = fileSystem.page path start

/-- A cursor and windows that a sweep reaches. -/
structure Reaches
    (fileSystem : FileSystem)
    (roots : List Path)
    (cursor : Cursor)
    (windows : Windows) : Prop where
  inRange : cursor.root ≤ roots.length
  opened : cursor.stack ≠ [] → cursor.root < roots.length
  shallow : cursor.stack.length ≤ maxDepth
  within : ∀ frame ∈ cursor.stack,
    ∃ root, roots[cursor.root]? = some root ∧ root <+: frame.path
  nested : cursor.stack.Pairwise fun upper lower =>
    lower.path.length < upper.path.length
  scan : ∀ scan, windows.scan = some scan → scan.Sound fileSystem
  pages : ∀ path page, windows.pages path = some page →
    ∃ frame ∈ cursor.stack, frame.HasPage fileSystem path page

theorem reaches_start
    (fileSystem : FileSystem)
    (roots : List Path)
    (opened : ℕ) :
    Reaches fileSystem roots emptyAttemptCursor (Windows.new opened) where
  inRange := Nat.zero_le _
  opened := by simp [emptyAttemptCursor]
  shallow := by simp [emptyAttemptCursor]
  within := by simp [emptyAttemptCursor]
  nested := by simp [emptyAttemptCursor]
  scan := by simp [Windows.new]
  pages := by simp [Windows.new]

variable {cursor : Cursor} {windows : Windows}

theorem Reaches.restart
    (reaches : Reaches fileSystem roots cursor windows)
    (opened : ℕ) :
    Reaches fileSystem roots cursor (Windows.new opened) :=
  { reaches with
    scan := by simp [Windows.new]
    pages := by simp [Windows.new] }

theorem Reaches.isValid
    (reaches : Reaches fileSystem roots cursor windows) :
    cursor.isValid roots := by
  simp only [Cursor.isValid, Bool.and_eq_true, decide_eq_true_eq,
    List.all_eq_true]
  refine ⟨⟨reaches.inRange, reaches.shallow⟩, ?_⟩
  intro frame member
  obtain ⟨root, isRoot, isPrefix⟩ := reaches.within frame member
  rw [isRoot, Option.any_some]
  exact List.isPrefixOf_iff_prefix.mpr isPrefix

theorem Reaches.enter
    (reaches : Reaches fileSystem roots cursor windows)
    (rootLeft : cursor.root < roots.length) :
    Reaches fileSystem roots (cursor.enter roots) windows ∧
      (cursor.enter roots).stack ≠ [] ∧
      (cursor.enter roots).root = cursor.root := by
  obtain ⟨root, stack⟩ := cursor
  cases stack with
  | cons frame below =>
      exact ⟨reaches, by simp [Cursor.enter], rfl⟩
  | nil =>
      have isRoot : roots[root]? = some roots[root] :=
        List.getElem?_eq_getElem rootLeft
      rw [Cursor.enter, isRoot]
      refine ⟨?_, by simp, rfl⟩
      exact
        { inRange := reaches.inRange
          opened := fun _ => rootLeft
          shallow := by simp [maxDepth]
          within := by
            intro frame member
            rw [List.mem_singleton] at member
            subst member
            exact ⟨roots[root], isRoot, List.prefix_rfl⟩
          nested := List.pairwise_singleton _ _
          scan := reaches.scan
          pages := by
            intro path page isPage
            obtain ⟨frame, member, -⟩ := reaches.pages path page isPage
            simp at member }

theorem enter_enter
    (roots : List Path)
    (cursor : Cursor) :
    (cursor.enter roots).enter roots = cursor.enter roots := by
  obtain ⟨root, stack⟩ := cursor
  cases stack with
  | cons frame below =>
      rfl
  | nil =>
      simp only [Cursor.enter]
      cases isRoot : roots[root]? with
      | none =>
          simp [isRoot]
      | some path =>
          rfl

theorem pages_release
    {path other : Path}
    {page : List Name}
    (isPage : (windows.release path).pages other = some page) :
    other ≠ path ∧ windows.pages other = some page := by
  rw [Windows.release] at isPage
  by_cases same : other = path
  · subst same
    simp at isPage
  · exact ⟨same, by simpa [same] using isPage⟩

/-- Closing the deepest directory keeps a cursor reachable. -/
theorem Reaches.leave
    {root : ℕ}
    {frame : Frame}
    {below : List Frame}
    (reaches : Reaches fileSystem roots ⟨root, frame :: below⟩ windows) :
    Reaches fileSystem roots (Cursor.leave ⟨root, frame :: below⟩)
      (windows.release frame.path) := by
  have rootLeft : root < roots.length := reaches.opened (by simp)
  have pagesLeft : ∀ path page,
      (windows.release frame.path).pages path = some page →
        ∃ other ∈ below, other.HasPage fileSystem path page := by
    intro path page isPage
    obtain ⟨different, wasPage⟩ := pages_release isPage
    obtain ⟨other, member, hasPage⟩ := reaches.pages path page wasPage
    rcases List.mem_cons.mp member with rfl | member
    · exact absurd hasPage.1.symm different
    · exact ⟨other, member, hasPage⟩
  cases below with
  | nil =>
      exact
        { inRange := rootLeft
          opened := by simp [Cursor.leave]
          shallow := by simp [Cursor.leave]
          within := by simp [Cursor.leave]
          nested := by simp [Cursor.leave]
          scan := reaches.scan
          pages := by
            intro path page isPage
            obtain ⟨other, member, -⟩ := pagesLeft path page isPage
            simp at member }
  | cons next below =>
      have shallow := reaches.shallow
      exact
        { inRange := reaches.inRange
          opened := fun _ => rootLeft
          shallow := by
            simp only [List.length_cons] at shallow
            simp only [Cursor.leave, List.tail_cons, List.length_cons]
            omega
          within := fun other member =>
            reaches.within other (List.mem_cons_of_mem _ member)
          nested := (List.pairwise_cons.mp reaches.nested).2
          scan := reaches.scan
          pages := pagesLeft }

theorem pendingTurns_leave
    {root : ℕ}
    {frame : Frame}
    {below : List Frame} :
    pendingTurns fileSystem roots (Cursor.leave ⟨root, frame :: below⟩) =
      stackTurns fileSystem below ++
        (roots.drop (root + 1)).flatMap (rootTurns fileSystem) := by
  cases below with
  | nil =>
      exact pendingTurns_root fileSystem roots (root + 1)
  | cons next below =>
      rfl

theorem Reaches.topPage
    {root : ℕ}
    {frame : Frame}
    {below : List Frame}
    {page : List Name}
    (reaches : Reaches fileSystem roots ⟨root, frame :: below⟩ windows)
    (isPage : windows.pages frame.path = some page) :
    ∃ start ≤ frame.after, page = fileSystem.page frame.path start := by
  obtain ⟨other, member, samePath, hasPage⟩ :=
    reaches.pages frame.path page isPage
  rcases List.mem_cons.mp member with rfl | member
  · exact hasPage
  · have shorter := (List.pairwise_cons.mp reaches.nested).1 other member
    rw [samePath] at shorter
    exact absurd shorter (lt_irrefl _)

/-- A read keeps a cursor reachable and finds the next name. -/
theorem Reaches.read
    {root : ℕ}
    {frame : Frame}
    {below : List Frame}
    {after : Windows}
    {budget spent : Budget}
    {names : Option (List Name)}
    (reaches : Reaches fileSystem roots ⟨root, frame :: below⟩ windows)
    (outcome : ReadOutcome fileSystem windows frame.path frame.after budget
      (names, after, spent)) :
    Reaches fileSystem roots ⟨root, frame :: below⟩ after ∧
      ∀ page, names = some page →
        page.find? (frame.after < ·) =
          (beyond frame.after (fileSystem.names frame.path)).head? := by
  cases outcome with
  | atHand page isPage pageReaches =>
      obtain ⟨start, ordered, rfl⟩ := reaches.topPage isPage
      refine ⟨reaches, ?_⟩
      rintro _ ⟨⟩
      exact find?_page_of_reaches ordered pageReaches
  | ended opened reads spent few isSpent =>
      refine ⟨{ reaches with scan := by simp, pages := ?_ }, ?_⟩
      · intro path page isPage
        by_cases same : path = frame.path
        · subst same
          have isNew : fileSystem.page frame.path frame.after = page := by
            simpa using isPage
          exact ⟨frame, List.mem_cons_self, rfl, frame.after, le_rfl,
            isNew.symm⟩
        · apply reaches.pages path page
          simpa [same] using isPage
      · rintro _ ⟨⟩
        exact find?_page frame.path frame.after
  | cut scan opened reads spent sound =>
      refine ⟨{ reaches with scan := ?_, pages := ?_ }, by simp⟩
      · intro other isScan
        have same : scan = other := by simpa using isScan
        exact same ▸ sound
      · intro path page isPage
        by_cases same : path = frame.path
        · subst same
          simp at isPage
        · apply reaches.pages path page
          simpa [same] using isPage

theorem Reaches.advance
    {root : ℕ}
    {frame : Frame}
    {below : List Frame}
    {entry : Name}
    (reaches : Reaches fileSystem roots ⟨root, frame :: below⟩ windows)
    (isBeyond : frame.after < entry) :
    Reaches fileSystem roots ⟨root, ⟨frame.path, entry⟩ :: below⟩ windows where
  inRange := reaches.inRange
  opened := fun _ => reaches.opened (by simp)
  shallow := reaches.shallow
  within := by
    intro other member
    rcases List.mem_cons.mp member with rfl | member
    · exact reaches.within frame List.mem_cons_self
    · exact reaches.within other (List.mem_cons_of_mem _ member)
  nested := by
    obtain ⟨shorter, nested⟩ := List.pairwise_cons.mp reaches.nested
    exact List.pairwise_cons.mpr ⟨shorter, nested⟩
  scan := reaches.scan
  pages := by
    intro path page isPage
    obtain ⟨other, member, samePath, start, ordered, isStart⟩ :=
      reaches.pages path page isPage
    rcases List.mem_cons.mp member with rfl | member
    · exact ⟨_, List.mem_cons_self, samePath, start,
        ordered.trans isBeyond.le, isStart⟩
    · exact ⟨other, List.mem_cons_of_mem _ member, samePath, start, ordered,
        isStart⟩

theorem Reaches.push
    {root : ℕ}
    {frame : Frame}
    {below : List Frame}
    (entry : Name)
    (reaches : Reaches fileSystem roots ⟨root, frame :: below⟩ windows)
    (isShallow : (frame :: below).length < maxDepth) :
    Reaches fileSystem roots
      ⟨root, ⟨frame.path ++ [entry], .empty⟩ :: frame :: below⟩ windows where
  inRange := reaches.inRange
  opened := fun _ => reaches.opened (by simp)
  shallow := isShallow
  within := by
    intro other member
    rcases List.mem_cons.mp member with rfl | member
    · obtain ⟨path, isRoot, isPrefix⟩ :=
        reaches.within frame List.mem_cons_self
      exact ⟨path, isRoot, isPrefix.trans (List.prefix_append _ _)⟩
    · exact reaches.within other member
  nested := by
    apply List.pairwise_cons.mpr
    refine ⟨?_, reaches.nested⟩
    intro other member
    have longer : (frame.path ++ [entry]).length = frame.path.length + 1 :=
      List.length_append
    rw [longer]
    rcases List.mem_cons.mp member with rfl | member
    · exact Nat.lt_succ_self _
    · exact Nat.lt_succ_of_lt
        ((List.pairwise_cons.mp reaches.nested).1 other member)
  scan := reaches.scan
  pages := by
    intro path page isPage
    obtain ⟨other, member, hasPage⟩ := reaches.pages path page isPage
    exact ⟨other, List.mem_cons_of_mem _ member, hasPage⟩

/-- The reads that the next page still takes. -/
def readsLeft
    (fileSystem : FileSystem)
    (roots : List Path)
    (cursor : Cursor)
    (windows : Windows) : ℕ :=
  match (cursor.enter roots).stack with
  | [] =>
      0
  | frame :: _ =>
      windows.readsLeft fileSystem frame.path frame.after

theorem Reaches.readsLeft_le
    (reaches : Reaches fileSystem roots cursor windows) :
    readsLeft fileSystem roots cursor windows ≤ fileSystem.width + 1 := by
  rw [readsLeft]
  split
  · exact Nat.zero_le _
  · exact AttemptTree.readsLeft_le reaches.scan _ _

/-- The first of the pending turns is taken. -/
structure Takes
    (fileSystem : FileSystem)
    (roots : List Path)
    (slice next : Slice) : Prop where
  first : ∃ visits,
    pendingTurns fileSystem roots slice.cursor =
        visits :: pendingTurns fileSystem roots next.cursor ∧
      next.visits = slice.visits ++ visits
  reaches : Reaches fileSystem roots next.cursor next.windows
  visited : next.visited ≤ slice.visited + 1
  examined : next.examined ≤ slice.examined + 1

/-- What one turn does. -/
inductive TurnOutcome
    (fileSystem : FileSystem)
    (roots : List Path)
    (slice : Slice) : Slice × Bool → Prop where
  | taken (next : Slice) (reads : ℕ)
      (takes : Takes fileSystem roots slice next)
      (few : reads ≤ fileSystem.width + 1)
      (isSpent : Spent slice.budget next.budget reads) :
      TurnOutcome fileSystem roots slice (next, true)
  | cut (next : Slice) (reads : ℕ)
      (reaches : Reaches fileSystem roots next.cursor next.windows)
      (left : pendingTurns fileSystem roots next.cursor =
        pendingTurns fileSystem roots slice.cursor)
      (made : next.visits = slice.visits)
      (exhausted : next.budget.mayRead = false)
      (few : reads ≤ fileSystem.width)
      (fewer : readsLeft fileSystem roots slice.cursor slice.windows =
        readsLeft fileSystem roots next.cursor next.windows + reads)
      (isSpent : Spent slice.budget next.budget reads) :
      TurnOutcome fileSystem roots slice (next, false)

/-- An examined path is at the same position. -/
@[simp] theorem examine_cursor
    (slice : Slice)
    (path : Path)
    (identity : Option AttemptIdentity) :
    (slice.examine path identity).cursor = slice.cursor := by
  cases identity <;> rfl

/-- An examined path is seen through the same windows. -/
@[simp] theorem examine_windows
    (slice : Slice)
    (path : Path)
    (identity : Option AttemptIdentity) :
    (slice.examine path identity).windows = slice.windows := by
  cases identity <;> rfl

/-- An examined path costs no read. -/
@[simp] theorem examine_budget
    (slice : Slice)
    (path : Path)
    (identity : Option AttemptIdentity) :
    (slice.examine path identity).budget = slice.budget := by
  cases identity <;> rfl

/-- An examined path is not one more entry. -/
@[simp] theorem examine_visited
    (slice : Slice)
    (path : Path)
    (identity : Option AttemptIdentity) :
    (slice.examine path identity).visited = slice.visited := by
  cases identity <;> rfl

/-- An examined path is offered when it belongs to an attempt. -/
@[simp] theorem examine_visits
    (slice : Slice)
    (path : Path)
    (identity : Option AttemptIdentity) :
    (slice.examine path identity).visits =
      slice.visits ++ removal path identity := by
  cases identity with
  | none =>
      simp [Slice.examine, removal]
  | some identity =>
      rfl

theorem examine_examined_le
    (slice : Slice)
    (path : Path)
    (identity : Option AttemptIdentity) :
    (slice.examine path identity).examined ≤ slice.examined + 1 := by
  cases identity with
  | none =>
      exact Nat.le_succ _
  | some identity =>
      exact le_rfl

theorem directoryTurns_cons
    {path : Path}
    (isDirectory : fileSystem.realAttemptEntry path = some .directory)
    (walk : Option (Path → List (List Visit)))
    (entry : Name)
    (entries : List Name) :
    directoryTurns fileSystem walk path (entry :: entries) =
      entryTurns fileSystem walk path entry ++
        directoryTurns fileSystem walk path entries := by
  simp [directoryTurns, isDirectory]

theorem pendingTurns_cons
    (root : ℕ)
    (frame : Frame)
    (below : List Frame) :
    pendingTurns fileSystem roots ⟨root, frame :: below⟩ =
      directoryTurns fileSystem
          (walkBelow fileSystem (maxDepth - 1 - below.length)) frame.path
          (beyond frame.after (fileSystem.names frame.path)) ++
        pendingTurns fileSystem roots
          (Cursor.leave ⟨root, frame :: below⟩) := by
  rw [pendingTurns_leave, ← List.append_assoc]
  rfl

theorem pendingTurns_next
    {root : ℕ}
    {frame : Frame}
    {below : List Frame}
    {entry : Name}
    (isDirectory : fileSystem.realAttemptEntry frame.path = some .directory)
    (isNext : beyond frame.after (fileSystem.names frame.path) =
      entry :: beyond entry (fileSystem.names frame.path)) :
    pendingTurns fileSystem roots ⟨root, frame :: below⟩ =
      entryTurns fileSystem
          (walkBelow fileSystem (maxDepth - 1 - below.length)) frame.path
          entry ++
        pendingTurns fileSystem roots
          ⟨root, ⟨frame.path, entry⟩ :: below⟩ := by
  rw [pendingTurns_cons, isNext, directoryTurns_cons isDirectory,
    List.append_assoc, pendingTurns_cons]
  rfl

theorem entryTurns_directory
    {directory : Path}
    {entry : Name}
    {below : List Frame}
    (notSkipped : isSkipped directory entry = false)
    (isEntry : fileSystem.realAttemptEntry (directory ++ [entry]) =
      some .directory)
    (isShallow : below.length + 1 < maxDepth) :
    entryTurns fileSystem
        (walkBelow fileSystem (maxDepth - 1 - below.length)) directory entry =
      [.entry (directory ++ [entry])] ::
        pathTurns fileSystem (maxDepth - 1 - (below.length + 1))
          (directory ++ [entry]) := by
  have isRoom :
      maxDepth - 1 - below.length =
        maxDepth - 1 - (below.length + 1) + 1 := by
    omega
  simp [entryTurns, notSkipped, isEntry, isRoom, walkBelow]

variable {slice next : Slice}

theorem takes_entry
    {root : ℕ}
    {frame : Frame}
    {below : List Frame}
    {entry : Name}
    {visits : List Visit}
    (advanced : Reaches fileSystem roots
      ⟨root, ⟨frame.path, entry⟩ :: below⟩ slice.windows)
    (pending : pendingTurns fileSystem roots slice.cursor =
      entryTurns fileSystem
          (walkBelow fileSystem (maxDepth - 1 - below.length)) frame.path
          entry ++
        pendingTurns fileSystem roots ⟨root, ⟨frame.path, entry⟩ :: below⟩)
    (isTurn : entryTurns fileSystem
      (walkBelow fileSystem (maxDepth - 1 - below.length)) frame.path entry =
        [visits])
    (sameCursor : next.cursor = ⟨root, ⟨frame.path, entry⟩ :: below⟩)
    (sameWindows : next.windows = slice.windows)
    (made : next.visits = slice.visits ++ visits)
    (visited : next.visited = slice.visited + 1)
    (examined : next.examined ≤ slice.examined + 1) :
    Takes fileSystem roots slice next where
  first := by
    refine ⟨visits, ?_, made⟩
    rw [pending, isTurn, sameCursor, List.singleton_append]
  reaches := by
    rw [sameCursor, sameWindows]
    exact advanced
  visited := visited.le
  examined := examined

/-- The turn for the next name of a directory. -/
theorem examineEntry_takes
    {root : ℕ}
    {frame : Frame}
    {below : List Frame}
    {entry : Name}
    (isCursor : slice.cursor = ⟨root, frame :: below⟩)
    (reaches : Reaches fileSystem roots slice.cursor slice.windows)
    (isDirectory : fileSystem.realAttemptEntry frame.path = some .directory)
    (isBeyond : frame.after < entry)
    (isNext : beyond frame.after (fileSystem.names frame.path) =
      entry :: beyond entry (fileSystem.names frame.path)) :
    Takes fileSystem roots slice
      (slice.examineEntry fileSystem frame below entry) := by
  rw [isCursor] at reaches
  have advanced := reaches.advance isBeyond
  have pending := @pendingTurns_next fileSystem roots root frame below entry
    isDirectory isNext
  rw [← isCursor] at pending
  cases skipped : isSkipped frame.path entry with
  | true =>
      have isTurn : entryTurns fileSystem
          (walkBelow fileSystem (maxDepth - 1 - below.length)) frame.path
          entry = [[.entry (frame.path ++ [entry])]] := by
        simp [entryTurns, skipped]
      apply takes_entry advanced pending isTurn
      all_goals simp [Slice.examineEntry, skipped, isCursor]
  | false =>
      cases isEntry : fileSystem.realAttemptEntry (frame.path ++ [entry]) with
      | none =>
          have isTurn : entryTurns fileSystem
              (walkBelow fileSystem (maxDepth - 1 - below.length)) frame.path
              entry = [[.entry (frame.path ++ [entry]),
                .incomplete (frame.path ++ [entry])]] := by
            simp [entryTurns, skipped, isEntry]
          apply takes_entry advanced pending isTurn
          all_goals simp [Slice.examineEntry, skipped, isEntry, isCursor]
      | some kind =>
          cases kind with
          | directory =>
              by_cases isShallow : below.length + 1 < maxDepth
              · have pushed := advanced.push entry isShallow
                have turns := entryTurns_directory skipped isEntry isShallow
                have isTurn :
                    slice.examineEntry fileSystem frame below entry =
                      { slice with
                        cursor := ⟨root, ⟨frame.path ++ [entry], .empty⟩ ::
                          ⟨frame.path, entry⟩ :: below⟩
                        visited := slice.visited + 1
                        visits := slice.visits ++
                          [.entry (frame.path ++ [entry])] } := by
                  simp [Slice.examineEntry, skipped, isEntry, isCursor,
                    isShallow]
                rw [isTurn]
                refine ⟨⟨_, ?_, rfl⟩, pushed, le_rfl, Nat.le_succ _⟩
                rw [pending, turns, List.cons_append]
                congr 1
                rw [pendingTurns, pendingTurns, Cursor.enter, Cursor.enter]
                dsimp only
                rw [stackTurns_open, List.append_assoc]
                rfl
              · have noRoom : maxDepth - 1 - below.length = 0 := by omega
                have isTurn : entryTurns fileSystem
                    (walkBelow fileSystem (maxDepth - 1 - below.length)) frame.path
                    entry = [[.entry (frame.path ++ [entry]),
                      .incomplete (frame.path ++ [entry])]] := by
                  simp [entryTurns, skipped, isEntry, noRoom, walkBelow]
                apply takes_entry advanced pending isTurn
                all_goals
                  simp [Slice.examineEntry, skipped, isEntry, isCursor,
                    isShallow]
          | file =>
              have isTurn : entryTurns fileSystem
                  (walkBelow fileSystem (maxDepth - 1 - below.length)) frame.path
                  entry = [.entry (frame.path ++ [entry]) ::
                    removal (frame.path ++ [entry])
                      (attemptIdentity (frame.path ++ [entry]))] := by
                simp [entryTurns, skipped, isEntry]
              apply takes_entry advanced pending isTurn
              all_goals
                simp [Slice.examineEntry, skipped, isEntry, isCursor]
              apply examine_examined_le
          | symlink =>
              have isTurn : entryTurns fileSystem
                  (walkBelow fileSystem (maxDepth - 1 - below.length)) frame.path
                  entry = [[.entry (frame.path ++ [entry])]] := by
                simp [entryTurns, skipped, isEntry]
              apply takes_entry advanced pending isTurn
              all_goals
                simp [Slice.examineEntry, skipped, isEntry, isCursor]
          | other =>
              have isTurn : entryTurns fileSystem
                  (walkBelow fileSystem (maxDepth - 1 - below.length)) frame.path
                  entry = [[.entry (frame.path ++ [entry])]] := by
                simp [entryTurns, skipped, isEntry]
              apply takes_entry advanced pending isTurn
              all_goals
                simp [Slice.examineEntry, skipped, isEntry, isCursor]

theorem examineEntry_budget
    (slice : Slice)
    (frame : Frame)
    (below : List Frame)
    (entry : Name) :
    (slice.examineEntry fileSystem frame below entry).budget =
      slice.budget := by
  rw [Slice.examineEntry]
  split
  · rfl
  · split
    · rfl
    · split <;> rfl
    · exact examine_budget _ _ _
    · rfl

theorem skipDirectory_takes
    {root : ℕ}
    {frame : Frame}
    {below : List Frame}
    (isCursor : slice.cursor = ⟨root, frame :: below⟩)
    (reaches : Reaches fileSystem roots slice.cursor slice.windows)
    (notDirectory :
      fileSystem.realAttemptEntry frame.path ≠ some .directory) :
    Takes fileSystem roots slice (slice.skipDirectory frame) where
  first := by
    refine ⟨_, ?_, rfl⟩
    rw [Slice.skipDirectory, isCursor, pendingTurns_cons, directoryTurns,
      if_pos notDirectory, List.singleton_append]
  reaches := by
    rw [isCursor] at reaches
    rw [Slice.skipDirectory, isCursor]
    exact reaches.leave
  visited := le_rfl
  examined := Nat.le_succ _

theorem closeDirectory_takes
    {root : ℕ}
    {frame : Frame}
    {below : List Frame}
    (isCursor : slice.cursor = ⟨root, frame :: below⟩)
    (reaches : Reaches fileSystem roots slice.cursor slice.windows)
    (isDirectory : fileSystem.realAttemptEntry frame.path = some .directory)
    (noNext : beyond frame.after (fileSystem.names frame.path) = []) :
    Takes fileSystem roots slice (slice.closeDirectory frame) where
  first := by
    refine ⟨_, ?_, examine_visits _ _ _⟩
    rw [Slice.closeDirectory, isCursor, pendingTurns_cons, noNext,
      directoryTurns, if_neg (not_not.mpr isDirectory)]
    rfl
  reaches := by
    rw [isCursor] at reaches
    rw [Slice.closeDirectory, isCursor]
    exact reaches.leave
  visited := by
    rw [Slice.closeDirectory]
    exact (examine_visited _ _ _).le.trans (Nat.le_succ _)
  examined := examine_examined_le _ _ _

theorem pendingTurns_enter
    (cursor : Cursor)
    (sameRoot : (cursor.enter roots).root = cursor.root) :
    pendingTurns fileSystem roots (cursor.enter roots) =
      pendingTurns fileSystem roots cursor := by
  rw [pendingTurns, enter_enter, sameRoot, ← pendingTurns]

theorem page_takes
    {root : ℕ}
    {frame : Frame}
    {below : List Frame}
    {page : List Name}
    (isCursor : slice.cursor = ⟨root, frame :: below⟩)
    (reaches : Reaches fileSystem roots slice.cursor slice.windows)
    (isDirectory : fileSystem.realAttemptEntry frame.path = some .directory)
    (isFound : page.find? (frame.after < ·) =
      (beyond frame.after (fileSystem.names frame.path)).head?) :
    ∃ next,
      (match page.find? (frame.after < ·) with
        | none =>
            (slice.closeDirectory frame, true)
        | some entry =>
            (slice.examineEntry fileSystem frame below entry, true)) =
        (next, true) ∧
      Takes fileSystem roots slice next ∧
      next.budget = slice.budget := by
  rw [isFound]
  cases isNext : (beyond frame.after (fileSystem.names frame.path)).head? with
  | none =>
      refine ⟨_, rfl, ?_, examine_budget _ _ _⟩
      apply closeDirectory_takes isCursor reaches isDirectory
      exact List.head?_eq_none_iff.mp isNext
  | some entry =>
      have isBeyond : frame.after < entry :=
        (mem_beyond.mp (List.mem_of_head? isNext)).2
      refine ⟨_, rfl, ?_, examineEntry_budget _ _ _ _⟩
      apply examineEntry_takes isCursor reaches isDirectory isBeyond
      exact beyond_eq_cons (fileSystem.distinct 0 frame.path) isNext

theorem Takes.ofEntered
    {entered : Slice}
    (taken : Takes fileSystem roots entered next)
    (isEntered : slice.cursor.enter roots = entered.cursor)
    (sameRoot : entered.cursor.root = slice.cursor.root)
    (sameVisits : entered.visits = slice.visits)
    (sameVisited : entered.visited = slice.visited)
    (sameExamined : entered.examined = slice.examined) :
    Takes fileSystem roots slice next := by
  obtain ⟨first, reaches, visited, examined⟩ := taken
  rw [← isEntered] at sameRoot first
  rw [pendingTurns_enter _ sameRoot, sameVisits] at first
  exact ⟨first, reaches, sameVisited ▸ visited, sameExamined ▸ examined⟩

theorem readsLeft_enter
    (cursor : Cursor)
    (windows : Windows) :
    readsLeft fileSystem roots (cursor.enter roots) windows =
      readsLeft fileSystem roots cursor windows := by
  rw [readsLeft, enter_enter, ← readsLeft]

/-- Every turn takes the first of the pending turns or cuts the slice. -/
theorem turn_outcome
    (reaches : Reaches fileSystem roots slice.cursor slice.windows)
    (rootLeft : slice.cursor.root < roots.length) :
    TurnOutcome fileSystem roots slice (turn fileSystem roots slice) := by
  obtain ⟨enteredReaches, notEmpty, sameRoot⟩ := reaches.enter rootLeft
  have samePending :=
    @pendingTurns_enter fileSystem roots slice.cursor sameRoot
  have sameReads := @readsLeft_enter fileSystem roots slice.cursor
  rw [turn]
  dsimp only
  generalize isEntered : slice.cursor.enter roots = cursor at *
  obtain ⟨root, stack⟩ := cursor
  cases stack with
  | nil =>
      exact absurd rfl notEmpty
  | cons frame below =>
      dsimp only
      split
      · rename_i notDirectory
        refine .taken _ 0 ?_ (Nat.zero_le _) (Spent.none slice.budget)
        have taken := @skipDirectory_takes fileSystem roots
          { slice with cursor := ⟨root, frame :: below⟩ } root frame below rfl
          enteredReaches notDirectory
        exact taken.ofEntered isEntered sameRoot rfl rfl rfl
      · rename_i isDirectory
        rw [not_not] at isDirectory
        have outcome := read_outcome reaches.scan frame.path frame.after
          slice.budget
        generalize slice.windows.read fileSystem frame.path frame.after
          slice.budget = read at outcome
        obtain ⟨names, windows, budget⟩ := read
        obtain ⟨readReaches, isFound⟩ := enteredReaches.read outcome
        have paged (page : List Name)
            (isPage : names = some page)
            (reads : ℕ)
            (few : reads ≤ fileSystem.width + 1)
            (isSpent : Spent slice.budget budget reads) :
            TurnOutcome fileSystem roots slice
              (match page.find? (frame.after < ·) with
                | none =>
                    (Slice.closeDirectory
                      { slice with
                        cursor := ⟨root, frame :: below⟩
                        windows := windows
                        budget := budget } frame, true)
                | some entry =>
                    (Slice.examineEntry fileSystem
                      { slice with
                        cursor := ⟨root, frame :: below⟩
                        windows := windows
                        budget := budget } frame below entry, true)) := by
          obtain ⟨next, isTurn, taken, sameBudget⟩ :=
            @page_takes fileSystem roots
              { slice with
                cursor := ⟨root, frame :: below⟩
                windows := windows
                budget := budget } root frame below page rfl readReaches
              isDirectory (isFound page isPage)
          rw [isTurn]
          refine .taken next reads ?_ few (sameBudget ▸ isSpent)
          exact taken.ofEntered isEntered sameRoot rfl rfl rfl
        cases outcome with
        | atHand page isPage pageReaches =>
            exact paged page rfl 0 (Nat.zero_le _) (Spent.none _)
        | ended opened reads spent few isSpent =>
            exact paged _ rfl reads few isSpent
        | cut scan opened reads spent sound samePath sameAfter exhausted fewer
            isSpent =>
            have few := AttemptTree.readsLeft_le reaches.scan frame.path
              frame.after
            refine .cut _ reads readReaches samePending rfl exhausted
              (by omega) ?_ isSpent
            rw [← sameReads]
            exact fewer.trans (congrArg (· + reads)
              (readsLeft_scan slice.windows.pages opened samePath
                sameAfter).symm)

end Frameleaf.AttemptTree
