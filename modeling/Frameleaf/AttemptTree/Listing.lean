import Frameleaf.AttemptTree.Directory
import Mathlib.Data.List.Induction

namespace Frameleaf.AttemptTree

open LeastWindow

/-!
# What a read returns

The names kept of an open stream are the least of those read so far.  A read
either returns a page of the sorted directory or leaves the stream open, with
fewer names to come.
-/

variable {fileSystem : FileSystem} {windows : Windows}

/-- The names kept of those read from a stream. -/
def kept
    (after : Name)
    (entries : List Name) : List Name :=
  least windowSize (entries.filter (after < ·))

/-- The page of a directory that starts beyond a position. -/
def FileSystem.page
    (fileSystem : FileSystem)
    (path : Path)
    (after : Name) : List Name :=
  (beyond after (fileSystem.names path)).take windowSize

/-- The open stream holds the least names of what it has yielded. -/
def Scan.Sound
    (fileSystem : FileSystem)
    (scan : Scan) : Prop :=
  ∃ opening read,
    fileSystem.listing opening scan.path = read ++ scan.directory ∧
      scan.names = kept scan.after read

/-- A number of reads was spent, each with a reading of the clock. -/
structure Spent
    (budget spent : Budget)
    (reads : ℕ) : Prop where
  maximum : spent.maximum = budget.maximum
  made : spent.reads = budget.reads + reads
  clock : spent.clock + reads = budget.clock

theorem Spent.none
    (budget : Budget) :
    Spent budget budget 0 :=
  ⟨rfl, rfl, rfl⟩

theorem Spent.cons
    {budget spent : Budget}
    {reads : ℕ}
    (mayRead : budget.mayRead)
    (others : Spent budget.spend spent reads) :
    Spent budget spent (reads + 1) := by
  simp only [Budget.mayRead, Bool.and_eq_true, decide_eq_true_eq] at mayRead
  obtain ⟨maximum, made, clock⟩ := others
  simp only [Budget.spend, Budget.tick] at maximum made clock
  exact ⟨maximum, by omega, by omega⟩

theorem keep_kept
    (after : Name)
    (read : List Name)
    (entry : Name) :
    keep after (kept after read) entry = kept after (read ++ [entry]) := by
  rw [keep, kept, kept, List.filter_append]
  by_cases isBeyond : after < entry
  · rw [if_pos isBeyond, admitItem_least]
    simp [isBeyond]
  · rw [if_neg isBeyond]
    simp [isBeyond]

/-- A stream is read to its end, or as far as the budget allows. -/
theorem readEntries_cases
    (path : Path)
    (after : Name)
    (read directory : List Name)
    (budget : Budget) :
    (∃ spent,
      readEntries path after directory (kept after read) budget =
        (some (kept after (read ++ directory)), none, spent) ∧
      Spent budget spent (directory.length + 1)) ∨
    ∃ more rest spent,
      directory = more ++ rest ∧
      readEntries path after directory (kept after read) budget =
        (none, some ⟨path, after, rest, kept after (read ++ more)⟩, spent) ∧
      spent.mayRead = false ∧
      Spent budget spent more.length := by
  induction directory generalizing read budget with
  | nil =>
      cases mayRead : budget.mayRead with
      | true =>
          left
          refine ⟨budget.spend, ?_, ?_⟩
          · simp [readEntries, mayRead]
          · exact Spent.cons mayRead (Spent.none _)
      | false =>
          right
          refine ⟨[], [], budget, rfl, ?_, mayRead, Spent.none _⟩
          simp [readEntries, mayRead]
  | cons entry directory inductionHypothesis =>
      cases mayRead : budget.mayRead with
      | true =>
          have step :
              readEntries path after (entry :: directory) (kept after read)
                  budget =
                readEntries path after directory
                  (kept after (read ++ [entry])) budget.spend := by
            rw [readEntries, if_pos mayRead, keep_kept]
          rw [step]
          rcases inductionHypothesis (read ++ [entry]) budget.spend with
            ⟨spent, isRead, others⟩ |
            ⟨more, rest, spent, parts, isRead, exhausted, others⟩
          · left
            refine ⟨spent, ?_, Spent.cons mayRead others⟩
            rw [isRead, List.append_assoc, List.singleton_append]
          · right
            refine ⟨entry :: more, rest, spent, ?_, ?_, exhausted,
              Spent.cons mayRead others⟩
            · rw [parts, List.cons_append]
            · rw [isRead, List.append_assoc, List.singleton_append]
      | false =>
          right
          refine ⟨[], entry :: directory, budget, rfl, ?_, mayRead,
            Spent.none _⟩
          simp [readEntries, mayRead]

theorem kept_listing
    (opening : ℕ)
    (path : Path)
    (after : Name) :
    kept after (fileSystem.listing opening path) =
      fileSystem.page path after := by
  rw [kept, least, ascending_filter, FileSystem.page, FileSystem.names,
    beyond_congr after (fileSystem.static opening 0 path)]

theorem scanFor_sound
    (scanSound : ∀ scan, windows.scan = some scan → scan.Sound fileSystem)
    (path : Path)
    (after : Name) :
    (windows.scanFor fileSystem path after).1.Sound fileSystem ∧
      (windows.scanFor fileSystem path after).1.path = path ∧
      (windows.scanFor fileSystem path after).1.after = after := by
  have openedSound :
      Scan.Sound fileSystem
        ⟨path, after, fileSystem.listing windows.opened path, []⟩ :=
    ⟨windows.opened, [], rfl, by simp [kept, least, ascending]⟩
  rw [Windows.scanFor]
  cases hasScan : windows.scan with
  | none =>
      exact ⟨openedSound, rfl, rfl⟩
  | some scan =>
      dsimp only
      split
      · rename_i same
        exact ⟨scanSound scan hasScan, same.1, same.2⟩
      · exact ⟨openedSound, rfl, rfl⟩

theorem Scan.Sound.length_le
    {scan : Scan}
    (sound : scan.Sound fileSystem) :
    scan.directory.length ≤ fileSystem.width := by
  obtain ⟨opening, read, parts, -⟩ := sound
  have narrow := fileSystem.narrow opening scan.path
  rw [parts, List.length_append] at narrow
  omega

/-- The number of reads that the page for a position still takes. -/
def Windows.readsLeft
    (fileSystem : FileSystem)
    (windows : Windows)
    (path : Path)
    (after : Name) : ℕ :=
  match windows.currentPage path after with
  | some _ =>
      0
  | none =>
      (windows.scanFor fileSystem path after).1.directory.length + 1

/-- What a read leaves: a page at hand, a new page, or an open stream. -/
inductive ReadOutcome
    (fileSystem : FileSystem)
    (windows : Windows)
    (path : Path)
    (after : Name)
    (budget : Budget) :
    Option (List Name) × Windows × Budget → Prop where
  | atHand (page : List Name)
      (isPage : windows.pages path = some page)
      (reaches : page.any (after < ·)) :
      ReadOutcome fileSystem windows path after budget
        (some page, windows, budget)
  | ended (opened reads : ℕ) (spent : Budget)
      (few : reads ≤ fileSystem.width + 1)
      (isSpent : Spent budget spent reads) :
      ReadOutcome fileSystem windows path after budget
        (some (fileSystem.page path after),
          { pages := Function.update windows.pages path
              (some (fileSystem.page path after))
            scan := none
            opened := opened },
          spent)
  | cut (scan : Scan) (opened reads : ℕ) (spent : Budget)
      (sound : scan.Sound fileSystem)
      (samePath : scan.path = path)
      (sameAfter : scan.after = after)
      (exhausted : spent.mayRead = false)
      (fewer : windows.readsLeft fileSystem path after =
        scan.directory.length + 1 + reads)
      (isSpent : Spent budget spent reads) :
      ReadOutcome fileSystem windows path after budget
        (none,
          { pages := Function.update windows.pages path none
            scan := some scan
            opened := opened },
          spent)

/-- Every read has one of the three outcomes. -/
theorem read_outcome
    (scanSound : ∀ scan, windows.scan = some scan → scan.Sound fileSystem)
    (path : Path)
    (after : Name)
    (budget : Budget) :
    ReadOutcome fileSystem windows path after budget
      (windows.read fileSystem path after budget) := by
  rw [Windows.read]
  cases isCurrent : windows.currentPage path after with
  | some page =>
      rw [Windows.currentPage, Option.filter_eq_some_iff] at isCurrent
      exact .atHand page isCurrent.1 isCurrent.2
  | none =>
      obtain ⟨sound, samePath, sameAfter⟩ :=
        scanFor_sound scanSound path after
      have fewer : windows.readsLeft fileSystem path after =
          (windows.scanFor fileSystem path after).1.directory.length + 1 := by
        rw [Windows.readsLeft, isCurrent]
      have sameScan :
          (windows.release path).scanFor fileSystem path after =
            windows.scanFor fileSystem path after :=
        rfl
      dsimp only
      rw [sameScan]
      have few := sound.length_le
      obtain ⟨opening, read, parts, names⟩ := sound
      rw [names, samePath, sameAfter] at *
      rcases readEntries_cases path after read
          (windows.scanFor fileSystem path after).1.directory budget with
        ⟨spent, isRead, isSpent⟩ |
        ⟨more, rest, spent, split, isRead, exhausted, isSpent⟩
      · rw [isRead, ← parts, kept_listing]
        dsimp only [Windows.release]
        rw [Function.update_idem]
        exact .ended _ _ spent (by omega) isSpent
      · rw [isRead]
        dsimp only [Windows.release]
        refine .cut ⟨path, after, rest, kept after (read ++ more)⟩ _
          more.length spent ?_ rfl rfl exhausted ?_ isSpent
        · refine ⟨opening, read ++ more, ?_, rfl⟩
          rw [parts, split, List.append_assoc]
        · change _ = rest.length + 1 + more.length
          rw [fewer, split, List.length_append]
          omega

theorem find?_page
    (path : Path)
    (after : Name) :
    (fileSystem.page path after).find? (after < ·) =
      (beyond after (fileSystem.names path)).head? :=
  head?_window (by decide) after _

theorem find?_page_of_reaches
    {path : Path}
    {start after : Name}
    (ordered : start ≤ after)
    (reaches : (fileSystem.page path start).any (after < ·)) :
    (fileSystem.page path start).find? (after < ·) =
      (beyond after (fileSystem.names path)).head? :=
  find?_window ordered reaches

theorem readsLeft_new_le
    (opened : ℕ)
    (path : Path)
    (after : Name) :
    (Windows.new opened).readsLeft fileSystem path after ≤
      fileSystem.width + 1 := by
  have narrow := fileSystem.narrow opened path
  simpa [Windows.readsLeft, Windows.currentPage, Windows.new,
    Windows.scanFor] using narrow

theorem readsLeft_le
    (scanSound : ∀ scan, windows.scan = some scan → scan.Sound fileSystem)
    (path : Path)
    (after : Name) :
    windows.readsLeft fileSystem path after ≤ fileSystem.width + 1 := by
  rw [Windows.readsLeft]
  split
  · exact Nat.zero_le _
  · exact Nat.succ_le_succ (scanFor_sound scanSound path after).1.length_le

theorem readsLeft_scan
    {scan : Scan}
    {path : Path}
    {after : Name}
    (pages : Path → Option (List Name))
    (opened : ℕ)
    (samePath : scan.path = path)
    (sameAfter : scan.after = after) :
    Windows.readsLeft fileSystem
        { pages := Function.update pages path none
          scan := some scan
          opened := opened }
        path after =
      scan.directory.length + 1 := by
  simp [Windows.readsLeft, Windows.currentPage, Windows.scanFor, samePath,
    sameAfter]

theorem beyond_empty
    (fileSystem : FileSystem)
    (path : Path) :
    beyond .empty (fileSystem.names path) =
      ascending (fileSystem.names path) := by
  apply beyond_of_forall_lt
  intro other member
  apply Name.empty_lt
  rintro rfl
  exact fileSystem.named 0 path member

open LeastWindow

/-!
## Window after window

A reader asks for the names of a directory again and again, each time beyond
the last name of the window before.  Whatever cuts its reads, the windows that
it receives are the front of the sorted directory.
-/

variable {fileSystem : FileSystem} {path : Path}

/-- The windows that a reader has received of a directory. -/
structure Reading where
  windows : Windows
  after : Name
  received : List (List Name)

/-- One call of a reader: its budget, and whether the windows were kept. -/
structure ReadCall where
  budget : Budget
  kept : Bool
deriving DecidableEq, Repr

/-- A reader before its first call. -/
def Reading.start : Reading where
  windows := Windows.new 0
  after := .empty
  received := []

/-- The reader asks for the names beyond those it has received. -/
def Reading.next
    (fileSystem : FileSystem)
    (path : Path)
    (reading : Reading)
    (call : ReadCall) : Reading :=
  let windows :=
    if call.kept then
      reading.windows
    else
      Windows.new reading.windows.opened
  match windows.read fileSystem path reading.after call.budget with
  | (some page, windows, _) =>
      { windows := windows
        after := page.getLast?.getD reading.after
        received := reading.received ++ [page] }
  | (none, windows, _) =>
      { reading with windows := windows }

/-- The windows that a reader has received after its calls. -/
def readCalls
    (fileSystem : FileSystem)
    (path : Path)
    (calls : List ReadCall) : Reading :=
  calls.foldl (Reading.next fileSystem path) Reading.start

/-- What is received and what is left make up the sorted directory. -/
structure Reading.Sound
    (fileSystem : FileSystem)
    (path : Path)
    (reading : Reading) : Prop where
  scan : ∀ scan, reading.windows.scan = some scan → scan.Sound fileSystem
  pages : ∀ page, reading.windows.pages path = some page →
    page.any (reading.after < ·) = false
  left : reading.received.flatten ++
      beyond reading.after (fileSystem.names path) =
    ascending (fileSystem.names path)
  ended : [] ∈ reading.received →
    beyond reading.after (fileSystem.names path) = []

theorem sound_start
    (fileSystem : FileSystem)
    (path : Path) :
    Reading.start.Sound fileSystem path where
  scan := by simp [Reading.start, Windows.new]
  pages := by simp [Reading.start, Windows.new]
  left := by
    rw [Reading.start, List.flatten_nil, List.nil_append]
    exact beyond_empty fileSystem path
  ended := by simp [Reading.start]

theorem beyond_page
    (path : Path)
    (after : Name) :
    beyond ((fileSystem.page path after).getLast?.getD after)
        (fileSystem.names path) =
      (beyond after (fileSystem.names path)).drop windowSize := by
  cases isLast : (fileSystem.page path after).getLast? with
  | none =>
      have noNames : beyond after (fileSystem.names path) = [] := by
        have isEmpty := List.getLast?_eq_none_iff.mp isLast
        rw [FileSystem.page, List.take_eq_nil_iff] at isEmpty
        exact isEmpty.resolve_left (by decide)
      rw [Option.getD_none, noNames, List.drop_nil]
  | some last =>
      exact beyond_eq_of_take (fileSystem.distinct 0 path) isLast

theorem page_any_last
    (path : Path)
    (after : Name) :
    (fileSystem.page path after).any
      ((fileSystem.page path after).getLast?.getD after < ·) = false := by
  apply List.any_eq_false.mpr
  intro item member
  cases isLast : (fileSystem.page path after).getLast? with
  | none =>
      rw [List.getLast?_eq_none_iff.mp isLast] at member
      simp at member
  | some last =>
      have itemLe := (pairwise_beyond after _).take.rel_getLast member
      have isFinal := List.getLast_of_getLast?_eq_some isLast
      simpa using itemLe.trans_eq isFinal

/-- A call keeps what is known of a reading. -/
theorem Reading.Sound.next
    {reading : Reading}
    (sound : reading.Sound fileSystem path)
    (call : ReadCall) :
    (reading.next fileSystem path call).Sound fileSystem path ∧
      (fileSystem.width < call.budget.maximum - call.budget.reads →
        fileSystem.width < call.budget.clock →
          beyond (reading.next fileSystem path call).after
              (fileSystem.names path) =
            (beyond reading.after (fileSystem.names path)).drop
              windowSize) := by
  rw [Reading.next]
  generalize isResumed :
    (if call.kept then
      reading.windows
    else
      Windows.new reading.windows.opened) = windows
  have scan : ∀ scan, windows.scan = some scan → scan.Sound fileSystem := by
    rw [← isResumed]
    split
    · exact sound.scan
    · simp [Windows.new]
  have pages : ∀ page, windows.pages path = some page →
      page.any (reading.after < ·) = false := by
    rw [← isResumed]
    split
    · exact sound.pages
    · simp [Windows.new]
  have outcome := read_outcome scan path reading.after call.budget
  have few := readsLeft_le scan path reading.after
  generalize windows.read fileSystem path reading.after call.budget =
    result at outcome
  cases outcome with
  | atHand page isPage reaches =>
      rw [pages page isPage] at reaches
      simp at reaches
  | ended opened reads spent few isSpent =>
      have rest := @beyond_page fileSystem path reading.after
      refine ⟨⟨by simp, ?_, ?_, ?_⟩, fun _ _ => rest⟩
      · intro page isPage
        have isNew : fileSystem.page path reading.after = page := by
          simpa using isPage
        rw [← isNew]
        exact page_any_last path reading.after
      · dsimp only
        rw [rest, List.flatten_append, List.flatten_singleton,
          List.append_assoc, FileSystem.page, List.take_append_drop,
          sound.left]
      · intro someEmpty
        dsimp only
        rw [rest]
        rcases List.mem_append.mp someEmpty with before | isEmpty
        · rw [sound.ended before, List.drop_nil]
        · rw [List.mem_singleton] at isEmpty
          rw [FileSystem.page, eq_comm, List.take_eq_nil_iff] at isEmpty
          rw [isEmpty.resolve_left (by decide), List.drop_nil]
  | cut scan opened reads spent scanSound samePath sameAfter exhausted fewer
      isSpent =>
      refine ⟨⟨?_, ?_, sound.left, sound.ended⟩, ?_⟩
      · intro other isScan
        have same : scan = other := by simpa using isScan
        exact same ▸ scanSound
      · intro page isPage
        simp at isPage
      · intro enoughReads enoughTime
        obtain ⟨maximum, made, clock⟩ := isSpent
        simp only [Budget.mayRead, Bool.and_eq_false_imp,
          decide_eq_true_eq, decide_eq_false_iff_not] at exhausted
        omega

theorem readCalls_sound
    (calls : List ReadCall) :
    (readCalls fileSystem path calls).Sound fileSystem path := by
  induction calls using List.reverseRecOn with
  | nil =>
      exact sound_start fileSystem path
  | append_singleton calls call inductionHypothesis =>
      rw [readCalls, List.foldl_append]
      exact (inductionHypothesis.next call).1

theorem readCalls_roomy
    (calls : List ReadCall)
    (roomy : ∀ call ∈ calls,
      fileSystem.width < call.budget.maximum - call.budget.reads ∧
        fileSystem.width < call.budget.clock) :
    (readCalls fileSystem path calls).received.flatten =
      (ascending (fileSystem.names path)).take
        (windowSize * calls.length) := by
  have rest : beyond (readCalls fileSystem path calls).after
      (fileSystem.names path) =
        (ascending (fileSystem.names path)).drop
          (windowSize * calls.length) := by
    induction calls using List.reverseRecOn with
    | nil =>
        exact beyond_empty fileSystem path
    | append_singleton calls call inductionHypothesis =>
        have before := inductionHypothesis fun other member =>
          roomy other (List.mem_append_left _ member)
        have enough := roomy call (by simp)
        have step := ((@readCalls_sound fileSystem path calls).next call).2
          enough.1 enough.2
        rw [readCalls, List.foldl_append]
        refine step.trans ?_
        rw [before, List.drop_drop, List.length_append,
          List.length_singleton, Nat.mul_succ]
  have whole := (@readCalls_sound fileSystem path calls).left
  rw [rest] at whole
  conv_rhs at whole =>
    rw [← List.take_append_drop (windowSize * calls.length)
      (ascending (fileSystem.names path))]
  exact List.append_cancel_right whole

end Frameleaf.AttemptTree
