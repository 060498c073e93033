import Frameleaf.HiddenClips.TakenOut
import Mathlib.Data.List.Induction
import Mathlib.Logic.Function.Iterate

namespace Frameleaf.HiddenClips

open Json JsonGraph

/-!
# Hidden clips leave a graph and come back

Every pass takes out what it records, and what stays in an array neither names
hidden media nor points at what was held before the pass.  Putting entries back
one after the other fills the arrays with them, which undoes the passes as long
as no entry was taken out of an entry that was taken out later.
-/

/-! ## Entries that stay, stay out of it -/

variable {text name : String}

theorem mem_directTexts_array
    {items : List Json} :
    text ∈ directTexts (.array items) ↔ Json.string text ∈ items := by
  unfold directTexts
  dsimp only
  rw [List.mem_filterMap]
  constructor
  · rintro ⟨item, member, isText⟩
    cases item with
    | string other =>
        cases isText
        exact member
    | null | bool | number | array | object =>
        cases isText
  · intro member
    exact ⟨_, member, rfl⟩

variable {keeps : Json → Prop} {path : Path} {value other entry : Json}
  {taken held : List PlacedEntry}

theorem TakenOut.directTexts_subset
    (takenOut : TakenOut keeps path value other taken)
    (isText : text ∈ directTexts other) :
    text ∈ directTexts value := by
  induction takenOut with
  | scalar noContainer =>
      exact isText
  | emptyArray path | emptyObject path =>
      exact isText
  | held rest inductionHypothesis =>
      rw [mem_directTexts_array]
      exact List.mem_cons_of_mem _
        (mem_directTexts_array.mp (inductionHypothesis isText))
  | element isKept isElement inside rest insideHypothesis restHypothesis =>
      rw [mem_directTexts_array] at isText ⊢
      obtain isFirst | later := List.mem_cons.mp isText
      · rw [(inside.same.2 text).mpr isFirst.symm]
        exact List.mem_cons_self
      · exact List.mem_cons_of_mem _ (mem_directTexts_array.mp
          (restHypothesis (mem_directTexts_array.mpr later)))
  | other isKept noElement rest inductionHypothesis =>
      rw [mem_directTexts_array] at isText ⊢
      obtain isFirst | later := List.mem_cons.mp isText
      · rw [isFirst]
        exact List.mem_cons_self
      · exact List.mem_cons_of_mem _ (mem_directTexts_array.mp
          (inductionHypothesis (mem_directTexts_array.mpr later)))
  | field inside rest insideHypothesis restHypothesis =>
      cases isText

variable {fields kept : Fields}

theorem TakenOut.get?_string
    (takenOut : TakenOut keeps path value other taken)
    (isValue : value = .object fields)
    (isOther : other = .object kept)
    (found : Fields.get? kept name = some (.string text)) :
    Fields.get? fields name = some (.string text) := by
  induction takenOut generalizing fields kept with
  | scalar noContainer =>
      cases isValue
      cases noContainer
  | emptyArray path | held | element | other =>
      cases isValue
  | emptyObject path =>
      cases isValue
      cases isOther
      exact found
  | @field path first value other fields kept inner taken inside rest
      insideHypothesis restHypothesis =>
      cases isValue
      cases isOther
      rw [get?_cons] at found ⊢
      by_cases isName : first = name
      · rw [if_pos isName] at found ⊢
        rw [(inside.same.2 text).mpr (Option.some_inj.mp found)]
      · rw [if_neg isName] at found ⊢
        exact restHypothesis rfl rfl found

theorem TakenOut.pointsAt_imp
    (takenOut : TakenOut keeps path value other taken)
    (isValue : value = .object fields)
    (isOther : other = .object kept)
    {ids : List String}
    (points : pointsAt kept ids = true) :
    pointsAt fields ids = true := by
  induction takenOut generalizing fields kept with
  | scalar noContainer =>
      cases isValue
      cases noContainer
  | emptyArray path | held | element | other =>
      cases isValue
  | emptyObject path =>
      cases isValue
      cases isOther
      exact points
  | @field path first value other fields kept inner taken inside rest
      insideHypothesis restHypothesis =>
      cases isValue
      cases isOther
      unfold pointsAt at points ⊢
      rw [List.any_cons, Bool.or_eq_true_iff] at points ⊢
      obtain here | later := points
      · obtain ⟨otherName, texts⟩ := Bool.and_eq_true_iff.mp here
        obtain ⟨text, isText, isId⟩ := List.any_eq_true.mp texts
        refine .inl (Bool.and_eq_true_iff.mpr ⟨otherName, ?_⟩)
        exact List.any_eq_true.mpr
          ⟨text, inside.directTexts_subset isText, isId⟩
      · exact .inr (restHypothesis rfl rfl later)

theorem holdsText_iff
    {texts : List String} :
    holdsText fields name texts = true ↔
      ∃ text ∈ texts, Fields.get? fields name = some (.string text) := by
  unfold holdsText
  split
  case h_1 text found =>
    rw [found, List.contains_iff_mem]
    simp
  case h_2 noText =>
    refine iff_of_false Bool.false_ne_true ?_
    rintro ⟨text, -, found⟩
    exact noText text found

variable {hidden : List String}

theorem TakenOut.shouldHold_imp
    (takenOut : TakenOut keeps path value other taken)
    (holds : shouldHold hidden held other = true) :
    shouldHold hidden held value = true := by
  have objects : ∀ kept, other = .object kept →
      ∃ fields, value = .object fields := by
    intro kept isOther
    cases takenOut with
    | scalar noContainer =>
        rw [isOther] at noContainer
        cases noContainer
    | emptyArray | held | element | other =>
        cases isOther
    | emptyObject =>
        exact ⟨_, rfl⟩
    | field inside rest =>
        exact ⟨_, rfl⟩
  cases other with
  | null | bool | number | string | array =>
      cases holds
  | object kept =>
      obtain ⟨fields, rfl⟩ := objects kept rfl
      have texts (name : String)
          (holdsOne : holdsText kept name hidden = true) :
          holdsText fields name hidden = true := by
        obtain ⟨text, isHidden, found⟩ := holdsText_iff.mp holdsOne
        exact holdsText_iff.mpr
          ⟨text, isHidden, takenOut.get?_string rfl rfl found⟩
      unfold shouldHold namesHiddenMedia at holds ⊢
      dsimp only at holds ⊢
      rw [Bool.or_eq_true_iff, Bool.or_eq_true_iff] at holds ⊢
      obtain (media | asset) | points := holds
      · exact .inl (.inl (texts "mediaId" media))
      · exact .inl (.inr (texts "assetId" asset))
      · exact .inr (takenOut.pointsAt_imp rfl rfl points)

/-! ## Passes -/

theorem exists_stripPass
    (hidden : List String)
    {state : Json × List PlacedEntry}
    (shallow : depthOf state.1 ≤ MAX_DEPTH) :
    ∃ taken,
      (stripPass hidden state).2 = state.2 ++ taken ∧
        TakenOut (fun item => shouldHold hidden state.2 item = false) []
          state.1 (stripPass hidden state).1 taken :=
  takenOut_strip (by omega) [] state.2 List.prefix_rfl

theorem shouldHold_of_stripPass
    {state : Json × List PlacedEntry}
    (shallow : depthOf state.1 ≤ MAX_DEPTH)
    (placed : Placed (stripPass hidden state).1 entry) :
    shouldHold hidden state.2 entry = false := by
  obtain ⟨taken, -, takenOut⟩ := exists_stripPass hidden shallow
  refine takenOut.keeps_of_placed ?_ placed
  intro path item other inner inside isKept
  rw [← Bool.not_eq_true] at isKept ⊢
  exact mt inside.shouldHold_imp isKept

/-- No entry was taken out of an entry that was taken out later. -/
def NoneInside
    (held : List PlacedEntry) : Prop :=
  held.Pairwise fun earlier later =>
    ∀ name, idOf later.2 = some name →
      ¬ later.1 ++ [.id name] <+: earlier.1

/-- The held entries, put back into their arrays, give a graph. -/
structure Restores
    (graph : Json)
    (state : Json × List PlacedEntry) : Prop where
  isThere : ∀ placed ∈ state.2, (arrayAt placed.1 state.1).isSome = true
  filled : Reordered (fill state.2 [] state.1) graph

theorem Restores.stripPass
    {graph : Json}
    {state : Json × List PlacedEntry}
    (restores : Restores graph state)
    (proper : Proper state.1)
    (shallow : depthOf state.1 ≤ MAX_DEPTH)
    (noneInside : NoneInside (stripPass hidden state).2) :
    Restores graph (stripPass hidden state) := by
  obtain ⟨taken, isHeld, takenOut⟩ := exists_stripPass hidden shallow
  generalize HiddenClips.stripPass hidden state = next at *
  obtain ⟨left, held⟩ := next
  dsimp only at isHeld takenOut
  subst isHeld
  obtain ⟨-, -, apart⟩ := List.pairwise_append.mp noneInside
  constructor
  · intro placed member
    obtain before | now := List.mem_append.mp member
    · apply takenOut.stays _ (restores.isThere placed before)
      intro other isTaken name isEntry isPrefix
      exact apart placed before other isTaken name isEntry isPrefix
    · obtain ⟨rest, isRest, isThere⟩ :=
        takenOut.isThere (takenOut.proper proper) now
      rw [isRest]
      exact isThere
  · have inParts : NotInside state.2 taken := by
      intro placed isTaken name isEntry inner isInner
      exact apart inner isInner placed isTaken name isEntry
    refine (fill_append inParts [] left).trans ?_
    exact ((takenOut.fill proper).fill state.2 []).trans restores.filled

theorem stripPasses_spec
    {passes : ℕ}
    {state : Json × List PlacedEntry}
    (proper : Proper state.1)
    (shallow : depthOf state.1 ≤ MAX_DEPTH) :
    (∃ later, (stripPasses hidden passes state).2 = state.2 ++ later) ∧
      Proper (stripPasses hidden passes state).1 ∧
      ∀ graph, NoneInside (stripPasses hidden passes state).2 →
        Restores graph state →
        Restores graph (stripPasses hidden passes state) := by
  induction passes generalizing state with
  | zero =>
      exact ⟨⟨[], (List.append_nil _).symm⟩, proper,
        fun graph _ restores => restores⟩
  | succ passes inductionHypothesis =>
      obtain ⟨taken, isHeld, takenOut⟩ := exists_stripPass hidden shallow
      have nextProper := takenOut.proper proper
      have nextShallow := Nat.le_trans takenOut.depthOf_le shallow
      rw [stripPasses]
      split
      · exact ⟨⟨taken, isHeld⟩, nextProper,
          fun graph noneInside restores =>
            restores.stripPass proper shallow noneInside⟩
      · obtain ⟨⟨later, isLater⟩, lastProper, run⟩ :=
          inductionHypothesis nextProper nextShallow
        refine ⟨⟨taken ++ later, ?_⟩, lastProper, ?_⟩
        · rw [isLater, isHeld, List.append_assoc]
        · intro graph noneInside restores
          apply run graph noneInside
          apply restores.stripPass proper shallow
          rw [isLater] at noneInside
          exact (List.pairwise_append.mp noneInside).1

theorem exists_last_pass
    {passes : ℕ}
    {state : Json × List PlacedEntry}
    (shallow : depthOf state.1 ≤ MAX_DEPTH) :
    ∃ before, depthOf before.1 ≤ MAX_DEPTH ∧
      stripPasses hidden (passes + 1) state = stripPass hidden before ∧
      ((∃ count ≤ passes,
        ((stripPass hidden)^[count + 1] state).2.length =
          ((stripPass hidden)^[count] state).2.length) →
        (stripPass hidden before).2.length = before.2.length) := by
  induction passes generalizing state with
  | zero =>
      refine ⟨state, shallow, ?_, ?_⟩
      · rw [stripPasses]
        split
        · rfl
        · rfl
      · rintro ⟨count, isFirst, settled⟩
        obtain rfl := Nat.le_zero.mp isFirst
        exact settled
  | succ passes inductionHypothesis =>
      obtain ⟨taken, isHeld, takenOut⟩ := exists_stripPass hidden shallow
      obtain ⟨before, isShallow, isLast, settles⟩ :=
        @inductionHypothesis (stripPass hidden state)
          (Nat.le_trans takenOut.depthOf_le shallow)
      rw [stripPasses]
      split
      case isTrue settled =>
        exact ⟨state, shallow, rfl, fun _ => settled⟩
      case isFalse notSettled =>
        refine ⟨before, isShallow, isLast, ?_⟩
        rintro ⟨count, atMost, settled⟩
        cases count with
        | zero =>
            exact absurd settled notSettled
        | succ count =>
            exact settles ⟨count, Nat.le_of_succ_le_succ atMost, settled⟩

/-! ## Putting entries back -/

theorem distinct_of_arrayAt
    {items : List Json}
    (proper : Proper value)
    (found : arrayAt path value = some items) :
    (items.filterMap idOf).Nodup := by
  induction path generalizing value with
  | nil =>
      cases value with
      | array others =>
          cases found
          exact (proper_array_iff.mp proper).1
      | null | bool | number | string | object =>
          cases found
  | cons step path inductionHypothesis =>
      cases step with
      | key name =>
          cases value with
          | object fields =>
              obtain ⟨inner, isInner, inside⟩ := Option.bind_eq_some_iff.mp found
              obtain ⟨before, after, rfl, -⟩ := exists_of_get? isInner
              have each := (proper_object_iff.mp proper).2
              exact inductionHypothesis (each (name, inner) (by simp)) inside
          | null | bool | number | string | array =>
              cases found
      | id name =>
          cases value with
          | array others =>
              obtain ⟨inner, isInner, inside⟩ := Option.bind_eq_some_iff.mp found
              have member := List.mem_of_find?_eq_some isInner
              have each := (proper_array_iff.mp proper).2
              exact inductionHypothesis (each inner member) inside
          | null | bool | number | string | object =>
              cases found

/-- Entries whose arrays are there fill them one after the other. -/
theorem foldl_putBack
    (later : List PlacedEntry)
    (proper : Proper value)
    (filledProper : Proper (fill (held ++ later) [] value))
    (isThere : ∀ placed ∈ held, (arrayAt placed.1 value).isSome = true) :
    held.foldl putBack value = fill held [] value := by
  induction held using List.reverseRecOn generalizing later with
  | nil =>
      exact (fill_nil [] value).symm
  | append_singleton held placed inductionHypothesis =>
      obtain ⟨path, entry⟩ := placed
      obtain ⟨before, here⟩ := List.forall_mem_append.mp isThere
      rw [List.append_assoc] at filledProper
      have filled := inductionHypothesis _ filledProper before
      have pathThere := here (path, entry) List.mem_cons_self
      obtain ⟨items, isItems⟩ := Option.isSome_iff_exists.mp pathThere
      obtain ⟨current, isCurrent, sameNow⟩ := arrayAt_fill held [] isItems
      obtain ⟨last, isLast, sameLast⟩ :=
        arrayAt_fill (held ++ ([(path, entry)] ++ later)) [] isItems
      have distinct := distinct_of_arrayAt filledProper isLast
      have isNew : ((idOf entry).any fun name =>
          (current ++ entriesAt ([] ++ path) held).any fun item =>
            idOf item == some name) = false := by
        cases isEntry : idOf entry with
        | none =>
            rfl
        | some name =>
            rw [Option.any_some, ← Bool.not_eq_true]
            intro isHeld
            obtain ⟨item, member, isItem⟩ := List.any_eq_true.mp isHeld
            have sameIds : last.filterMap idOf = current.filterMap idOf := by
              have identities (list : List Json) :
                  list.filterMap idOf = (list.map idOf).filterMap id := by
                rw [List.filterMap_map]
                rfl
              rw [identities, identities, sameLast, sameNow]
            rw [entriesAt_append, entriesAt_append, ← List.append_assoc,
              List.filterMap_append, List.filterMap_append, sameIds,
              ← List.filterMap_append] at distinct
            obtain ⟨-, -, apart⟩ := List.nodup_append.mp distinct
            refine apart name ?_ name ?_ rfl
            · exact List.mem_filterMap.mpr
                ⟨item, member, beq_iff_eq.mp isItem⟩
            · apply List.mem_filterMap.mpr
              refine ⟨entry, List.mem_append_left _ ?_, isEntry⟩
              exact mem_entriesAt.mpr List.mem_cons_self
      rw [List.foldl_append, filled, List.foldl_cons, List.foldl_nil, putBack]
      dsimp only
      rw [isCurrent]
      dsimp only
      rw [isNew]
      exact (fill_concat proper pathThere entry).symm

theorem arrayAt_of_not_container
    (noContainer : isContainer value = false)
    (path : Path) :
    arrayAt path value = none := by
  cases value with
  | array | object =>
      cases noContainer
  | null | bool | number | string =>
      cases path with
      | nil =>
          rfl
      | cons step path =>
          cases step with
          | key | id =>
              rfl

theorem withHeldClips_eq_foldl
    (graph : Json)
    (held : List PlacedEntry) :
    withHeldClips graph held = held.foldl putBack graph := by
  unfold withHeldClips
  split
  case isTrue nothing =>
    obtain noneHeld | noContainer := Bool.or_eq_true_iff.mp nothing
    · rw [List.isEmpty_iff.mp noneHeld]
      rfl
    · have none := arrayAt_of_not_container
        (Bool.not_eq_true' _ ▸ noContainer)
      induction held with
      | nil =>
          rfl
      | cons placed held inductionHypothesis =>
          rw [List.foldl_cons, putBack, none]
          exact inductionHypothesis (by rw [noContainer, Bool.or_true])
  case isFalse =>
    rfl

/-- Putting held entries back into a graph, one after the other: each one is
put at the end of its array, or it is dropped, because its array is not in the
graph that was edited or has an entry with its identity. -/
inductive PutBack
    (edited : Json) : Json → List PlacedEntry → Json → Prop where
  | done
      (current : Json) :
      PutBack edited current [] current
  | added
      {current next result entry : Json}
      {path : Path}
      {items : List Json}
      {held : List PlacedEntry}
      (found : arrayAt path current = some items)
      (isNew : ∀ name, idOf entry = some name →
        ∀ item ∈ items, idOf item ≠ some name)
      (appended : AppendedAt entry path current next)
      (rest : PutBack edited next held result) :
      PutBack edited current ((path, entry) :: held) result
  | dropped
      {current result entry : Json}
      {path : Path}
      {held : List PlacedEntry}
      (reason : arrayAt path edited = none ∨
        ∃ items name, arrayAt path current = some items ∧
          idOf entry = some name ∧ ∃ item ∈ items, idOf item = some name)
      (rest : PutBack edited current held result) :
      PutBack edited current ((path, entry) :: held) result

theorem putBack_foldl
    {edited current : Json}
    (held : List PlacedEntry)
    (stays : ∀ path, (arrayAt path edited).isSome = true →
      (arrayAt path current).isSome = true) :
    PutBack edited current held (held.foldl putBack current) := by
  induction held generalizing current with
  | nil =>
      exact .done current
  | cons placed held inductionHypothesis =>
      obtain ⟨path, entry⟩ := placed
      rw [List.foldl_cons, putBack]
      dsimp only
      cases found : arrayAt path current with
      | none =>
          refine .dropped (.inl ?_) (inductionHypothesis stays)
          have notThere := mt (stays path)
          rw [found] at notThere
          exact Option.not_isSome_iff_eq_none.mp (notThere nofun)
      | some items =>
          dsimp only
          split
          case isTrue isHeld =>
            cases isEntry : idOf entry with
            | none =>
                rw [isEntry] at isHeld
                cases isHeld
            | some name =>
                rw [isEntry, Option.any_some] at isHeld
                obtain ⟨item, member, isItem⟩ := List.any_eq_true.mp isHeld
                exact .dropped (.inr ⟨items, name, found, isEntry, item, member,
                  beq_iff_eq.mp isItem⟩) (inductionHypothesis stays)
          case isFalse notHeld =>
            have appended := appendedAt_pushAt entry found
            refine .added found ?_ appended (inductionHypothesis ?_)
            · intro name isEntry item member same
              apply notHeld
              rw [isEntry, Option.any_some]
              exact List.any_eq_true.mpr ⟨item, member, beq_iff_eq.mpr same⟩
            · intro path isThere
              exact appended.arrayAt_isSome (stays path isThere)

/-! ## Clips that are held back -/

/-- One of the passes took out nothing. -/
def Settles
    (graph : Json)
    (hiddenSources : List String) : Prop :=
  ∃ count < MAX_PASSES,
    ((stripPass hiddenSources)^[count + 1] (graph, [])).2.length =
      ((stripPass hiddenSources)^[count] (graph, [])).2.length

/-- Graphs as they are stored: at most 64 levels deep, with distinct identities
in each array. -/
structure IsGraph
    (graph : Json) : Prop where
  proper : Proper graph
  shallow : depthOf graph ≤ MAX_DEPTH

/-- What holds of clips that are held back and put back. -/
structure HiddenClipLaws : Prop where
  /-- No entry that is left, in an array to which fields and elements with an
  identity lead, names hidden media. -/
  withoutMedia : ∀ (graph : Json) (hiddenSources : List String),
    IsGraph graph →
    ∀ fields : Fields,
      Placed (holdBackHiddenClips graph hiddenSources).1 (.object fields) →
      namesHiddenMedia fields hiddenSources = false
  /-- And none points at a held entry, when one of the passes took out
  nothing. -/
  withoutPointers : ∀ (graph : Json) (hiddenSources : List String),
    IsGraph graph →
    Settles graph hiddenSources →
    ∀ fields : Fields,
      Placed (holdBackHiddenClips graph hiddenSources).1 (.object fields) →
      pointsAt fields
        (heldIds (holdBackHiddenClips graph hiddenSources).2) = false
  /-- Putting the held entries back gives the graph, up to the order of array
  entries, when none was taken out of an entry that was taken out later. -/
  restores : ∀ (graph : Json) (hiddenSources : List String),
    IsGraph graph →
    NoneInside (holdBackHiddenClips graph hiddenSources).2 →
    Reordered
      (withHeldClips (holdBackHiddenClips graph hiddenSources).1
        (holdBackHiddenClips graph hiddenSources).2)
      graph
  /-- Into every edited graph, each held entry is put at most once, at the end
  of its array, and nothing else changes. -/
  putsBack : ∀ (edited : Json) (held : List PlacedEntry),
    PutBack edited edited held (withHeldClips edited held)

theorem not_placed
    (noContainer : isContainer value = false) :
    ¬ Placed value entry := by
  intro placed
  cases placed with
  | here | element | field =>
      cases noContainer

theorem namesHiddenMedia_nil
    (fields : Fields) :
    namesHiddenMedia fields [] = false := by
  have none (name : String) : holdsText fields name [] = false := by
    rw [← Bool.not_eq_true]
    intro holds
    obtain ⟨text, member, -⟩ := holdsText_iff.mp holds
    cases member
  rw [namesHiddenMedia, none, none, Bool.or_false]

theorem holdBackHiddenClips_cases
    (graph : Json)
    (hiddenSources : List String) :
    (holdBackHiddenClips graph hiddenSources = (graph, []) ∧
        (hiddenSources = [] ∨ isContainer graph = false)) ∨
      holdBackHiddenClips graph hiddenSources =
        stripPasses hiddenSources MAX_PASSES (graph, []) := by
  unfold holdBackHiddenClips
  split
  case isTrue nothing =>
    obtain noneHidden | noContainer := Bool.or_eq_true_iff.mp nothing
    · exact .inl ⟨rfl, .inl (List.isEmpty_iff.mp noneHidden)⟩
    · exact .inl ⟨rfl, .inr (Bool.not_eq_true' _ ▸ noContainer)⟩
  case isFalse =>
    exact .inr rfl

/-- An object with a text in its field `id` and other fields. -/
def namedObject
    (name : String)
    (fields : Fields) : Json :=
  .object (("id", .string name) :: fields)

end Frameleaf.HiddenClips
