import Frameleaf.Lib.JsonGraph

namespace Frameleaf.HiddenClips

open Json JsonGraph

/-!
# Clips of media hidden from a session

Entries of arrays that name hidden media, and those that point at them, are
taken out of a graph before the editor sees it and put back into every graph
that is saved.
-/

/-- How deep a graph is read. -/
def MAX_DEPTH : ℕ := 64

/-- How often a graph is read. -/
def MAX_PASSES : ℕ := 8

/-- Whether a field holds one of some texts. -/
def holdsText
    (fields : Fields)
    (name : String)
    (texts : List String) : Bool :=
  match Fields.get? fields name with
  | some (.string text) =>
      texts.contains text
  | _ =>
      false

/-- `namesHiddenMedia` -/
def namesHiddenMedia
    (fields : Fields)
    (hidden : List String) : Bool :=
  holdsText fields "mediaId" hidden || holdsText fields "assetId" hidden

/-- The text that a value is, or those that stand in it as an array. -/
def directTexts : Json → List String
  | .string text =>
      [text]
  | .array items =>
      items.filterMap fun
        | .string text =>
            some text
        | _ =>
            none
  | _ =>
      []

/-- `pointsAt` -/
def pointsAt
    (fields : Fields)
    (ids : List String) : Bool :=
  fields.any fun field =>
    field.1 != "id" && (directTexts field.2).any ids.contains

/-- `heldIds`: an empty text is no identity here. -/
def heldIds
    (held : List PlacedEntry) : List String :=
  held.filterMap fun placed => (idOf placed.2).filter (· ≠ "")

/-- Whether an entry is taken out while some others are held. -/
def shouldHold
    (hidden : List String)
    (held : List PlacedEntry) : Json → Bool
  | .object fields =>
      namesHiddenMedia fields hidden || pointsAt fields (heldIds held)
  | _ =>
      false

mutual

/-- `strip` -/
def strip
    (hidden : List String)
    (depth : ℕ)
    (path : Path) :
    Json → List PlacedEntry → Json × List PlacedEntry
  | .array items, held =>
      if MAX_DEPTH < depth then
        (.array items, held)
      else
        let stripped := stripItems hidden depth path items held
        (.array stripped.1, stripped.2)
  | .object fields, held =>
      if MAX_DEPTH < depth then
        (.object fields, held)
      else
        let stripped := stripFields hidden depth path fields held
        (.object stripped.1, stripped.2)
  | .null, held =>
      (.null, held)
  | .bool value, held =>
      (.bool value, held)
  | .number text, held =>
      (.number text, held)
  | .string text, held =>
      (.string text, held)

/-- The loop of `strip` over the items of an array. -/
def stripItems
    (hidden : List String)
    (depth : ℕ)
    (path : Path) :
    List Json → List PlacedEntry → List Json × List PlacedEntry
  | [], held =>
      ([], held)
  | item :: items, held =>
      if shouldHold hidden held item then
        stripItems hidden depth path items (held ++ [(path, item)])
      else
        let next :=
          match idOf item with
          | none =>
              (item, held)
          | some name =>
              strip hidden (depth + 1) (path ++ [Step.id name]) item held
        let rest := stripItems hidden depth path items next.2
        (next.1 :: rest.1, rest.2)

/-- The loop of `strip` over the fields of an object. -/
def stripFields
    (hidden : List String)
    (depth : ℕ)
    (path : Path) :
    Fields → List PlacedEntry → Fields × List PlacedEntry
  | [], held =>
      ([], held)
  | (name, value) :: fields, held =>
      let next := strip hidden (depth + 1) (path ++ [Step.key name]) value held
      let rest := stripFields hidden depth path fields next.2
      ((name, next.1) :: rest.1, rest.2)

end

/-- One pass over a graph. -/
def stripPass
    (hidden : List String)
    (state : Json × List PlacedEntry) : Json × List PlacedEntry :=
  strip hidden 0 [] state.1 state.2

/-- Passes over a graph, until one takes out nothing. -/
def stripPasses
    (hidden : List String) :
    ℕ → Json × List PlacedEntry → Json × List PlacedEntry
  | 0, state =>
      state
  | passes + 1, state =>
      let next := stripPass hidden state
      if next.2.length = state.2.length then
        next
      else
        stripPasses hidden passes next

/-- Whether a value is an object or an array. -/
def isContainer : Json → Bool
  | .array _ | .object _ =>
      true
  | _ =>
      false

/-- `holdBackHiddenClips` -/
def holdBackHiddenClips
    (graph : Json)
    (hiddenSources : List String) : Json × List PlacedEntry :=
  if hiddenSources.isEmpty || !isContainer graph then
    (graph, [])
  else
    stripPasses hiddenSources MAX_PASSES (graph, [])

/-- One round of the loop of `withHeldClips`. -/
def putBack
    (graph : Json)
    (placed : PlacedEntry) : Json :=
  match arrayAt placed.1 graph with
  | none =>
      graph
  | some items =>
      if (idOf placed.2).any fun name =>
          items.any fun item => idOf item == some name then
        graph
      else
        pushAt placed.2 placed.1 graph

/-- `withHeldClips` -/
def withHeldClips
    (graph : Json)
    (held : List PlacedEntry) : Json :=
  if held.isEmpty || !isContainer graph then
    graph
  else
    held.foldl putBack graph

mutual

/-- How deep the deepest value is below this one. -/
def depthOf : Json → ℕ
  | .array items =>
      depthOfItems items
  | .object fields =>
      depthOfFields fields
  | _ =>
      0

/-- How deep the deepest value is below an array of these. -/
def depthOfItems : List Json → ℕ
  | [] =>
      0
  | item :: items =>
      max (depthOf item + 1) (depthOfItems items)

/-- How deep the deepest value is below an object of these. -/
def depthOfFields : Fields → ℕ
  | [] =>
      0
  | (_, value) :: fields =>
      max (depthOf value + 1) (depthOfFields fields)

end

end Frameleaf.HiddenClips
