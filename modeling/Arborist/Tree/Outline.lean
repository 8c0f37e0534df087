import Arborist.Tree.Walk
import Arborist.Data.Value
import Arborist.Text.Lines

/-!
Trees written out as data, down to a depth.  Nodes of one kind over the same bytes share one entry:
the second of them adds what is below it to the first.
-/

namespace Arborist

structure Extent where
  startByte : Nat
  endByte : Nat
  kind : String
deriving DecidableEq, Repr

def Node.extent (node : Node) : Extent := ⟨node.startByte, node.endByte, node.kind⟩

/-- What an entry holds below it: nothing is asked for, it is cut off, or a list. -/
inductive Below (α : Type) where
  | unasked
  | cut
  | list (items : List α)
deriving Repr

structure OutlineEntry where
  label : NodeLabel
  text : Option String
  count : Nat
  below : Below Extent

/-- The entries so far, and those of the nodes from the root to the present one, nearest first. -/
structure OutlineState where
  entries : List (Extent × OutlineEntry)
  spine : List Extent

structure OutlineOptions where
  includeText : Bool := true
  maxDepth : Int := 5

namespace OutlineState

def entry? (state : OutlineState) (extent : Extent) : Option OutlineEntry :=
  (state.entries.find? fun (other, _) => other = extent).map Prod.snd

def attach (entries : List (Extent × OutlineEntry)) (parent child : Extent) :
    List (Extent × OutlineEntry) :=
  entries.map fun (extent, entry) =>
    if extent = parent then
      match entry.below with
      | .list items =>
        (extent, { entry with below := .list (items ++ [child]), count := items.length + 1 })
      | _ => (extent, entry)
    else (extent, entry)

end OutlineState

def Node.shownText (node : Node) (source : ByteArray) (includeText : Bool) : Option String :=
  if includeText && !source.isEmpty then some (node.text source) else none

/-- Enters a node below the nearest node of the spine that is at a smaller depth. -/
def outlineVisit (source : ByteArray) (options : OutlineOptions) : Visitor OutlineState :=
  fun node _ depth state =>
    let goDown : Bool := (depth : Int) < options.maxDepth
    if depth = 0 then (goDown, state)
    else
      let spine := state.spine.drop (state.spine.length - depth)
      let extent := node.extent
      match state.entry? extent with
      | some _ => (goDown, { state with spine := extent :: spine })
      | none =>
        let entry : OutlineEntry :=
          { label := node.label
            text := node.shownText source options.includeText
            count := node.children.length
            below := if goDown then .list [] else .cut }
        let entries := match spine with
          | parent :: _ => OutlineState.attach state.entries parent extent
          | [] => state.entries
        (goDown, { entries := entries ++ [(extent, entry)], spine := extent :: spine })

inductive Outline where
  | mk (label : NodeLabel) (text : Option String) (count : Nat) (below : Below Outline)

/-- Puts entries together from one of them down; no entry is below itself, so the number of entries
bounds the depth. -/
def OutlineState.assemble (state : OutlineState) (fuel : Nat) (entry : OutlineEntry) : Outline :=
  match fuel with
  | 0 => .mk entry.label entry.text entry.count .cut
  | fuel + 1 =>
    let below := match entry.below with
      | .unasked => .unasked
      | .cut => .cut
      | .list extents =>
        .list ((extents.filterMap state.entry?).map fun child => state.assemble fuel child)
    .mk entry.label entry.text entry.count below

def Node.outlineAlone (node : Node) (source : ByteArray) (includeText : Bool) : Outline :=
  .mk node.label (node.shownText source includeText) node.children.length .unasked

def Node.outline (node : Node) (source : ByteArray) (options : OutlineOptions) : Outline :=
  let root : OutlineEntry :=
    { label := node.label
      text := node.shownText source options.includeText
      count := node.children.length
      below := .list [] }
  let begun : OutlineState := { entries := [(node.extent, root)], spine := [node.extent] }
  let state := node.walk (outlineVisit source options) begun
  match state.entry? node.extent with
  | some entry => state.assemble (state.entries.length + 1) entry
  | none => state.assemble 0 root

namespace Point

def toValue (point : Point) : Value :=
  .object [("row", .nat point.row), ("column", .nat point.column)]

def pair (point : Point) : Value := .list [.nat point.row, .nat point.column]

end Point

mutual

def Outline.toValue : Outline → Value
  | .mk label text count below =>
    .object ([("type", .string label.kind), ("start_point", label.start.toValue),
        ("end_point", label.stop.toValue), ("start_byte", .nat label.startByte),
        ("end_byte", .nat label.endByte), ("named", .bool label.named),
        ("children_count", .nat count)] ++
      (match text with
        | some text => [("text", .string text)]
        | none => []) ++ belowEntries below)

def belowEntries : Below Outline → List (String × Value)
  | .unasked => []
  | .cut => [("truncated", .bool true)]
  | .list items => [("children", .list (outlineValues items))]

def outlineValues : List Outline → List Value
  | [] => []
  | item :: rest => item.toValue :: outlineValues rest

end

/-- The first line of a node's text, cut after fifty characters; dots tell that there is more. -/
def Node.preview (node : Node) (source : ByteArray) : Option String :=
  let lines := Text.boundaryLines (node.text source).toList
  match lines with
  | [] => none
  | first :: others =>
    let line := first.filter fun c => !Text.isLineEnd c
    let snippet := line.take 50
    let more := snippet.length < line.length || !others.isEmpty
    some (String.ofList (if more then snippet ++ "...".toList else snippet))

def Node.summary (node : Node) (source : Option ByteArray) : Value :=
  let base := [("type", Value.string node.kind), ("start_point", node.start.toValue),
    ("end_point", node.stop.toValue)]
  let preview := match source with
    | some source => if source.isEmpty then none else node.preview source
    | none => none
  .object (base ++ match preview with
    | some text => [("preview", .string text)]
    | none => [])

end Arborist
