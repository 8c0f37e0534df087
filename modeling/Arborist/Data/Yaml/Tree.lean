import Arborist.Data.Yaml.Token

/-!
The nodes that the tokens of a document describe.  An alias stands for the node that carries its
anchor before it.
-/

namespace Arborist.Yaml

inductive Tree where
  | scalar (tag : Option String) (plain : Bool) (text : String)
  | sequence (tag : Option String) (items : List Tree)
  | mapping (tag : Option String) (entries : List (Tree × Tree))
deriving Inhabited, Repr

structure Reader where
  tokens : List Token
  handles : List (String × String) := []
  anchors : List (String × Tree) := []

abbrev Read := StateT Reader Option

def nextIs (test : Token → Bool) : Read Bool := do return (← get).tokens.head?.any test

def take : Read Token := do
  match (← get).tokens with
  | token :: rest =>
    modify fun reader => { reader with tokens := rest }
    return token
  | [] => failure

def takeIf (token : Token) : Read Bool := do
  if (← get).tokens.head? == some token then
    let _ ← take
    return true
  else return false

def expect (token : Token) : Read Unit := do
  if !(← takeIf token) then failure

def emptyScalar : Tree := .scalar none true ""

def defaultHandles : List (String × String) := [("!", "!"), ("!!", "tag:yaml.org,2002:")]

structure Properties where
  anchor : Option String := none
  tag : Option String := none

def takeAnchor? : Read (Option String) := do
  match (← get).tokens.head? with
  | some (.anchor name) =>
    let _ ← take
    return some name
  | _ => return none

def takeTag? : Read (Option String) := do
  match (← get).tokens.head? with
  | some (.tag none suffix) =>
    let _ ← take
    return some suffix
  | some (.tag (some handle) suffix) =>
    let _ ← take
    match (← get).handles.lookup handle with
    | some start => return some (start ++ suffix)
    | none => failure
  | _ => return none

def takeProperties : Read Properties := do
  match ← takeAnchor? with
  | some anchor => return ⟨some anchor, ← takeTag?⟩
  | none =>
    match ← takeTag? with
    | some tag => return ⟨← takeAnchor?, some tag⟩
    | none => return {}

def remember (properties : Properties) (tree : Tree) : Read Tree := do
  match properties.anchor with
  | none => return tree
  | some name =>
    if ((← get).anchors.lookup name).isSome then failure
    modify fun reader => { reader with anchors := (name, tree) :: reader.anchors }
    return tree

def endsBlockItem (token : Token) : Bool := token == .entry || token == .blockEnd

def endsIndentlessItem (token : Token) : Bool :=
  token == .entry || token == .key || token == .value || token == .blockEnd

def endsBlockPart (token : Token) : Bool := token == .key || token == .value || token == .blockEnd

mutual

/-- A node; block collections and sequences without an indentation of their own only where they
may stand. -/
def readNode (fuel : Nat) (block indentless : Bool) : Read Tree :=
  match fuel with
  | 0 => failure
  | fuel + 1 => do
    if let some (.reference name) := (← get).tokens.head? then
      let _ ← take
      match (← get).anchors.lookup name with
      | some tree => return tree
      | none => failure
    else
      let properties ← takeProperties
      let tag := if properties.tag == some "!" then none else properties.tag
      match (← get).tokens.head? with
      | some .entry =>
        if indentless then remember properties (.sequence tag (← readIndentless fuel []))
        else if properties.anchor.isSome || properties.tag.isSome then
          remember properties (.scalar tag (properties.tag.isNone || properties.tag == some "!") "")
        else failure
      | some (.scalar text plain) =>
        let _ ← take
        remember properties (.scalar tag (plain || properties.tag == some "!") text)
      | some .flowSequenceStart =>
        let _ ← take
        remember properties (.sequence tag (← readFlowItems fuel true []))
      | some .flowMappingStart =>
        let _ ← take
        remember properties (.mapping tag (← readFlowEntries fuel true []))
      | some .blockSequenceStart =>
        if block then
          let _ ← take
          remember properties (.sequence tag (← readBlockItems fuel []))
        else if properties.anchor.isSome || properties.tag.isSome then
          remember properties (.scalar tag true "")
        else failure
      | some .blockMappingStart =>
        if block then
          let _ ← take
          remember properties (.mapping tag (← readBlockEntries fuel []))
        else if properties.anchor.isSome || properties.tag.isSome then
          remember properties (.scalar tag true "")
        else failure
      | _ =>
        if properties.anchor.isSome || properties.tag.isSome then
          remember properties (.scalar tag true "")
        else failure

def readPart (fuel : Nat) (block indentless : Bool) (ends : Token → Bool) : Read Tree :=
  match fuel with
  | 0 => failure
  | fuel + 1 => do
    if ← nextIs ends then return emptyScalar else readNode fuel block indentless

def readBlockItems (fuel : Nat) (items : List Tree) : Read (List Tree) :=
  match fuel with
  | 0 => failure
  | fuel + 1 => do
    if ← takeIf .entry then
      let item ← readPart fuel true false endsBlockItem
      readBlockItems fuel (item :: items)
    else
      expect .blockEnd
      return items.reverse

def readIndentless (fuel : Nat) (items : List Tree) : Read (List Tree) :=
  match fuel with
  | 0 => failure
  | fuel + 1 => do
    if ← takeIf .entry then
      let item ← readPart fuel true false endsIndentlessItem
      readIndentless fuel (item :: items)
    else return items.reverse

def readBlockEntries (fuel : Nat) (entries : List (Tree × Tree)) : Read (List (Tree × Tree)) :=
  match fuel with
  | 0 => failure
  | fuel + 1 => do
    if ← takeIf .key then
      let key ← readPart fuel true true endsBlockPart
      let value ←
        if ← takeIf .value then readPart fuel true true endsBlockPart else pure emptyScalar
      readBlockEntries fuel ((key, value) :: entries)
    else
      expect .blockEnd
      return entries.reverse

def readFlowItems (fuel : Nat) (first : Bool) (items : List Tree) : Read (List Tree) :=
  match fuel with
  | 0 => failure
  | fuel + 1 => do
    if ← takeIf .flowSequenceEnd then return items.reverse
    else
      if !first then expect .flowEntry
      if ← takeIf .key then
        let key ← readPart fuel false false fun token =>
          token == .value || token == .flowEntry || token == .flowSequenceEnd
        let value ←
          if ← takeIf .value then
            readPart fuel false false fun token => token == .flowEntry || token == .flowSequenceEnd
          else pure emptyScalar
        readFlowItems fuel false (.mapping none [(key, value)] :: items)
      else if ← takeIf .flowSequenceEnd then return items.reverse
      else
        let item ← readNode fuel false false
        readFlowItems fuel false (item :: items)

def readFlowEntries (fuel : Nat) (first : Bool) (entries : List (Tree × Tree)) :
    Read (List (Tree × Tree)) :=
  match fuel with
  | 0 => failure
  | fuel + 1 => do
    if ← takeIf .flowMappingEnd then return entries.reverse
    else
      if !first then expect .flowEntry
      if ← takeIf .key then
        let key ← readPart fuel false false fun token =>
          token == .value || token == .flowEntry || token == .flowMappingEnd
        let value ←
          if ← takeIf .value then
            readPart fuel false false fun token => token == .flowEntry || token == .flowMappingEnd
          else pure emptyScalar
        readFlowEntries fuel false ((key, value) :: entries)
      else if ← takeIf .flowMappingEnd then return entries.reverse
      else
        let key ← readNode fuel false false
        readFlowEntries fuel false ((key, emptyScalar) :: entries)

end

def opensDocument (token : Token) : Bool :=
  match token with
  | .directive _ _ | .documentStart | .streamEnd => true
  | _ => false

def isDocumentBoundary (token : Token) : Bool := opensDocument token || token == .documentEnd

/-- Directives before a document: a version at most once, and each tag handle at most once. -/
def readDirectives : Nat → Bool → List (String × String) → Read (List (String × String))
  | 0, _, handles => return handles
  | fuel + 1, versionSeen, handles => do
    match (← get).tokens.head? with
    | some (.directive "YAML" _) =>
      let _ ← take
      if versionSeen then failure
      readDirectives fuel true handles
    | some (.directive "TAG" (some (handle, start))) =>
      let _ ← take
      if (handles.lookup handle).isSome then failure
      readDirectives fuel versionSeen (handles ++ [(handle, start)])
    | some (.directive _ _) =>
      let _ ← take
      readDirectives fuel versionSeen handles
    | _ => return handles

def skipDocumentEnds : Nat → Read Unit
  | 0 => return
  | fuel + 1 => do
    if ← takeIf .documentEnd then skipDocumentEnds fuel

def readStream : Read (Option Tree) := do
  let fuel := 4 * (← get).tokens.length + 8
  let tree ←
    if !(← nextIs opensDocument) then do
      modify fun reader => { reader with handles := defaultHandles }
      pure (some (← readNode fuel true false))
    else if ← nextIs (· == .streamEnd) then pure none
    else do
      let handles ← readDirectives fuel false []
      modify fun reader => { reader with handles := handles ++ defaultHandles }
      expect .documentStart
      if ← nextIs isDocumentBoundary then pure (some emptyScalar)
      else pure (some (← readNode fuel true false))
  skipDocumentEnds fuel
  expect .streamEnd
  return tree

def tree? (text : String) : Option (Option Tree) := do
  let tokens ← tokens? text
  let (tree, _) ← readStream.run { tokens }
  return tree

end Arborist.Yaml
