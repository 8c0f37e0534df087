import Arborist.Fault
import Arborist.Text.Letter
import Arborist.Tree.Node

/-!
Queries over sketches.  A pattern names the kind of a node, or any by an underscore, and patterns
for some of its children; what is marked by an at sign is captured.
-/

namespace Arborist.Sketch

inductive QueryToken where
  | open
  | close
  | capture (name : String)
  | predicate (text : String)
  | quoted (text : String)
  | field (name : String)
  | word (text : String)
deriving DecidableEq, Repr

def QueryToken.text : QueryToken → String
  | .open => "("
  | .close => ")"
  | .capture name => "@" ++ name
  | .predicate text => "#" ++ text
  | .quoted text => "\"" ++ text ++ "\""
  | .field name => name ++ ":"
  | .word text => text

def QueryToken.isPredicate (token : QueryToken) : Bool := token.text.toList.head? == some '#'

/-- A query without its comments, which go from a semicolon to the end of the line. -/
def dropComments : Bool → List Char → List Char
  | _, [] => []
  | true, c :: rest => if c == '\n' then c :: dropComments false rest else dropComments true rest
  | false, c :: rest => if c == ';' then dropComments true rest else c :: dropComments false rest

def isNameChar (c : Char) : Bool := Text.isWord c || c == '.'

def isPredicateChar (c : Char) : Bool := Text.isWord c || c == '?' || c == '!' || c == '-'

def lex : Nat → List Char → List QueryToken
  | 0, _ => []
  | _, [] => []
  | fuel + 1, c :: rest =>
    if c == '(' then .open :: lex fuel rest
    else if c == ')' then .close :: lex fuel rest
    else if c == '@' then
      let name := rest.takeWhile isNameChar
      if name.isEmpty then lex fuel rest
      else .capture (String.ofList name) :: lex fuel (rest.drop name.length)
    else if c == '#' then
      let name := rest.takeWhile isPredicateChar
      if name.isEmpty then lex fuel rest
      else .predicate (String.ofList name) :: lex fuel (rest.drop name.length)
    else if c == '"' then
      let inside := rest.takeWhile (· != '"')
      match rest.drop inside.length with
      | '"' :: after => .quoted (String.ofList inside) :: lex fuel after
      | _ => lex fuel rest
    else if isNameChar c then
      let name := c :: rest.takeWhile isNameChar
      match (c :: rest).drop name.length with
      | ':' :: after => .field (String.ofList name) :: lex fuel after
      | after => .word (String.ofList name) :: lex fuel after
    else lex fuel rest

def queryTokens (text : String) : List QueryToken :=
  let chars := dropComments false text.toList
  lex chars.length chars

inductive Pattern where
  | mk (kind : String) (capture field : Option String) (children : List Pattern)
deriving Inhabited, Repr

namespace Pattern

def kind : Pattern → String
  | .mk kind _ _ _ => kind

def capture : Pattern → Option String
  | .mk _ capture _ _ => capture

def field : Pattern → Option String
  | .mk _ _ field _ => field

def children : Pattern → List Pattern
  | .mk _ _ _ children => children

end Pattern

def skipGroup : Nat → List QueryToken → List QueryToken
  | _, [] => []
  | depth, .open :: rest => skipGroup (depth + 1) rest
  | depth, .close :: rest => if depth ≤ 1 then rest else skipGroup (depth - 1) rest
  | depth, _ :: rest => skipGroup depth rest

structure Draft where
  kind : String
  field : Option String
  capture : Option String := none
  pending : Option String := none
  children : List Pattern := []

def Draft.pattern (draft : Draft) (capture : Option String) : Pattern :=
  .mk draft.kind capture draft.field draft.children.reverse

def tooShort : Fault := .indexOutside "list"

mutual

def readPattern (fuel : Nat) (field : Option String) (tokens : List QueryToken) :
    Except Fault (Pattern × List QueryToken) :=
  match fuel, tokens with
  | 0, _ => .error tooShort
  | _, [] => .error tooShort
  | fuel + 1, head :: rest => readParts fuel { kind := head.text, field } rest

def readParts (fuel : Nat) (draft : Draft) (tokens : List QueryToken) :
    Except Fault (Pattern × List QueryToken) :=
  match fuel with
  | 0 => .error tooShort
  | fuel + 1 =>
    match tokens with
    | [] => .ok (draft.pattern draft.capture, [])
    | .close :: .capture name :: rest => .ok (draft.pattern (some name), rest)
    | .close :: rest => .ok (draft.pattern draft.capture, rest)
    | .open :: rest =>
      match rest with
      | [] => .error tooShort
      | next :: _ =>
        if next.isPredicate then readParts fuel draft (skipGroup 1 rest)
        else do
          let (child, after) ← readPattern fuel draft.pending rest
          readParts fuel { draft with children := child :: draft.children, pending := none } after
    | .field name :: rest => readParts fuel { draft with pending := some name } rest
    | .capture name :: rest => readParts fuel { draft with capture := some name } rest
    | _ :: rest => readParts fuel draft rest

end

def readPatterns : Nat → List QueryToken → Except Fault (List Pattern × List QueryToken)
  | 0, tokens => .ok ([], tokens)
  | fuel + 1, .open :: rest =>
    match rest with
    | [] => .error tooShort
    | next :: _ =>
      if next.isPredicate then readPatterns fuel (skipGroup 1 rest)
      else do
        let (pattern, after) ← readPattern (2 * rest.length + 2) none rest
        let (others, left) ← readPatterns fuel after
        return (pattern :: others, left)
  | _, tokens => .ok ([], tokens)

def readText (text : String) : Except Fault (List Pattern × List QueryToken) :=
  let tokens := queryTokens text
  readPatterns (tokens.length + 1) tokens

def patterns (text : String) : Except Fault (List Pattern) := (readText text).map Prod.fst

abbrev Found := List (Node × String)

abbrev FieldLists := Node → String → List Node

def childrenByField : FieldLists := fun node name =>
  node.children.filter fun child => child.field == some name

/-- The nodes that a pattern is tried on below a node: those of its field first, then all children. -/
def candidates (lists : FieldLists) (node : Node) : Option String → List Node
  | some name => lists node name ++ node.children
  | none => node.children

/-- Makes attempts, each with what the one before has left, until one succeeds. -/
def firstSuccess (attempt : Node → Found → Bool × Found) : List Node → Found → Bool × Found
  | [], found => (false, found)
  | node :: rest, found =>
    match attempt node found with
    | (true, found) => (true, found)
    | (false, found) => firstSuccess attempt rest found

mutual

/-- Tries a pattern at a node.  If it fits, what is captured below the node is put behind what has been
found before, and the node itself comes last. -/
def Pattern.matchAt (lists : FieldLists) (node : Node) (found : Found) : Pattern → Bool × Found
  | .mk kind capture _ children =>
    if kind == "_" || kind == node.kind then
      match matchBelow lists node [] children with
      | (true, below) => (true, found ++ below ++ capture.toList.map fun name => (node, name))
      | (false, _) => (false, found)
    else (false, found)

def matchBelow (lists : FieldLists) (node : Node) (found : Found) : List Pattern → Bool × Found
  | [] => (true, found)
  | pattern :: rest =>
    match firstSuccess (fun child found => pattern.matchAt lists child found)
      (candidates lists node pattern.field) found with
    | (true, found) => matchBelow lists node found rest
    | (false, found) => (false, found)

end

def captureAt (lists : FieldLists) (patterns : List Pattern) (node : Node) (found : Found) : Found :=
  patterns.foldl (fun found pattern => (pattern.matchAt lists node found).2) found

def captureFrom (lists : FieldLists) (patterns : List Pattern) (found : Found) : List Node → Found
  | [] => found
  | .mk label children :: rest =>
    captureFrom lists patterns (captureAt lists patterns (.mk label children) found) (children ++ rest)
termination_by stack => Node.sizes stack
decreasing_by
  rw [Node.sizes_append, Node.sizes, Node.size]
  omega

def capturesBy (lists : FieldLists) (patterns : List Pattern) (root : Node) : Found :=
  captureFrom lists patterns [] [root]

def captures (patterns : List Pattern) (root : Node) : Found := capturesBy childrenByField patterns root

end Arborist.Sketch
