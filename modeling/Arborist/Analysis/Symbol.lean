import Arborist.Language.Template
import Arborist.Service.Parsing

/-!
The symbols that a file defines or imports, found by the query templates of its language.
-/

namespace Arborist

structure Symbol where
  name : String
  kind : String
  start : Point
  stop : Point
deriving DecidableEq, Repr, Inhabited

def Symbol.toValue (symbol : Symbol) : Value :=
  .object [("name", .string symbol.name), ("type", .string symbol.kind),
    ("location", .object [("start", symbol.start.toValue), ("end", symbol.stop.toValue)])]

/-- Symbols by kind, the kinds in the order in which they came. -/
abbrev SymbolTable := List (String × List Symbol)

namespace SymbolTable

def add (kind : String) (symbols : List Symbol) : SymbolTable → SymbolTable
  | [] => [(kind, symbols)]
  | (other, found) :: rest =>
    if other == kind then (other, found ++ symbols) :: rest else (other, found) :: add kind symbols rest

def of (table : SymbolTable) (kind : String) : List Symbol := (table.lookup kind).getD []

def toValue (table : SymbolTable) : Value :=
  .object (table.map fun (kind, symbols) => (kind, .list (symbols.map Symbol.toValue)))

end SymbolTable

namespace Analysis

def namesSymbol (kind capture : String) : Bool :=
  if kind == "imports" then capture == "import" || "import.".toList.isPrefixOf capture.toList
  else capture == kind || ".name".toList.isSuffixOf capture.toList

abbrev RowRange := Int × Int

def RowRange.holds (range : RowRange) (row : Nat) : Bool := range.1 ≤ row && (row : Int) ≤ range.2

def symbolOf (kind : String) (source : ByteArray) (node : Node) : Symbol :=
  ⟨node.text source, kind, node.start, node.stop⟩

/-- The symbols of a kind among captures; those that start in one of some ranges are left out. -/
def symbolsAmong (captures : Captures) (kind : String) (source : ByteArray) (hidden : List RowRange) :
    List Symbol :=
  captures.told.filterMap fun (node, capture) =>
    match node with
    | none => none
    | some node =>
      if hidden.any (fun range => range.holds node.start.row) then none
      else if namesSymbol kind capture then some (symbolOf kind source node)
      else none

def grandparentName? (root node : Node) : Option Node := do
  let parent ← root.parentIn? node
  let grandparent ← root.parentIn? parent
  grandparent.children.find? fun child => child.kind == "dotted_name"

/-- A captured node, which an engine may fail to give. -/
def capturedNode (node : Option Node) : Except Fault Node :=
  match node with
  | some node => .ok node
  | none => .error (.noAttribute "NoneType" "start_byte")

def renamingModules (captures : Captures) (source : ByteArray) : Except Fault (List Symbol) := do
  let symbols ← captures.listed.mapM fun (node, capture) => do
    if capture == "import.from" then
      return some (symbolOf "imports" source (← capturedNode node))
    else return none
  return symbols.filterMap fun symbol => symbol

/-- Imports under another name, each with the module it comes from, if that is told. -/
def renamedImports (root : Node) (captures : Captures) (source : ByteArray) : Except Fault (List Symbol) := do
  let symbols ← captures.listed.mapM fun (node, capture) => do
    if capture == "alias" then
      let node ← capturedNode node
      let renamed := symbolOf "imports" source node
      match grandparentName? root node with
      | none => return [renamed]
      | some name =>
        let text := name.text source
        if text.isEmpty then return [renamed]
        else return [renamed, { renamed with name := text, start := ⟨node.start.row, 0⟩ }]
    else return []
  return symbols.flatten

def renamingQuery : String :=
  "(import_from_statement module_name: (dotted_name) @import.from name: (aliased_import)) @import"

def aliasQuery : String := "(aliased_import) @alias"

def standardKinds (language : String) : List String :=
  if ["rust", "go", "c"].contains language then ["functions", "structs", "imports"]
  else if ["cpp", "swift"].contains language then ["functions", "classes", "structs", "imports"]
  else if ["typescript", "java", "kotlin"].contains language then
    ["functions", "classes", "interfaces", "imports"]
  else if language == "julia" then ["functions", "modules", "structs", "imports"]
  else if language == "apl" then ["functions", "namespaces", "variables", "imports"]
  else ["functions", "classes", "imports"]

def kindQueries (language : String) (kinds : List String) : List (String × String) :=
  kinds.eraseDups.filterMap fun kind => (template? language kind).map fun query => (kind, query)

/-- The rows in which methods of classes are looked for: thirty rows from the start of each. -/
def classRows (source : ByteArray) (classes : List Symbol) : List RowRange :=
  let lineCount := (Text.boundaryLines (Text.Utf8.decode source.toList)).length
  classes.map fun symbol => ((symbol.start.row : Int), min ((symbol.start.row : Int) + 30) ((lineCount : Int) - 1))

def symbolsOfKind (language kind query : String) (parsed : Service.Parsed) (hidden : List RowRange) :
    Action (List Symbol) := do
  let captures ← Service.runQuery query parsed.tree
  let found := symbolsAmong captures kind parsed.source hidden
  if kind == "imports" && language == "python" then
    let modules ← Action.lift
      (renamingModules (← Service.runQuery renamingQuery parsed.tree) parsed.source)
    let renamed ← Action.lift
      (renamedImports parsed.tree.root (← Service.runQuery aliasQuery parsed.tree) parsed.source)
    return found ++ modules ++ renamed
  else return found

/-- The symbols of a parsed file.  Functions in classes can be left out; classes are then looked for
first. -/
def symbolsIn (language : String) (queries : List (String × String)) (parsed : Service.Parsed)
    (withoutMethods : Bool) : Action SymbolTable := do
  let (table, rows) ← match withoutMethods, queries.lookup "classes" with
    | true, some query => do
      let captures ← Service.runQuery query parsed.tree
      let classes := symbolsAmong captures "classes" parsed.source []
      pure (SymbolTable.add "classes" classes [], classRows parsed.source classes)
    | _, _ => pure ([], [])
  queries.foldlM
    (fun (table : SymbolTable) (kind, query) => do
      if kind == "classes" && !rows.isEmpty then return table
      else
        let hidden := if kind == "functions" then rows else []
        return table.add kind (← symbolsOfKind language kind query parsed hidden))
    table

def extractSymbols (project : Project) (file : String) (kinds : Option (List String)) (withoutMethods : Bool) :
    Action SymbolTable := do
  let path ← Service.allowedPath project file
  match (← get).registry.languageOf? file with
  | none => throw (.languageUnknownFor file)
  | some language =>
    let kinds := kinds.getD (standardKinds language)
    let queries := kindQueries language kinds
    if queries.isEmpty then throw (.noTemplates language (Value.strings kinds).innerText)
    Action.mapFault
      (do
        Service.loadLanguage language
        let parsed ← Service.parseCached path language
        symbolsIn language queries parsed withoutMethods)
      (.extracting file)

end Analysis

end Arborist
