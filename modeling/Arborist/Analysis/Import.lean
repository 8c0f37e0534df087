import Arborist.Analysis.Symbol

/-!
What a file depends on: the texts that its import statements mention, by category, and the modules
they name.
-/

namespace Arborist

/-- Texts by category; the modules are a sorted list without repetitions. -/
abbrev ImportTable := List (String × List String)

namespace ImportTable

def add (category text : String) : ImportTable → ImportTable
  | [] => [(category, [text])]
  | (other, found) :: rest =>
    if other == category then (other, found ++ [text]) :: rest else (other, found) :: add category text rest

def put (category : String) (texts : List String) : ImportTable → ImportTable
  | [] => [(category, texts)]
  | (other, found) :: rest =>
    if other == category then (other, texts) :: rest else (other, found) :: put category texts rest

def toValue (table : ImportTable) : Value :=
  .object (table.map fun (category, texts) => (category, .strings texts))

end ImportTable

namespace Analysis

def importCategory (capture : String) : String :=
  match Text.cutAt? "import.".toList capture.toList with
  | some ([], rest) => String.ofList rest
  | _ => "import"

def beforeWord (word text : List Char) : List Char := Text.beforeFirst word text

def statementModules (text : List Char) : List String :=
  let parts := Text.words text
  match parts with
  | first :: second :: _ =>
    if first == "from".toList then [String.ofList second] else statementRest text parts
  | _ => statementRest text parts
where
  statementRest (text : List Char) (parts : List (List Char)) : List String :=
    match Text.cutAt? "from".toList text with
    | some (_, rest) => [String.ofList (Text.strip (beforeWord "import".toList rest))]
    | none =>
      match parts with
      | first :: others =>
        if first == "import".toList then
          (Text.pieces "," (" ".intercalate (others.map String.ofList))).map fun item =>
            String.ofList (Text.strip (beforeWord " as ".toList (Text.strip item.toList)))
        else []
      | [] => []

def siblingName? (root node : Node) : Option Node := do
  let parent ← root.parentIn? node
  parent.children.find? fun child => child.kind == "dotted_name" && child.id != node.id

def capturedModules (root : Node) (source : ByteArray) (category : String) (node : Node) : List String :=
  let text := node.text source
  if category == "from" then
    match Text.words text.toList with
    | first :: _ => [String.ofList first]
    | [] => []
  else if category == "module" then [Text.stripString text]
  else if category == "alias" then []
  else if category == "item" && !text.isEmpty then
    match siblingName? root node with
    | some name => [name.text source]
    | none => []
  else if Text.stringOccursIn "import" text then statementModules text.toList
  else []

def importsAmong (root : Node) (source : ByteArray) (captures : Captures) : ImportTable × List String :=
  captures.told.foldl
    (fun (table, modules) (node, capture) =>
      match node with
      | none => (table, modules)
      | some node =>
        let category := importCategory capture
        (ImportTable.add category (node.text source) table,
          modules ++ capturedModules root source category node))
    ([], [])

def aliasedModules (root : Node) (source : ByteArray) (captures : Captures) : List String :=
  captures.listed.filterMap fun (node, _) => do
    let node ← node
    let name ← grandparentName? root node
    let text := name.text source
    if text.isEmpty then none else some text

def addModules (modules : List String) (table : ImportTable) : ImportTable :=
  if modules.isEmpty then table
  else table.put "module" (sortedTexts ((table.lookup "module").getD [] ++ modules))

def findDependencies (project : Project) (file : String) : Action ImportTable := do
  let path ← Service.allowedPath project file
  match (← get).registry.languageOf? file with
  | none => throw (.languageUnknownFor file)
  | some language =>
    match template? language "imports" with
    | none => throw (.noImportQuery language)
    | some query =>
      Action.mapFault
        (do
          Service.loadLanguage language
          let parsed ← Service.parseCached path language
          let root := parsed.tree.root
          let captures ← Service.runQuery query parsed.tree
          let (table, modules) := importsAmong root parsed.source captures
          let table := addModules modules table
          if language == "python" then
            let aliases ← Service.runQuery aliasQuery parsed.tree
            return addModules (modules ++ aliasedModules root parsed.source aliases) table
          else return table)
        (.findingDependencies file)

end Analysis

end Arborist
