import Arborist.Bench.Fixture
import Arborist.Server.Prompt
import Arborist.Server.Tool

/-!
Benches on projects: reading, parsing, searching and analysing the files of one that is built for the
purpose.
-/

namespace Arborist.Bench

def workDirectory (store : Store) : List String := store.workingDirectory ++ ["tmp"]

def build (fixture : Fixture) : Action Path := do
  let service ← get
  let (store, root) := fixture.build service.store (workDirectory service.store) (.finite 1000)
  set { service with store }
  return root

def setUp (fixture : Fixture) : Action Project := do
  let root ← build fixture
  let _ ← Service.registerProject root.text (some root.name) .null
  Service.findProject root.name

def sourceLanguages (files : Nat) : Action Value := do
  let fixture : Fixture := { files }
  let project ← setUp fixture
  let trees ← fixture.sources.mapM fun (name, _) => Service.fileTree project name none true
  return .list (trees.map fun tree => (tree.get? "language").getD .null)

def functionCount (table : SymbolTable) : Nat := (table.of "functions").length

def symbolCounts (functions : Nat) : Action Value := do
  let project ← setUp { functions }
  let all ← Analysis.extractSymbols project "main.py" none false
  let outside ← Analysis.extractSymbols project "main.py" none true
  let alone ← Analysis.extractSymbols project "main.py" (some ["functions"]) false
  return .nat (functionCount all + functionCount outside + functionCount alone)

def dependencyWork (functions : Nat) : Action Value := do
  let project ← setUp { functions }
  let imports ← Analysis.findDependencies project "main.py"
  let complexity ← Analysis.analyzeComplexity project "main.py"
  return .list [.strings (sortedTexts (imports.map Prod.fst)), .nat complexity.cyclomatic,
    .nat complexity.functionCount]

def fieldCount : Value → Nat
  | .map entries => entries.length
  | _ => 0

def overviewWork (files : Nat) : Action Value := do
  let project ← setUp { files }
  let (overview, _) ← Analysis.overview project 3 {}
  return .list [.nat (fieldCount overview.toValue), .nat overview.totalFiles,
    .nat overview.buildFiles.length]

def searchWork (functions : Nat) : Action Value := do
  let project ← setUp { functions }
  let ask (query : String) (limit : Int) : Action Nat := do
    return (← Search.queryCode project { query, limit := .int limit } (some "main.py") none).length
  let look (query : Search.TextQuery) : Action Nat := do
    let service ← get
    return (← Action.lift (Search.searchText service.store service.settings project query)).length
  let identifiers ← ask "(identifier) @id" 100000
  let nodes ← ask "(_) @node" 50
  let uses ← look { pattern := "helper", limit := .int 100000 }
  let definitions ← look { pattern := "def\\s+\\w+", useRegex := true, limit := .int 100000 }
  let classes ← look { pattern := "class", wholeWord := true, filePattern := some "**/*.py" }
  return .list (([identifiers, nodes, uses, definitions, classes] : List Nat).map .nat)

def fileWork (files : Nat) : Action Value := do
  let project ← setUp { files }
  let names ← Service.listFiles project none none []
  let contents ← names.mapM fun name => Service.fileContent project name true none 0
  let total := contents.foldl
    (fun total content =>
      match content with
      | .bytes bytes => total + bytes.size
      | .text text => total + text.length)
    0
  return .list [.nat names.length, .nat total]

def cacheWork (files : Nat) : Action Value := do
  let root ← build { files }
  let source : ByteArray := ⟨(List.replicate 4096 (120 : UInt8)).toArray⟩
  let paths := (List.range files).map fun number => root.child (Fixture.sideFile number)
  for path in paths do
    Service.cachePut path "python" (← Service.parseSource source none) source
  match paths.head? with
  | some path => Service.cacheInvalidate (some path)
  | none => pure ()
  let cache := (← get).cache
  return .list [.nat cache.entries.length, .int cache.size]

def parseWork (files : Nat) : Action Value := do
  let root ← build { files }
  let parsed ← (List.range files).mapM fun number =>
    Service.parseCached (root.child (Fixture.sideFile number)) "python"
  return .nat (parsed.foldl (fun total parsed => total + parsed.source.size) 0)

def settingsWork (rounds : Nat) : Action Value := do
  let sizes ← (List.range rounds).mapM fun _ => do
    let service ← get
    let settings ← Action.lift (Settings.load service.store service.environment none)
    Action.lift settings.maxSizeMb
  return .int (sizes.foldl (fun total size => total + ((size.toRat?).getD 0).floor) 0)

def toolWork (files : Nat) : Action Value := do
  let project ← setUp { files }
  let listed ← Server.Tool.run (.listFiles project.name (some "**/*.py") none [])
  let count := match listed with
    | .list names => names.length
    | _ => 0
  return .list [.nat count, .nat Server.Tool.names.length, .nat Server.Prompt.names.length]

def registrationRounds (rounds : Nat) : Action Value := do
  let root ← build {}
  let results ← (List.range rounds).mapM fun round => do
    let name := s!"round_{round}"
    let added ← Service.registerProject root.text (some name) .null
    let removed ← Service.removeProject name
    return (added, removed)
  return .list [.nat (results.filter fun (added, _) => (added.get? "name").isSome).length,
    .nat (results.filter fun (_, removed) => (removed.get? "status").isSome).length]

def projectWork (projects : Nat) : Action Value := do
  let names := (List.range projects).map fun number => s!"proj_{number}"
  for name in names do
    let root ← build {}
    let _ ← Service.registerProject root.text (some name) .null
  let listed := match ← Service.listProjects with
    | .list items => items.filterMap fun item => (item.get? "name").map Value.text
    | _ => []
  return .list [.nat (listed.foldl (fun total name => total + name.length) 0), .bool (listed == names)]

def accessWork (checks : Nat) : Action Value := do
  let root ← build {}
  let service ← get
  let main := root.child "main.py"
  let allowed := (List.range checks).filter fun _ =>
    (Project.checkAccess service.store service.settings main.text root.text).toOption.isSome
  let found ← Action.lift (Project.rootOf service.store main)
  return .list [.nat allowed.length, .string found.text]

def readWork (reads : Nat) : Action Value := do
  let root ← build { functions := 6 }
  let path := (root.child "main.py").text
  let sizes ← (List.range reads).mapM fun _ => Action.onStore fun store => do
    return (← File.readBytes store path).size + (← File.readLines store path).length
  return .nat (sizes.foldl (fun total size => total + size) 0)

end Arborist.Bench
