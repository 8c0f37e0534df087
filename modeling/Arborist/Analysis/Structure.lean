import Arborist.Analysis.Symbol
import Arborist.Progress.Basic
import Arborist.Search.Query
import Arborist.Service.Projects

/-!
An overview of a project: its languages, where it may start and how it is built, its directories, and
the symbols of some of its files.
-/

namespace Arborist

structure Landmark where
  path : String
  kind : String

structure ProjectOverview where
  name : String
  root : String
  languages : List (String × Nat)
  entryPoints : List Landmark
  buildFiles : List Landmark
  directoryCounts : List (String × Nat)
  fileCounts : List (String × Nat)
  samples : List (String × List (String × List (String × Nat)))

namespace ProjectOverview

def totalFiles (overview : ProjectOverview) : Nat :=
  overview.languages.foldl (fun total (_, count) => total + count) 0

def countsValue (counts : List (String × Nat)) : Value :=
  .object (counts.map fun (key, count) => (key, .nat count))

def landmarksValue (label : String) (landmarks : List Landmark) : Value :=
  .list (landmarks.map fun landmark =>
    .object [("path", .string landmark.path), (label, .string landmark.kind)])

def samplesValue (samples : List (String × List (String × Nat))) : Value :=
  .list (samples.map fun (file, symbols) =>
    .object [("file", .string file), ("symbols", countsValue symbols)])

def toValue (overview : ProjectOverview) : Value :=
  .object [("name", .string overview.name), ("path", .string overview.root),
    ("languages", countsValue overview.languages),
    ("entry_points", landmarksValue "language" overview.entryPoints),
    ("build_files", landmarksValue "type" overview.buildFiles),
    ("dir_counts", countsValue overview.directoryCounts),
    ("file_counts", countsValue overview.fileCounts),
    ("total_files", .nat overview.totalFiles),
    ("key_files_analysis",
      .object (overview.samples.map fun (language, samples) => (language, samplesValue samples)))]

end ProjectOverview

namespace Analysis

def entryNames : List (String × List String) := [
  ("python", ["__main__.py", "main.py", "app.py", "run.py", "manage.py"]),
  ("javascript", ["index.js", "app.js", "main.js", "server.js"]),
  ("typescript", ["index.ts", "app.ts", "main.ts", "server.ts"]),
  ("go", ["main.go"]),
  ("rust", ["main.rs"]),
  ("java", ["Main.java", "App.java"])]

def entryDirectories : List String := ["", "src/", "lib/"]

def buildNames : List (String × List String) := [
  ("python", ["setup.py", "pyproject.toml", "requirements.txt", "Pipfile", "environment.yml"]),
  ("javascript", ["package.json", "yarn.lock", "npm-shrinkwrap.json"]),
  ("typescript", ["tsconfig.json"]),
  ("go", ["go.mod", "go.sum"]),
  ("rust", ["Cargo.toml", "Cargo.lock"]),
  ("java", ["pom.xml", "build.gradle", "build.gradle.kts"]),
  ("generic", ["Makefile", "CMakeLists.txt", "Dockerfile", "docker-compose.yml"])]

def landmark? (store : Store) (root : Path) (relative kind : String) : Option Landmark :=
  let path := root.join (Path.ofString relative)
  if store.isFile path then some ⟨(Path.ofString relative).text, kind⟩ else none

def entryPoints (store : Store) (root : Path) (languages : List String) : List Landmark :=
  (entryNames.filter fun (language, _) => languages.contains language).flatMap fun (language, names) =>
    names.flatMap fun name =>
      entryDirectories.filterMap fun directory => landmark? store root (directory ++ name) language

def buildFiles (store : Store) (root : Path) : List Landmark :=
  buildNames.flatMap fun (kind, names) => names.filterMap fun name => landmark? store root name kind

def countKey (key : String) : List (String × Nat) → List (String × Nat)
  | [] => [(key, 1)]
  | (other, count) :: rest =>
    if other == key then (other, count + 1) :: rest else (other, count) :: countKey key rest

/-- The key under which a file of a directory is counted; files without an ending are not. -/
def endingKey? (directory name : String) : Option String :=
  let ending := String.ofList ((Text.lower (Path.suffixOf name).toList).drop 1)
  if Project.isHidden name || ending.isEmpty then none
  else some (if directory.isEmpty then "." ++ ending else directory ++ "/." ++ ending)

/-- The listings of a project, hidden and excluded directories left out. -/
def visibleListings (store : Store) (settings : Settings) (root : Path) : Except Fault (List File.Listing) := do
  match store.entry? root with
  | none => return []
  | some _ =>
    let excluded ← settings.excludedDirs
    let shown (name : String) : Bool := !Project.isHidden name
    let top := (File.walkWhere store root shown).head?
    if top.any fun listing => !listing.directories.isEmpty then
      let _ ← excluded.hasMember (.string "")
    return File.walkWhere store root fun name =>
      shown name &&
        match excluded.hasMember (.string name) with
        | .ok isExcluded => !isExcluded
        | .error _ => false

def relativeName (root directory : Path) : String :=
  match directory.relativeTo? root with
  | some relative => if relative.components.isEmpty then "" else relative.text
  | none => directory.text

def sampleFiles (store : Store) (project : Project) (number : Nat) (found : List String) :
    List String → Except Fault (List String)
  | [] => .ok found
  | extension :: rest => do
    let files ← Search.filesWithExtension store project extension
    let found := (found ++ files).take number
    if number ≤ found.length then return found else sampleFiles store project number found rest

/-- How many symbols of each kind some files have; files that cannot be analysed are passed over. -/
def sampleSymbols (project : Project) : List String → Action (List (String × List (String × Nat)))
  | [] => return []
  | file :: rest => do
    match ← Action.attempt (extractSymbols project file none false) with
    | .ok table =>
      let counts := table.map fun (kind, symbols) => (kind, symbols.length)
      return (file, counts) :: (← sampleSymbols project rest)
    | .error _ => sampleSymbols project rest

def languageSamples (project : Project) (depth : Nat) :
    List String → Action (List (String × List (String × List (String × Nat))))
  | [] => return []
  | language :: rest => do
    let service ← get
    let extensions := service.registry.extensionsOf language
    let files ← Action.lift (sampleFiles service.store project depth [] extensions)
    let samples ← sampleSymbols project files
    let others ← languageSamples project depth rest
    return if samples.isEmpty then others else (language, samples) :: others

/-- An overview of a project.  A depth bounds the number of files of each language that are looked
into. -/
def overview (project : Project) (depth : Int) (context : ProgressContext) :
    Action (ProjectOverview × ProgressContext) := do
  let description := "Analyzing project structure"
  let scope := ProgressScope.openScope context 100 description
  let project ← Service.scanProject project false
  let context := ((scope.update 5).close description).context
  let service ← get
  let names := project.languages.map Prod.fst
  let listings ← Action.lift (visibleListings service.store service.settings project.root)
  let keys := listings.flatMap fun listing =>
    listing.files.filterMap (endingKey? (relativeName project.root listing.directory))
  let samples ← if 0 < depth then languageSamples project depth.toNat names else pure []
  return ({
    name := project.name
    root := project.root.text
    languages := project.languages
    entryPoints := entryPoints service.store project.root names
    buildFiles := buildFiles service.store project.root
    directoryCounts := listings.map fun listing =>
      (relativeName project.root listing.directory, listing.directories.length)
    fileCounts := keys.foldl (fun counts key => countKey key counts) []
    samples }, context)

end Analysis

end Arborist
