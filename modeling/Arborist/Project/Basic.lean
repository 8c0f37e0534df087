import Arborist.File.Walk
import Arborist.Language.Registry
import Arborist.Project.Root

/-!
Projects: directories under names, with a count of the files of each language.
-/

namespace Arborist

structure Project where
  name : String
  root : Path
  description : Value := .null
  languages : List (String × Nat) := []
  lastScan : Int := 0
deriving Inhabited

namespace Project

def toValue (project : Project) : Value :=
  .object [("name", .string project.name), ("root_path", .string project.root.text),
    ("description", project.description),
    ("languages", .object (project.languages.map fun (language, count) => (language, .nat count))),
    ("last_scan_time", .int project.lastScan)]

def isHidden (name : String) : Bool := name.toList.head? == some '.'

def countLanguage (language : String) : List (String × Nat) → List (String × Nat)
  | [] => [(language, 1)]
  | (other, count) :: rest =>
    if other == language then (other, count + 1) :: rest
    else (other, count) :: countLanguage language rest

/-- The files of each language below a directory; what is hidden does not count. -/
def languageCounts (store : Store) (registry : LanguageRegistry) (root : Path) : List (String × Nat) :=
  let listings := (File.walk store root).filter fun listing =>
    !(listing.directory.segments.any isHidden)
  let files := listings.flatMap fun listing => listing.files.filter fun name => !isHidden name
  (files.filterMap registry.languageOf?).foldl (fun counts language => countLanguage language counts) []

def wholeSeconds (time : Binary64) : Int := towardZero (time.toRat?.getD 0)

/-- Counts the files again, unless that was done within the last minute and is not forced. -/
def scan (project : Project) (store : Store) (registry : LanguageRegistry) (now : Binary64) (force : Bool) :
    Project :=
  let recent := (now.sub (Binary64.ofInt project.lastScan)).lt (.finite 60)
  if !force && recent then project
  else
    { project with
      languages := languageCounts store registry project.root
      lastScan := wholeSeconds now }

/-- The absolute path of a path in the project, which must be under its root. -/
def filePath (project : Project) (store : Store) (relative : String) : Except Fault Path := do
  let path ← normalize store (project.root.join (Path.ofString relative))
  if project.root.text.toList.isPrefixOf path.text.toList then return path
  else throw (.outsideProject relative)

end Project

abbrev ProjectList := List (String × Project)

namespace ProjectList

def find (projects : ProjectList) (name : String) : Except Fault Project :=
  match projects.lookup name with
  | some project => .ok project
  | none => .error (.projectUnknown name)

def replace (projects : ProjectList) (project : Project) : ProjectList :=
  projects.map fun (name, old) => if name == project.name then (name, project) else (name, old)

/-- The project that a path makes; its root is the marked directory nearest to the path. -/
def create (store : Store) (name path : String) (description : Value) : Except Fault Project := do
  let place ← Project.normalize store (Path.ofString path)
  if !store.fileExists place then throw (.pathMissing path)
  if !store.isDirectory place then throw (.pathNotDirectory path)
  return { name, root := ← Project.rootOf store place, description }

def register (projects : ProjectList) (store : Store) (name path : String) (description : Value) :
    Except Fault (Project × ProjectList) :=
  if (projects.lookup name).isSome then .error (.projectExists name)
  else
    match create store name path description with
    | .ok project => .ok (project, projects ++ [(name, project)])
    | .error cause => .error (.registration cause)

def remove (projects : ProjectList) (name : String) : Except Fault ProjectList :=
  if (projects.lookup name).isSome then .ok (projects.filter fun (other, _) => other != name)
  else .error (.projectUnknown name)

end ProjectList

end Arborist
