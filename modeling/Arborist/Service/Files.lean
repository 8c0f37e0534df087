import Arborist.Search.Limit
import Arborist.Service.Parsing

/-!
The files of a project: listing them, reading some of their lines, and describing them.
-/

namespace Arborist.Service

def lineRange (lines : List α) (start : Int) (count : Option Int) : List α :=
  let first := min start lines.length
  let last := match count with
    | some count => min (first + count) lines.length
    | none => lines.length
  Search.itemRange lines first last

def namesTest (path : String) : Bool := "test.py".toList.isSuffixOf path.toList

/-- Some lines of a test; the first two are taken without a look at how many there are. -/
def testRange (lines : List α) (start count : Int) : List α :=
  if count == 2 && start == 0 then Search.itemRange lines 0 2
  else
    let first := min start lines.length
    Search.itemRange lines first (min (first + count) lines.length)

def textRange (path : String) (lines : List α) (start : Int) (count : Option Int) : List α :=
  match count with
  | some count => if namesTest path then testRange lines start count else lineRange lines start (some count)
  | none => lineRange lines start none

def endingOf (path : Path) : String := String.ofList ((Text.lower path.suffix.toList).drop 1)

/-- A pattern that goes down to a depth: its double star becomes that many single ones. -/
def boundPattern (pattern : String) (depth : Nat) : String :=
  match Text.pieces "**" pattern with
  | [before, after] => before ++ String.join (List.replicate depth "*/") ++ after
  | _ => pattern

def relativeFiles (store : Store) (root : Path) (endings : List String) (paths : List Path) :
    List String :=
  let files := paths.filter fun path =>
    store.isFile path && (endings.isEmpty || endings.contains (endingOf path))
  let texts := files.filterMap fun path => (path.relativeTo? root).map Path.text
  texts.mergeSort fun left right => left ≤ right

/-- The files of a project that fit a pattern.  A depth of zero lists the root alone. -/
def listFiles (project : Project) (pattern : Option String) (depth : Option Int) (endings : List String) :
    Action (List String) := do
  let store := (← get).store
  let pattern := match pattern with
    | some "" | none => "**/*"
    | some pattern => pattern
  if depth == some 0 then
    match store.locate project.root with
    | .ok (_, .directory children) =>
      let paths := children.map fun (name, _) => project.root.child name
      return relativeFiles store project.root endings paths
    | .ok _ => throw (.file (.notDirectory project.root.text))
    | .error fault => throw (.file (fault.at project.root.text))
  let pattern := match depth with
    | some depth => if 0 < depth then boundPattern pattern depth.toNat else pattern
    | none => pattern
  let pattern := match pattern.toList with
    | '/' :: rest => String.ofList rest
    | _ => pattern
  let endings := endings.map Text.lowerString
  match File.glob store project.root pattern with
  | .ok paths => return relativeFiles store project.root endings paths
  | .error fault => throw (.pattern fault)

def readablePath (project : Project) (path : String) : Action Path := do
  let service ← get
  let file ← match project.filePath service.store path with
    | .ok file => pure file
    | .error (.outsideProject path) => throw (.outsideForFile (.outsideProject path))
    | .error fault => throw fault
  Action.mapFault
    (Action.lift (Project.checkAccess service.store service.settings file.text project.root.text))
    .accessDenied
  return file

inductive FileContent where
  | text (content : String)
  | bytes (content : ByteArray)

def joinBytes (lines : List (List UInt8)) : ByteArray := ⟨lines.flatten.toArray⟩

def fileContent (project : Project) (path : String) (asBytes : Bool) (count : Option Int)
    (start : Int) : Action FileContent := do
  let file ← readablePath project path
  let bytes ← match (← get).store.readBytes file.text with
    | .ok bytes => pure bytes
    | .error (.missing _) => throw (.fileUnknown path)
    | .error fault => throw (.reading (.file fault))
  let whole := count.isNone && start == 0
  if asBytes then
    return .bytes (if whole then bytes else joinBytes (lineRange (Text.byteLines bytes.toList) start count))
  else
    let text := File.plainText bytes
    let lines := Text.feedLines text
    return .text (String.ofList (if whole then text else (textRange path lines start count).flatten))

def countLines (path : String) : Action Nat := do
  match (← get).store.readBytes path with
  | .ok bytes => return (Text.byteLines bytes.toList).length
  | .error _ => return 0

structure FileInfo where
  path : String
  size : Option Nat
  modified : Option Binary64
  isDirectory : Bool
  extension : Option String
  lineCount : Option Nat

def describeFile (project : Project) (path : String) : Action FileInfo := do
  let file ← readablePath project path
  let entry ← match (← get).store.locate file with
    | .ok (_, entry) => pure entry
    | .error .missing => throw (.fileUnknown path)
    | .error fault => throw (.describing (.file (fault.at file.text)))
  let extension := if file.suffix.isEmpty then none else some file.extension
  match entry with
  | .file content modified =>
    return ⟨path, some content.size, some modified, false, extension, some (← countLines file.text)⟩
  | _ => return ⟨path, none, none, true, extension, none⟩

end Arborist.Service
