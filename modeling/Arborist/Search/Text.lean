import Arborist.File.Read
import Arborist.Project.Access
import Arborist.Project.Basic
import Arborist.Regex.Match
import Arborist.Regex.Parse
import Arborist.Search.Limit

/-!
Searching files line by line, for a text as it stands, a whole word or a regular expression.
-/

namespace Arborist.Search

structure TextQuery where
  pattern : String
  filePattern : Option String := none
  limit : Value := .int 100
  caseSensitive : Bool := false
  wholeWord : Bool := false
  useRegex : Bool := false
  contextLines : Int := 0

abbrev LineTest := List Char → Bool

/-- Whether a text occurs in a line as it stands or with the blanks around both left out. -/
def holdsPlainly (pattern line : List Char) : Bool :=
  Text.occursIn pattern line || Text.occursIn (Text.strip pattern) (Text.strip line)

def betweenBoundaries (pattern : List Char) (flags : Regex.Flags) : Regex :=
  let boundary : Regex := .place (.boundary flags.ascii false)
  .seq boundary (.seq (Regex.literal pattern flags.caseMode) boundary)

def expressionFault (pattern : String) (problem : Regex.Problem) : Fault :=
  let message := problem.message pattern
  match problem with
  | .countTooLarge => .countTooLarge message
  | .mixedAlphabets => .raised message
  | _ => .badExpression message

def TextQuery.test (query : TextQuery) : Except Fault LineTest :=
  let flags : Regex.Flags := { ignoreCase := !query.caseSensitive }
  if query.useRegex then
    match Regex.parse query.pattern flags with
    | .ok expression => .ok expression.occursIn
    | .error problem => .error (expressionFault query.pattern problem)
  else if query.wholeWord then .ok (betweenBoundaries query.pattern.toList flags).occursIn
  else if query.caseSensitive then .ok (holdsPlainly query.pattern.toList)
  else
    let pattern := Text.lower query.pattern.toList
    .ok fun line => holdsPlainly pattern (Text.lower line)

structure ContextLine where
  number : Nat
  text : String
  isMatch : Bool

structure TextMatch where
  file : String
  line : Nat
  text : String
  context : List ContextLine

def shownLine (line : List Char) : String := String.ofList (Text.dropFeeds line)

def contextOf (lines : Array (List Char)) (index : Nat) (reach : Int) : List ContextLine :=
  let first := (max 0 ((index : Int) - reach)).toNat
  let last := (min (lines.size : Int) ((index : Int) + 1 + reach)).toNat
  let shown := (lines.extract first last).toList
  ((List.range shown.length).zip shown).map fun (step, line) =>
    ⟨first + step + 1, shownLine line, first + step == index⟩

def matchesIn (file : String) (test : LineTest) (reach : Int) (lines : List (List Char)) : List TextMatch :=
  let all := lines.toArray
  ((List.range lines.length).zip lines).filterMap fun (index, line) =>
    if test line then some ⟨file, index + 1, shownLine line, contextOf all index reach⟩ else none

def fileMatches (store : Store) (settings : Settings) (root : Path) (test : LineTest) (query : TextQuery)
    (path : Path) : List TextMatch :=
  let found : Except Fault (List TextMatch) := do
    Project.checkAccess store settings path.text root.text
    let bytes ← File.readBytes store path.text
    let name := ((path.relativeTo? root).getD path).text
    return matchesIn name test query.contextLines (Text.feedLines (File.plainText bytes))
  match found with
  | .ok found => takeUntilReached query.limit found
  | .error _ => []

def matchesOver (find : Path → List TextMatch) (limit : Value) (found : List TextMatch) :
    List Path → Except Fault (List TextMatch)
  | [] => .ok found
  | path :: rest => do
    let found := found ++ find path
    if ← reaches found.length limit then return found else matchesOver find limit found rest

def searchText (store : Store) (settings : Settings) (project : Project) (query : TextQuery) :
    Except Fault (List TextMatch) := do
  let test ← query.test
  let pattern := match query.filePattern with
    | some "" | none => "**/*"
    | some pattern => pattern
  let paths ← (File.glob store project.root pattern).mapError .pattern
  let files := paths.filter store.isFile
  let found ← matchesOver (fileMatches store settings project.root test query) query.limit [] files
  cutTo query.limit found

def ContextLine.toValue (line : ContextLine) : Value :=
  .object [("line", .nat line.number), ("text", .string line.text), ("is_match", .bool line.isMatch)]

def TextMatch.toValue (found : TextMatch) : Value :=
  .object [("file", .string found.file), ("line", .nat found.line), ("text", .string found.text),
    ("context", .list (found.context.map ContextLine.toValue))]

end Arborist.Search
