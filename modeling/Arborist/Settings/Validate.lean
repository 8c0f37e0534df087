import Arborist.Settings.Basic
import Arborist.Text.Case
import Arborist.Text.Integer

/-!
Settings from data.  Each field is converted to its kind where that makes sense; what cannot be
converted is reported, all of it at once, in the order of the fields.
-/

namespace Arborist.Settings

inductive Problem where
  | noneNotAllowed
  | notBoolean
  | notInteger
  | notText
  | notList
  | notMap
  | keysNotText
deriving DecidableEq, Repr

def Problem.message : Problem → String
  | .noneNotAllowed => "none is not an allowed value (type=type_error.none.not_allowed)"
  | .notBoolean => "value could not be parsed to a boolean (type=type_error.bool)"
  | .notInteger => "value is not a valid integer (type=type_error.integer)"
  | .notText => "str type expected (type=type_error.str)"
  | .notList => "value is not a valid list (type=type_error.list)"
  | .notMap => "value is not a valid dict (type=type_error.dict)"
  | .keysNotText => "keywords must be strings (type=type_error)"

structure Issue where
  place : List String
  problem : Problem
deriving Repr

def Issue.message (issue : Issue) : String :=
  " -> ".intercalate issue.place ++ "\n  " ++ issue.problem.message

def issuesMessage (issues : List Issue) : String :=
  let noun := if issues.length = 1 then "error" else "errors"
  "\n".intercalate (s!"{issues.length} validation {noun} for ServerConfig" :: issues.map Issue.message)

inductive Outcome (α : Type) where
  | done (result : α)
  | bad (issues : List Issue)
  | fatal (fault : Fault)

namespace Outcome

def map (f : α → β) : Outcome α → Outcome β
  | .done result => .done (f result)
  | .bad issues => .bad issues
  | .fatal fault => .fatal fault

/-- Both results, or all problems; a fault on the left comes first. -/
def both (left : Outcome α) (right : Outcome β) : Outcome (α × β) :=
  match left, right with
  | .fatal fault, _ => .fatal fault
  | .done _, .fatal fault => .fatal fault
  | .bad _, .fatal fault => .fatal fault
  | .done a, .done b => .done (a, b)
  | .bad issues, .done _ => .bad issues
  | .done _, .bad issues => .bad issues
  | .bad issues, .bad more => .bad (issues ++ more)

def within (name : String) : Outcome α → Outcome α
  | .bad issues => .bad (issues.map fun issue => { issue with place := name :: issue.place })
  | other => other

end Outcome

abbrev Converter (α : Type) := Value → Outcome α

def problem (cause : Problem) : Outcome α := .bad [⟨[], cause⟩]

def toBool : Converter Value
  | .null => problem .noneNotAllowed
  | .bool value => .done (.bool value)
  | .string text =>
    let word := Text.lowerString text
    if ["1", "on", "t", "true", "y", "yes"].contains word then .done (.bool true)
    else if ["0", "off", "f", "false", "n", "no"].contains word then .done (.bool false)
    else problem .notBoolean
  | value =>
    if value.toRat? = some 1 then .done (.bool true)
    else if value.toRat? = some 0 then .done (.bool false)
    else problem .notBoolean

def toInt : Converter Value
  | .null => problem .noneNotAllowed
  | .int value => .done (.int value)
  | .bool value => .done (.int (if value then 1 else 0))
  | .float (.infinite _) => .fatal .infiniteInteger
  | .float value =>
    match value.toRat? with
    | some rational => .done (.int (towardZero rational))
    | none => problem .notInteger
  | .string text =>
    match Text.integer? text with
    | some value => .done (.int value)
    | none => problem .notInteger
  | _ => problem .notInteger

def toText : Converter Value
  | .null => problem .noneNotAllowed
  | .string text => .done (.string text)
  | .int value => .done (.string (Value.int value).text)
  | .float value => .done (.string (Value.float value).text)
  | .bool value => .done (.string (Value.bool value).text)
  | _ => problem .notText

def toTexts : Nat → List Value → Outcome (List Value)
  | _, [] => .done []
  | index, item :: rest =>
    (((toText item).within (toString index)).both (toTexts (index + 1) rest)).map
      fun (first, others) => first :: others

def toTextList : Converter Value
  | .null => problem .noneNotAllowed
  | .list items => (toTexts 0 items).map .list
  | _ => problem .notList

def toOptionalTextList : Converter Value
  | .null => .done .null
  | value => toTextList value

def pairOf? : Value → Option (Value × Value)
  | .list [key, value] => some (key, value)
  | .map [(key, _), (value, _)] => some (key, value)
  | .string text =>
    match text.toList with
    | [key, value] => some (.string (String.ofList [key]), .string (String.ofList [value]))
    | _ => none
  | _ => none

def entriesOf? : Value → Option (List (Value × Value))
  | .map entries => some entries
  | .list items => do
    let pairs ← items.mapM pairOf?
    if pairs.all fun (key, _) => key.isHashable then
      some (pairs.foldl (fun built (key, value) => Value.putEntry key value built) [])
    else none
  | .string "" => some []
  | _ => none

def hasTextKeys (entries : List (Value × Value)) : Bool :=
  entries.all fun (key, _) => match key with
    | .string _ => true
    | _ => false

def fieldOf (entries : List (Value × Value)) (name : String) (convert : Converter Value) (standard : Value) :
    Outcome Value :=
  match Value.getEntry? name entries with
  | some value => (convert value).within name
  | none => .done standard

def sectionOf (convert : List (Value × Value) → Outcome α) : Converter α
  | .null => problem .noneNotAllowed
  | value =>
    match entriesOf? value with
    | none => problem .notMap
    | some entries => if hasTextKeys entries then convert entries else problem .keysNotText

def toCache (entries : List (Value × Value)) : Outcome CacheSettings :=
  let standard : CacheSettings := {}
  ((fieldOf entries "enabled" toBool standard.enabled).both
    ((fieldOf entries "max_size_mb" toInt standard.maxSizeMb).both
      (fieldOf entries "ttl_seconds" toInt standard.ttlSeconds))).map
    fun (enabled, size, ttl) => ⟨enabled, size, ttl⟩

def toSecurity (entries : List (Value × Value)) : Outcome SecuritySettings :=
  let standard : SecuritySettings := {}
  ((fieldOf entries "max_file_size_mb" toInt standard.maxFileSizeMb).both
    ((fieldOf entries "excluded_dirs" toTextList standard.excludedDirs).both
      (fieldOf entries "allowed_extensions" toOptionalTextList standard.allowedExtensions))).map
    fun (size, excluded, allowed) => ⟨size, excluded, allowed⟩

def toLanguage (entries : List (Value × Value)) : Outcome LanguageSettings :=
  let standard : LanguageSettings := {}
  ((fieldOf entries "auto_install" toBool standard.autoInstall).both
    ((fieldOf entries "default_max_depth" toInt standard.defaultMaxDepth).both
      (fieldOf entries "preferred_languages" toTextList standard.preferredLanguages))).map
    fun (install, depth, languages) => ⟨install, depth, languages⟩

def sectionField (entries : List (Value × Value)) (name : String) (standard : α)
    (convert : List (Value × Value) → Outcome α) : Outcome α :=
  match Value.getEntry? name entries with
  | some value => (sectionOf convert value).within name
  | none => .done standard

def fromEntries (entries : List (Value × Value)) : Outcome Settings :=
  let standard : Settings := {}
  ((sectionField entries "cache" {} toCache).both
    ((sectionField entries "security" {} toSecurity).both
      ((sectionField entries "language" {} toLanguage).both
        ((fieldOf entries "log_level" toText standard.logLevel).both
          (fieldOf entries "max_results_default" toInt standard.maxResultsDefault))))).map
    fun (cache, security, language, level, results) =>
      { cache := .fields cache, security := .fields security, language := .fields language,
        logLevel := level, maxResultsDefault := results }

def ofEntries (entries : List (Value × Value)) : Except Fault Settings :=
  if hasTextKeys entries then
    match fromEntries entries with
    | .done settings => .ok settings
    | .bad issues => .error (.invalidSettings (issuesMessage issues))
    | .fatal fault => .error fault
  else .error (.raised "keywords must be strings")

end Arborist.Settings
