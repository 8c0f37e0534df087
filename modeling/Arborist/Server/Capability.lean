import Arborist.Service.State
import Arborist.Text.Case

/-!
What the server can do beside its tools: complete a word, and take log messages.
-/

namespace Arborist.Server

def placeOf (text : List Char) (index : Int) : Int := if index < 0 then index + text.length else index

def charAt (text : List Char) (index : Int) : Except Fault Char :=
  if placeOf text index < 0 then .error (.indexOutside "string")
  else
    match text[(placeOf text index).toNat]? with
    | some c => .ok c
    | none => .error (.indexOutside "string")

theorem index_of_charAt {text : List Char} {index : Int} {c : Char} (found : charAt text index = .ok c) :
    0 < index + text.length + 1 := by
  apply Decidable.byContradiction
  intro outside
  have negative : placeOf text index < 0 := by
    rw [placeOf, if_pos (by omega)]
    omega
  rw [charAt, if_pos negative] at found
  cases found

/-- The word that ends at an index.  Going back, letters and digits count up to the beginning of the
text; underscores count even beyond it, from the end on. -/
def wordBefore (text : List Char) (index : Int) (word : List Char) : Except Fault (List Char) :=
  match found : charAt text index with
  | .error fault => .error fault
  | .ok c =>
    if (0 ≤ index && Text.isAlphanumeric c) || c == '_' then wordBefore text (index - 1) (c :: word)
    else .ok word
termination_by (index + text.length + 1).toNat
decreasing_by
  have positive := index_of_charAt found
  omega

structure Suggestion where
  text : String
  description : String

def Suggestion.toValue (suggestion : Suggestion) : Value :=
  .object [("text", .string suggestion.text), ("description", .string suggestion.description)]

def settingTexts (settings : Settings) : List (String × Except Fault String) :=
  [("cache_enabled", do return "Cache enabled: " ++ (← settings.cacheEnabled).text),
    ("max_file_size_mb", do return "Max file size: " ++ (← settings.maxFileSizeMb).text ++ " MB"),
    ("log_level", .ok s!"Log level: {settings.logLevel.text}")]

def settingSuggestions (settings : Settings) (word : List Char) : Except Fault (List Suggestion) :=
  ((settingTexts settings).filter fun (name, _) => word.isPrefixOf name.toList).mapM
    fun (name, description) => do return ⟨name, ← description⟩

def textBefore (text : List Char) (position : Int) : List Char := text.take (placeOf text position).toNat

def mentions (text : List Char) (topic : String) : Bool := Text.occursIn topic.toList (Text.lower text)

def nameSuggestions (label : String) (names : List String) (word : List Char) : List Suggestion :=
  (names.filter fun name => word.isPrefixOf name.toList).map fun name => ⟨name, s!"{label}: {name}"⟩

def suggestionsFor (service : Service) (before word : List Char) : Except Fault (List Suggestion) := do
  if word.isEmpty then return []
  let projects := if mentions before "project" then
    nameSuggestions "Project" (service.projects.map Prod.fst) word else []
  let languages := if mentions before "language" then
    nameSuggestions "Language" service.registry.available word else []
  let settings ← if mentions before "config" then settingSuggestions service.settings word else pure []
  return projects ++ languages ++ settings

def complete (text : String) (position : Int) : Action (List Suggestion) := do
  let service ← get
  let word ← Action.lift (wordBefore text.toList (position - 1) [])
  Action.lift (suggestionsFor service (textBefore text.toList position) word)

def takeLogMessage (_level _message : String) : Value := .object [("status", .string "success")]

def capabilityNames : List String := ["completion", "logging"]

end Arborist.Server
