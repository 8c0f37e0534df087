import Arborist.Engine.Basic
import Arborist.Text.Case

/-!
Languages: which one a file is written in, told by the end of its name, and which have been loaded.
-/

namespace Arborist

def standardExtensions : List (String × String) := [
  ("py", "python"), ("js", "javascript"), ("ts", "typescript"), ("jsx", "javascript"),
  ("tsx", "typescript"), ("rb", "ruby"), ("rs", "rust"), ("go", "go"), ("java", "java"), ("c", "c"),
  ("cpp", "cpp"), ("cc", "cpp"), ("h", "c"), ("hpp", "cpp"), ("cs", "c_sharp"), ("php", "php"),
  ("scala", "scala"), ("swift", "swift"), ("kt", "kotlin"), ("lua", "lua"), ("hs", "haskell"),
  ("ml", "ocaml"), ("sh", "bash"), ("yaml", "yaml"), ("yml", "yaml"), ("json", "json"),
  ("md", "markdown"), ("html", "html"), ("css", "css"), ("scss", "scss"), ("sass", "scss"),
  ("sql", "sql"), ("proto", "proto"), ("elm", "elm"), ("clj", "clojure"), ("ex", "elixir"),
  ("exs", "elixir")]

def commonLanguages : List String := [
  "python", "javascript", "typescript", "java", "c", "cpp", "go", "rust", "ruby", "php", "swift",
  "kotlin", "scala", "bash", "html", "css", "json", "yaml", "markdown", "c_sharp", "objective_c",
  "xml"]

structure LanguageRegistry where
  extensions : List (String × String) := standardExtensions
  loaded : List String := []
deriving Inhabited

/-- What follows the last dot of a name, in lower case; nothing if there is no dot. -/
def nameEnding (name : String) : String :=
  let chars := name.toList
  if chars.contains '.' then
    String.ofList (Text.lower (chars.reverse.takeWhile (· != '.')).reverse)
  else ""

def sortedTexts (texts : List String) : List String :=
  texts.eraseDups.mergeSort fun left right => left ≤ right

namespace LanguageRegistry

def languageOf? (registry : LanguageRegistry) (name : String) : Option String :=
  registry.extensions.lookup (nameEnding name)

def extensionsOf (registry : LanguageRegistry) (language : String) : List String :=
  (registry.extensions.filter fun (_, other) => other == language).map Prod.fst

def mapExtension (extension language : String) : List (String × String) → List (String × String)
  | [] => [(extension, language)]
  | (other, old) :: rest =>
    if other == extension then (other, language) :: rest
    else (other, old) :: mapExtension extension language rest

def available (registry : LanguageRegistry) : List String :=
  sortedTexts (registry.loaded ++ registry.extensions.map Prod.snd ++ commonLanguages)

def load (registry : LanguageRegistry) (engine : Engine) (language : String) :
    Except Fault LanguageRegistry :=
  if registry.loaded.contains language then .ok registry
  else
    match engine.grammar language with
    | .ok _ => .ok { registry with loaded := registry.loaded ++ [language] }
    | .error cause => .error (.languageUnavailable language cause)

def preload (registry : LanguageRegistry) (engine : Engine) (languages : List String) : LanguageRegistry :=
  languages.foldl (fun registry language => (registry.load engine language).toOption.getD registry) registry

/-- Makes sure that there is a parser: at once, or by loading the language. -/
def loadParser (registry : LanguageRegistry) (engine : Engine) (language : String) :
    Except Fault LanguageRegistry :=
  match engine.parser language with
  | .ok _ => .ok registry
  | .error _ => registry.load engine language

end LanguageRegistry

def commentStart? (language : String) : Option String :=
  List.lookup language [
    ("python", "#"), ("javascript", "//"), ("typescript", "//"), ("java", "//"), ("c", "//"),
    ("cpp", "//"), ("go", "//"), ("ruby", "#"), ("rust", "//"), ("php", "//"), ("swift", "//"),
    ("kotlin", "//"), ("scala", "//"), ("bash", "#"), ("shell", "#"), ("yaml", "#"),
    ("html", "<!--"), ("css", "/*"), ("scss", "//"), ("sass", "//"), ("sql", "--")]

end Arborist
