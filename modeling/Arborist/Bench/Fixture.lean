import Arborist.Project.Basic
import Arborist.Sketch.Sample

/-!
Projects to be measured: a sample as the main file, a number of further samples, and what else a small
project has.
-/

namespace Arborist.Bench

structure Fixture where
  functions : Nat := 3
  files : Nat := 0

namespace Fixture

def sideFile (number : Nat) : String := s!"mod_{number}.py"

def sources (fixture : Fixture) : List (String × String) :=
  ("main.py", Sketch.sampleSource fixture.functions) ::
    (List.range fixture.files).map fun number => (sideFile number, Sketch.sampleSource 4)

def others : List (String × String) := [
  ("app.js", "function f() \x7b\x7d\n"),
  ("main.go", "package\n"),
  ("pyproject.toml", "[project]\n"),
  ("requirements.txt", "requests\n")]

def contents (fixture : Fixture) : List (String × String) := fixture.sources ++ others

end Fixture

def builtCount (store : Store) (directory : List String) : Nat :=
  match store.find? directory with
  | some entry => (entry.children.filter fun (name, _) => "mbts_".toList.isPrefixOf name.toList).length
  | none => 0

/-- Builds a project in a new directory of its own; directories and projects are numbered. -/
def Fixture.build (fixture : Fixture) (store : Store) (directory : List String) (time : Binary64) :
    Store × Path :=
  let number := builtCount store directory + 1
  let root := directory ++ [s!"mbts_{number}", s!"proj{number}"]
  let store := fixture.contents.foldl
    (fun (store : Store) (name, content) => store.put (root ++ [name]) (.file content.toUTF8 time)) store
  (store, Path.absolute root)

end Arborist.Bench
