import Arborist.Fault

/-!
Absolute paths, and the root of the project that a path belongs to.
-/

namespace Arborist.Project

def normalize (store : Store) (path : Path) : Except Fault Path :=
  liftFile (do store.resolve (← store.expandHome path))

def relativePath (store : Store) (path base : String) : Except Fault Path := do
  let basePath ← normalize store (Path.ofString base)
  let target ← normalize store (Path.ofString path)
  match target.relativeTo? basePath with
  | some relative => return relative
  | none => throw (.notWithin path base)

def rootMarkers : List String :=
  [".git", "pyproject.toml", "setup.py", "package.json", "Cargo.toml", "CMakeLists.txt", ".svn",
    "Makefile"]

def hasMarker (store : Store) (directory : List String) : Bool :=
  rootMarkers.any fun marker => store.fileExists (Path.absolute (directory ++ [marker]))

/-- The nearest directory with a marker among one, given by its components from the last to the
first, and those above it, the root of the file system not among them. -/
def nearestMarked? (store : Store) : List String → Option (List String)
  | [] => none
  | name :: above =>
    if hasMarker store (name :: above).reverse then some (name :: above).reverse
    else nearestMarked? store above

def rootOf (store : Store) (path : Path) : Except Fault Path := do
  let place ← normalize store path
  let start := if store.isFile place then place.parent else place
  match nearestMarked? store start.components.reverse with
  | some components => return Path.absolute components
  | none => return start

end Arborist.Project
