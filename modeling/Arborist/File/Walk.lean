import Arborist.File.Resolve

/-!
All files below a directory, directory by directory, the files of each before its subdirectories.
Linked directories are listed as directories and are not entered.
-/

namespace Arborist.File

structure Listing where
  directory : Path
  directories : List String
  files : List String
deriving Repr

/-- Whether an entry of a directory counts as a directory, links to directories among them. -/
def countsAsDirectory (store : Store) (path : Path) (entry : Entry) : Bool :=
  match entry with
  | .file _ _ => false
  | .directory _ => true
  | .link _ => store.isDirectory path

mutual

def listingsBelow (enter : String → Bool) (store : Store) (path : Path) : Entry → List Listing
  | .directory children =>
    let (directories, files) := children.partition fun (name, entry) =>
      countsAsDirectory store (path.child name) entry
    ⟨path, (directories.map Prod.fst).filter enter, files.map Prod.fst⟩ ::
      listingsIn enter store path children
  | _ => []

def listingsIn (enter : String → Bool) (store : Store) (path : Path) : List (String × Entry) → List Listing
  | [] => []
  | (name, entry) :: rest =>
    (if enter name then listingsBelow enter store (path.child name) entry else []) ++
      listingsIn enter store path rest

end

def walkWhere (store : Store) (path : Path) (enter : String → Bool) : List Listing :=
  match store.entry? path with
  | some entry => listingsBelow enter store path entry
  | none => []

def walk (store : Store) (path : Path) : List Listing := walkWhere store path fun _ => true

end Arborist.File
