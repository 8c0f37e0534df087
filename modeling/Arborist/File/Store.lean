import Arborist.File.Path
import Arborist.Number.Binary64

/-!
A file system as a value: directories with named entries in the order of their names, files with
their bytes and the time of their last change, and symbolic links.
-/

namespace Arborist

inductive Entry where
  | file (content : ByteArray) (modified : Binary64)
  | link (target : String)
  | directory (children : List (String × Entry))
deriving Inhabited

abbrev Folder := List (String × Entry)

namespace Entry

def isLink : Entry → Bool
  | .link _ => true
  | _ => false

def isDirectory : Entry → Bool
  | .directory _ => true
  | _ => false

def isFile : Entry → Bool
  | .file _ _ => true
  | _ => false

def children : Entry → Folder
  | .directory children => children
  | _ => []

end Entry

namespace Folder

def get? (folder : Folder) (name : String) : Option Entry := folder.lookup name

def put (name : String) (entry : Entry) : Folder → Folder
  | [] => [(name, entry)]
  | (other, old) :: rest =>
    if name = other then (name, entry) :: rest
    else if name < other then (name, entry) :: (other, old) :: rest
    else (other, old) :: put name entry rest

def erase (folder : Folder) (name : String) : Folder := folder.filter fun (other, _) => other != name

def find? (folder : Folder) : List String → Option Entry
  | [] => some (.directory folder)
  | [name] => Folder.get? folder name
  | name :: rest =>
    match Folder.get? folder name with
    | some (.directory children) => find? children rest
    | _ => none

def putAt (folder : Folder) (entry : Entry) : List String → Folder
  | [] => folder
  | [name] => put name entry folder
  | name :: rest =>
    let children := match Folder.get? folder name with
      | some (.directory children) => children
      | _ => []
    put name (.directory (putAt children entry rest)) folder

def eraseAt (folder : Folder) : List String → Folder
  | [] => folder
  | [name] => Folder.erase folder name
  | name :: rest =>
    match Folder.get? folder name with
    | some (.directory children) => put name (.directory (eraseAt children rest)) folder
    | _ => folder

end Folder

mutual

def Entry.linkCount : Entry → Nat
  | .file _ _ => 0
  | .link _ => 1
  | .directory children => folderLinkCount children

def folderLinkCount : List (String × Entry) → Nat
  | [] => 0
  | (_, entry) :: rest => entry.linkCount + folderLinkCount rest

end

structure Store where
  root : Folder := []
  workingDirectory : List String := []
  home : String := "/"
deriving Inhabited

namespace Store

def find? (store : Store) (components : List String) : Option Entry := Folder.find? store.root components

def put (store : Store) (components : List String) (entry : Entry) : Store :=
  { store with root := Folder.putAt store.root entry components }

def erase (store : Store) (components : List String) : Store :=
  { store with root := Folder.eraseAt store.root components }

def startOf (store : Store) (path : Path) : List String :=
  if path.anchor = .relative then store.workingDirectory else []

end Store

end Arborist
