import Arborist.File.Store
import Arborist.Text.Quoted

/-!
From paths to entries.  Resolving a path replaces links by what they stand for and takes double dots
away; it works for paths of which only a beginning exists.  Locating a path finds the entry itself
and fails where a component is missing or not a directory.
-/

namespace Arborist

inductive FileFault where
  | missing (path : String)
  | notDirectory (path : String)
  | isDirectory (path : String)
  | linkLoop (path : String)
  | nullCharacter
  | homeUnknown
deriving DecidableEq, Repr

def FileFault.message : FileFault → String
  | .missing path => s!"[Errno 2] No such file or directory: {Text.quoted path}"
  | .notDirectory path => s!"[Errno 20] Not a directory: {Text.quoted path}"
  | .isDirectory path => s!"[Errno 21] Is a directory: {Text.quoted path}"
  | .linkLoop path => s!"Symlink loop from {Text.quoted path}"
  | .nullCharacter => "embedded null byte"
  | .homeUnknown => "Could not determine home directory."

namespace Store

/-- Resolves components from a directory that has been reached.  Links that are being resolved are
not entered again; no more than all links of the store can be nested. -/
def resolveFrom (store : Store) (depth : Nat) (entered : List (List String)) (current rest : List String) :
    Except (List String) (List String) :=
  match rest with
  | [] => .ok current
  | name :: others =>
    if name = ".." then resolveFrom store depth entered current.dropLast others
    else
      let next := current ++ [name]
      match store.find? next with
      | some (.link target) =>
        match depth with
        | 0 => .error (next ++ others)
        | depth + 1 =>
          if entered.contains next then .error (next ++ others)
          else
            let path := Path.ofString target
            let start := if path.anchor = .relative then current else []
            match resolveFrom store depth (next :: entered) start path.components with
            | .ok reached => resolveFrom store (depth + 1) entered reached others
            | .error stuck => .error (stuck ++ others)
      | _ => resolveFrom store depth entered next others
termination_by (depth, rest.length)

def hasNull (components : List String) : Bool :=
  components.any fun name => name.toList.contains (Char.ofNat 0)

def resolveComponents (store : Store) (start components : List String) :
    Except FileFault (List String) :=
  if hasNull components then .error .nullCharacter
  else
    match resolveFrom store (folderLinkCount store.root) [] start components with
    | .ok reached => .ok reached
    | .error stuck => .error (.linkLoop (Path.absolute stuck).text)

def resolve (store : Store) (path : Path) : Except FileFault Path := do
  return Path.absolute (← store.resolveComponents (store.startOf path) path.components)

def expandHome (store : Store) (path : Path) : Except FileFault Path :=
  match path.anchor, path.components with
  | .relative, first :: rest =>
    if first = "~" then
      let home := (store.home.toList.reverse.dropWhile (· == '/')).reverse
      let home := if home.isEmpty then "/" else String.ofList home
      .ok ((Path.ofString home).join ⟨.relative, rest⟩)
    else if first.toList.head? = some '~' then .error .homeUnknown
    else .ok path
  | _, _ => .ok path

inductive LookupFault where
  | missing
  | notDirectory
  | loop
deriving DecidableEq, Repr

/-- The place of the entry that components lead to from a directory, every link followed. -/
def followFrom (store : Store) (depth : Nat) (current rest : List String) :
    Except LookupFault (List String) :=
  match rest with
  | [] => .ok current
  | name :: others =>
    match store.find? current with
    | none => .error .missing
    | some (.directory children) =>
      if name = ".." then followFrom store depth current.dropLast others
      else
        match Folder.get? children name with
        | none => .error .missing
        | some (.link target) =>
          match depth with
          | 0 => .error .loop
          | depth + 1 =>
            let path := Path.ofString target
            let start := if path.anchor = .relative then current else []
            match followFrom store depth start path.components with
            | .ok reached => followFrom store (depth + 1) reached others
            | .error fault => .error fault
        | some _ => followFrom store depth (current ++ [name]) others
    | some _ => .error .notDirectory
termination_by (depth, rest.length)

def locate (store : Store) (path : Path) : Except LookupFault (List String × Entry) :=
  if hasNull path.components then .error .missing
  else
    match followFrom store (folderLinkCount store.root) (store.startOf path) path.components with
    | .error fault => .error fault
    | .ok reached =>
      match store.find? reached with
      | some entry => .ok (reached, entry)
      | none => .error .missing

def entry? (store : Store) (path : Path) : Option Entry :=
  match store.locate path with
  | .ok (_, entry) => some entry
  | .error _ => none

def fileExists (store : Store) (path : Path) : Bool := (store.entry? path).isSome

def isFile (store : Store) (path : Path) : Bool :=
  match store.entry? path with
  | some entry => entry.isFile
  | none => false

def isDirectory (store : Store) (path : Path) : Bool :=
  match store.entry? path with
  | some entry => entry.isDirectory
  | none => false

def LookupFault.at (text : String) : LookupFault → FileFault
  | .missing => .missing text
  | .notDirectory => .notDirectory text
  | .loop => .linkLoop text

/-- The file that a text names: its bytes and the time of its last change.  A text that ends in a
slash can only name a directory. -/
def openFile (store : Store) (text : String) : Except FileFault (ByteArray × Binary64) :=
  let path := Path.ofString text
  if hasNull path.components then .error .nullCharacter
  else if text.isEmpty then .error (.missing text)
  else
    match store.locate path with
    | .error fault => .error (fault.at text)
    | .ok (_, .file content modified) =>
      if text.toList.getLast? = some '/' then .error (.notDirectory text) else .ok (content, modified)
    | .ok _ => .error (.isDirectory text)

def readBytes (store : Store) (text : String) : Except FileFault ByteArray :=
  (store.openFile text).map Prod.fst

def fileAt? (store : Store) (path : Path) : Option (ByteArray × Binary64) :=
  match store.entry? path with
  | some (.file content modified) => some (content, modified)
  | _ => none

end Store

end Arborist
