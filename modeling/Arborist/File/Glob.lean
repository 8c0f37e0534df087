import Arborist.File.Resolve
import Arborist.File.Pattern

/-!
Finding files by patterns.  Each component of a pattern goes one level down; a double star stands
for any number of directories and does not go through links.  Names come in their order, each
directory before what is below it.
-/

namespace Arborist.File

inductive Selector where
  /-- Any directory at or below. -/
  | anyDepth
  | up
  | exactly (name : String)
  | fitting (pattern : String)
  | here
deriving Repr

inductive PatternFault where
  | unacceptable (pattern : String)
  | notRelative
  | doubleStar
  | noComponent
  | noSelection
deriving DecidableEq, Repr

def PatternFault.message : PatternFault → String
  | .unacceptable pattern => s!"Unacceptable pattern: {Text.quoted pattern}"
  | .notRelative => "Non-relative patterns are unsupported"
  | .doubleStar => "Invalid pattern: '**' can only be an entire path component"
  | .noComponent => "tuple index out of range"
  | .noSelection => "'_TerminatingSelector' object has no attribute 'select_from'"

def Selector.ofComponent (component : String) : Except PatternFault Selector :=
  if component = "**" then .ok .anyDepth
  else if component = ".." then .ok .up
  else if Text.stringOccursIn "**" component then .error .doubleStar
  else if isPattern component then .ok (.fitting component)
  else .ok (.exactly component)

/-- The selectors of a pattern; a slash at its end asks for directories. -/
def selectors (pattern : String) : Except PatternFault (List Selector) := do
  if pattern.isEmpty then throw (.unacceptable pattern)
  let path := Path.ofString pattern
  if path.anchor ≠ .relative then throw .notRelative
  let found ← path.components.mapM Selector.ofComponent
  let onlyDirectories := pattern.toList.getLast? = some '/'
  if found.isEmpty then throw (if onlyDirectories then .noSelection else .noComponent)
  return if onlyDirectories then found ++ [.here] else found

mutual

/-- A directory and those below it, each before its own, links left aside. -/
def directoriesBelow (path : Path) : Entry → List Path
  | .directory children => path :: directoriesIn path children
  | _ => []

def directoriesIn (path : Path) : List (String × Entry) → List Path
  | [] => []
  | (name, entry) :: rest => directoriesBelow (path.child name) entry ++ directoriesIn path rest

end

def childrenAt (store : Store) (path : Path) : Folder :=
  match store.entry? path with
  | some entry => entry.children
  | none => []

def select (store : Store) : List Selector → Path → List Path
  | [], path => [path]
  | .here :: _, path => [path]
  | .up :: rest, path => select store rest (path.child "..")
  | .exactly name :: rest, path =>
    let next := path.child name
    if (if rest.isEmpty then store.fileExists next else store.isDirectory next) then
      select store rest next
    else []
  | .fitting pattern :: rest, path =>
    (childrenAt store path).flatMap fun (name, _) =>
      let next := path.child name
      if nameFits pattern name && (rest.isEmpty || store.isDirectory next) then select store rest next
      else []
  | .anyDepth :: rest, path =>
    match store.entry? path with
    | some entry => ((directoriesBelow path entry).flatMap fun start => select store rest start).eraseDups
    | none => []

def glob (store : Store) (base : Path) (pattern : String) : Except PatternFault (List Path) := do
  let found ← selectors pattern
  return if store.isDirectory base then select store found base else []

end Arborist.File
