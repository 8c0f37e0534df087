import Arborist.Settings.Basic
import Arborist.Text.Case

/-!
Which files may be read: those under the project's root, in no excluded directory, with an extension
that is allowed, and not too large.
-/

namespace Arborist.Project

def megabytes (bytes : Nat) : Binary64 := Binary64.quotient (bytes : Int) (1024 * 1024)

def checkExcluded (segments : List String) : List Value → Except Fault Unit
  | [] => .ok ()
  | .string name :: rest =>
    if segments.contains name then .error (.excludedDirectory name) else checkExcluded segments rest
  | _ :: rest => checkExcluded segments rest

def checkExtension (allowed : Value) (path : Path) : Except Fault Unit := do
  if allowed.isVoid then return
  let extension := String.ofList (Text.lower path.suffix.toList |>.drop 1)
  if ← allowed.hasMember (.string extension) then return
  else throw (.extensionDenied path.suffix)

def checkSize (store : Store) (limit : Except Fault Value) (path : Path) : Except Fault Unit :=
  match store.fileAt? path with
  | none => .ok ()
  | some (content, _) => do
    let limit ← limit
    let size := megabytes content.size
    if ← (Value.float size).exceeds limit then throw (.fileTooLarge (size.fixedText 2) limit.text)
    else return

def checkAccess (store : Store) (settings : Settings) (file root : String) : Except Fault Unit := do
  let path := Path.ofString file
  let resolved : Except Fault (Path × Path) :=
    liftFile (do return (← store.resolve path, ← store.resolve (Path.ofString root)))
  let (place, base) ← match resolved with
    | .ok found => pure found
    | .error (.file (.linkLoop stuck)) => throw (.file (.linkLoop stuck))
    | .error cause => throw (.invalidPath cause)
  if !base.text.toList.isPrefixOf place.text.toList then throw (.outsideRoot file)
  checkExcluded place.segments (← (← settings.excludedDirs).members)
  checkExtension (← settings.allowedExtensions) path
  checkSize store settings.maxFileSizeMb place

end Arborist.Project
