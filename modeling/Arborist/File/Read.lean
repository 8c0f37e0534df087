import Arborist.Fault
import Arborist.Text.Encoding
import Arborist.Text.Lines

/-!
Reading files, whole or by lines.  Text is read leniently and has one kind of line end.
-/

namespace Arborist.File

def plainText (bytes : ByteArray) : List Char := Text.unifyNewlines (Text.Utf8.decode bytes.toList)

def textLines (bytes : ByteArray) : List String :=
  (Text.feedLines (plainText bytes)).map String.ofList

def readBytes (store : Store) (path : String) : Except Fault ByteArray := liftFile (store.readBytes path)

def readLines (store : Store) (path : String) : Except Fault (List String) := do
  return textLines (← readBytes store path)

def readEncoded (store : Store) (path encoding : String) : Except Fault (ByteArray × List String) := do
  let bytes ← readBytes store path
  if bytes.isEmpty then return (bytes, [])
  match Text.Encoding.ofName? encoding with
  | some encoding =>
    return (bytes, (Text.boundaryLines (encoding.decode bytes.toList)).map String.ofList)
  | none => throw (.unknownEncoding encoding)

/-- Some lines from one on.  Lines asked for beyond the end are empty. -/
def readLineRange (store : Store) (path : String) (start : Int) (count : Option Int) :
    Except Fault (List String) := do
  let rest := (← readLines store path).drop start.toNat
  match count with
  | none => return rest
  | some count =>
    let wanted := count.toNat
    return rest.take wanted ++ List.replicate (wanted - rest.length) ""

def isCommentLine (line start : String) : Bool :=
  start.toList.isPrefixOf (Text.strip line.toList)

def countCommentLines (lines : List String) (start : String) : Nat :=
  lines.countP fun line => isCommentLine line start

end Arborist.File
