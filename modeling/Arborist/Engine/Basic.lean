import Arborist.Engine.Capture
import Arborist.Sketch.Build
import Arborist.Sketch.Query

/-!
Engines that parse sources and run queries.  One answers from a record of trees and captures; the
other sketches trees from indentation.  Trees are told apart by their serial numbers, since engines
note with each tree the one it was made from and the edits made to it.
-/

namespace Arborist

structure Tree where
  serial : Nat
  origin : Option Nat
  root : Node
deriving Inhabited

structure Edit where
  startByte : Value
  oldEndByte : Value
  newEndByte : Value
  startPoint : Value
  oldEndPoint : Value
  newEndPoint : Value
deriving Inhabited

def Edit.toValue (edit : Edit) : Value :=
  .object [("start_byte", edit.startByte), ("old_end_byte", edit.oldEndByte),
    ("new_end_byte", edit.newEndByte), ("start_point", edit.startPoint),
    ("old_end_point", edit.oldEndPoint), ("new_end_point", edit.newEndPoint)]

def Edit.ofMap (fields : Value) : Except Fault Edit := do
  let field (name : String) : Except Fault Value :=
    match fields.get? name with
    | some value => .ok value
    | none => .error (.keyMissing name)
  return { startByte := ← field "start_byte", oldEndByte := ← field "old_end_byte",
           newEndByte := ← field "new_end_byte", startPoint := ← field "start_point",
           oldEndPoint := ← field "old_end_point", newEndPoint := ← field "new_end_point" }

/-- An edit that starts at a byte; ends and points that are not given are at the very beginning. -/
def Edit.startingAt (startByte : Value) (fields : Value) : Edit :=
  let field (name : String) (standard : Value) : Value :=
    match fields.get? name with
    | some .null | none => standard
    | some value => value
  let origin : Value := .list [.int 0, .int 0]
  { startByte, oldEndByte := field "old_end_byte" (.int 0), newEndByte := field "new_end_byte" (.int 0)
    startPoint := field "start_point" origin, oldEndPoint := field "old_end_point" origin
    newEndPoint := field "new_end_point" origin }

/-- The bytes that differ between two trees: all of the second one, unless both have one extent. -/
def Tree.changedRanges (old new : Tree) : List (Nat × Nat) :=
  if old.root.startByte == new.root.startByte && old.root.endByte == new.root.endByte then []
  else [(new.root.startByte, new.root.endByte)]

structure TreeRecord where
  source : ByteArray
  root : Node
  captures : List (String × Captures) := []
  parseFault : Option String := none
  editFault : Option String := none

structure Record where
  trees : List TreeRecord := []
  missingLanguages : List String := []
  missingParsers : List String := []
  queryFaults : List (String × String) := []

inductive Engine where
  | recorded (record : Record)
  | sketch

structure EngineLog where
  fresh : Nat := 0
  previous : List (Nat × Tree) := []
  edits : List (Nat × List Edit) := []
deriving Inhabited

namespace EngineLog

def editsOf (log : EngineLog) (tree : Tree) : List Edit := (log.edits.lookup tree.serial).getD []

def previousOf? (log : EngineLog) (tree : Tree) : Option Tree := log.previous.lookup tree.serial

def notePrevious (log : EngineLog) (tree : Tree) (previous : Option Tree) : EngineLog :=
  let others := log.previous.filter fun (serial, _) => serial != tree.serial
  { log with previous := match previous with
      | some previous => (tree.serial, previous) :: others
      | none => others }

def noteEdit (log : EngineLog) (tree : Tree) (edit : Edit) : EngineLog :=
  let edits := log.editsOf tree ++ [edit]
  { log with edits := (tree.serial, edits) :: log.edits.filter fun (serial, _) => serial != tree.serial }

end EngineLog

/-- A query: the text by which a record knows it, or its patterns. -/
inductive Query where
  | recorded (key : String)
  | sketch (patterns : List Sketch.Pattern)

def queryKey (text : String) : String := Text.collapseBlanks text

namespace Engine

def grammar (engine : Engine) (language : String) : Except Fault Unit :=
  match engine with
  | .recorded record =>
    if record.missingLanguages.contains language then
      .error (.unknownGrammar s!"no such language: {language}")
    else .ok ()
  | .sketch =>
    if language == "xyz" || Text.stringOccursIn "no_such" language then .error (.unknownGrammar language)
    else .ok ()

def parser (engine : Engine) (language : String) : Except Fault Unit :=
  match engine with
  | .recorded record =>
    if record.missingLanguages.contains language || record.missingParsers.contains language then
      .error (.unknownGrammar s!"no such language: {language}")
    else .ok ()
  | .sketch =>
    if language == "xyz" || language == "fallback_lang" || Text.stringOccursIn "no_such" language then
      .error (.unknownGrammar language)
    else .ok ()

def Record.find? (record : Record) (source : ByteArray) : Option (Nat × TreeRecord) :=
  ((List.range record.trees.length).zip record.trees).find? fun (_, tree) => tree.source == source

def parse (engine : Engine) (log : EngineLog) (source : ByteArray) (previous : Option Tree) :
    Except Fault (Tree × EngineLog) :=
  match engine with
  | .recorded record =>
    match Record.find? record source with
    | some (index, entry) =>
      match entry.parseFault with
      | some message => .error (.engine message)
      | none =>
        let tree : Tree := ⟨index, some index, entry.root⟩
        .ok (tree, log.notePrevious tree previous)
    | none =>
      let tree : Tree := ⟨record.trees.length + log.fresh, none, Node.plain source⟩
      .ok (tree, { log with fresh := log.fresh + 1 }.notePrevious tree previous)
  | .sketch =>
    let tree : Tree := ⟨log.fresh, none, Sketch.build source⟩
    .ok (tree, { log with fresh := log.fresh + 1 })

def edit (engine : Engine) (log : EngineLog) (tree : Tree) (edit : Edit) : Except Fault EngineLog :=
  match engine with
  | .recorded record =>
    let refusal := tree.origin.bind fun index => (record.trees[index]?).bind TreeRecord.editFault
    match refusal with
    | some message => .error (.engine message)
    | none => .ok (log.noteEdit tree edit)
  | .sketch => .ok (log.noteEdit tree edit)

def compile (engine : Engine) (text : String) : Except Fault Query :=
  match engine with
  | .recorded record =>
    match record.queryFaults.lookup (queryKey text) with
    | some message => .error (.engine message)
    | none => .ok (.recorded (queryKey text))
  | .sketch => do return .sketch (← Sketch.patterns text)

def run (engine : Engine) (query : Query) (tree : Tree) : Captures :=
  match engine, query with
  | .recorded record, .recorded key =>
    let found := do
      let index ← tree.origin
      let entry ← record.trees[index]?
      entry.captures.lookup key
    found.getD (.list [])
  | _, .sketch patterns =>
    .list ((Sketch.captures patterns tree.root).map fun (node, name) => ⟨some node, name, .pair⟩)
  | .sketch, .recorded _ => .list []

end Engine

end Arborist
