import Arborist.Sketch.Build
import Arborist.Sketch.Sample
import Arborist.Tree.Locate
import Arborist.Tree.Outline
import Arborist.Tree.Walk

/-!
Benches on the tree of a sample: outlining it, finding places in it, and walking over it.
-/

namespace Arborist.Bench

def sample (count : Nat) : ByteArray × Node :=
  let source := (Sketch.sampleSource count).toUTF8
  (source, Sketch.build source)

def listedChildren (outline : Outline) : Nat :=
  match outline.toValue.get? "children" with
  | some (.list children) => children.length
  | _ => 0

def outlines (count : Nat) : Value :=
  let (source, root) := sample count
  let full := root.outline source {}
  let bare := root.outline source { includeText := false }
  .list [.nat (listedChildren full), .nat (listedChildren bare), .string root.kind]

def everyThirdRow (rows : Nat) : List Position :=
  ((List.range rows).filter fun row => row % 3 == 0).map fun (row : Nat) => ⟨(row : Int), 4⟩

def navigation (count : Nat) : Value :=
  let (source, root) := sample count
  let way := match root.children.getLast? with
    | some last => root.pathIn root last
    | none => []
  let found := (everyThirdRow (source.toList.count 10)).filterMap root.atPosition?
  .list [.nat way.length, .nat found.length]

def treeWalks (count : Nat) : Value :=
  let (source, root) := sample count
  let inside := root.children.all fun child => child.isInside root
  .list [.nat (root.descendants (some 8)).length, .nat (root.ofKind "identifier").length,
    .nat (root.text source).length, .bool inside,
    .bool (root.withText? source "helper".toUTF8.toList).isSome,
    .nat (root.descendants (some 3)).length]

end Arborist.Bench
