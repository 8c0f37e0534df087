import Arborist.Tree.Node

/-!
What a query finds: nodes with the names under which they were captured.  Engines hand captures over
in several forms; those of an unknown form carry nothing.
-/

namespace Arborist

inductive CaptureForm where
  | pair
  | object
  | mapping
  | triple
  | junk
deriving DecidableEq, Repr

structure Capture where
  /-- The node; an engine may fail to give it. -/
  node : Option Node
  name : String
  form : CaptureForm := .pair

def CaptureForm.isKnown : CaptureForm → Bool
  | .pair | .object | .mapping => true
  | .triple | .junk => false

inductive Captures where
  | list (items : List Capture)
  | byName (entries : List (String × List (Option Node)))

def Captures.listed : Captures → List (Option Node × String)
  | .list items =>
    (items.filter fun item => item.form.isKnown).map fun item => (item.node, item.name)
  | .byName _ => []

def Captures.told : Captures → List (Option Node × String)
  | .list items => Captures.listed (.list items)
  | .byName entries => entries.flatMap fun (name, nodes) => nodes.map fun node => (node, name)

end Arborist
