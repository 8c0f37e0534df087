import Arborist.Proofs.Tree.Ancestry
import Arborist.Sketch.Build

/-!
Numbering a tree.  Its nodes get their places in preorder as numbers, and nothing else of it changes.
-/

namespace Arborist

def NodeLabel.unnumbered (label : NodeLabel) : NodeLabel := { label with id := 0 }

namespace Node

mutual

def unnumbered : Node → Node
  | .mk label children => .mk label.unnumbered (unnumberedAll children)

def unnumberedAll : List Node → List Node
  | [] => []
  | node :: rest => unnumbered node :: unnumberedAll rest

end

theorem unnumberedAll_eq_map (nodes : List Node) : unnumberedAll nodes = nodes.map unnumbered := by
  induction nodes with
  | nil => rfl
  | cons node rest ih => rw [unnumberedAll, ih, List.map_cons]

@[simp] theorem label_unnumbered (node : Node) : node.unnumbered.label = node.label.unnumbered := by
  obtain ⟨label, children⟩ := node
  rfl

@[simp] theorem children_unnumbered (node : Node) : node.unnumbered.children = node.children.map unnumbered := by
  obtain ⟨label, children⟩ := node
  exact unnumberedAll_eq_map children

theorem preorder_unnumbered (node : Node) : node.unnumbered.preorder = node.preorder.map unnumbered := by
  induction node using childInduction with
  | step node ih =>
      rw [preorder_eq, preorder_eq node, children_unnumbered, List.map_cons, List.flatMap_map, List.map_flatMap]
      congr 1
      exact List.flatMap_congr ih

end Node

namespace Sketch

open Node

structure Renumbered (next : Nat) (node : Node) : Prop where
  same : (renumber next node).1.unnumbered = node.unnumbered
  numbers : (renumber next node).1.preorder.map Node.id = List.range' next node.preorder.length
  after : (renumber next node).2 = next + node.preorder.length

structure RenumberedAll (next : Nat) (nodes : List Node) : Prop where
  same : (renumberAll next nodes).1.map unnumbered = nodes.map unnumbered
  numbers : ((renumberAll next nodes).1.flatMap preorder).map Node.id =
    List.range' next (nodes.flatMap preorder).length
  after : (renumberAll next nodes).2 = next + (nodes.flatMap preorder).length

theorem renumberedAll_cons {next : Nat} {node : Node} {rest : List Node} (first : Renumbered next node)
    (others : RenumberedAll (next + node.preorder.length) rest) : RenumberedAll next (node :: rest) := by
  have split : renumberAll next (node :: rest) =
      ((renumber next node).1 :: (renumberAll (next + node.preorder.length) rest).1,
        (renumberAll (next + node.preorder.length) rest).2) := by
    rw [← first.after]
    rfl
  refine ⟨?_, ?_, ?_⟩
  · rw [split, List.map_cons, List.map_cons, first.same, others.same]
  · rw [split, List.flatMap_cons, List.map_append, first.numbers, others.numbers, List.flatMap_cons,
      List.length_append, List.range'_append_1]
  · rw [split, others.after, List.flatMap_cons, List.length_append, Nat.add_assoc]

theorem renumberedAll {nodes : List Node} (each : ∀ node ∈ nodes, ∀ next, Renumbered next node) (next : Nat) :
    RenumberedAll next nodes := by
  induction nodes generalizing next with
  | nil => exact ⟨rfl, rfl, rfl⟩
  | cons node rest ih =>
      apply renumberedAll_cons (each node List.mem_cons_self next)
      exact ih (fun other member => each other (List.mem_cons_of_mem _ member)) _

theorem renumbered (next : Nat) (node : Node) : Renumbered next node := by
  induction node using childInduction generalizing next with
  | step node ih =>
      obtain ⟨same, numbers, after⟩ := renumberedAll ih (next + 1)
      obtain ⟨label, children⟩ := node
      have split : renumber next (.mk label children) =
          (.mk { label with id := next } (renumberAll (next + 1) children).1,
            (renumberAll (next + 1) children).2) := rfl
      refine ⟨?_, ?_, ?_⟩
      · rw [split, unnumbered, unnumbered, unnumberedAll_eq_map, unnumberedAll_eq_map]
        exact congrArg _ same
      · rw [split, preorder_eq, preorder_eq, List.map_cons, List.length_cons, List.range'_succ]
        exact congrArg _ numbers
      · rw [Nat.add_assoc, Nat.add_comm 1] at after
        rw [split, preorder_eq, List.length_cons]
        exact after

theorem distinct_renumber (next : Nat) (node : Node) : (renumber next node).1.Distinct := by
  rw [Distinct, (renumbered next node).numbers]
  exact List.nodup_range'

end Sketch

end Arborist
