import Mathlib.Data.List.Induction
import Arborist.Proofs.Tree.Ancestry

/-!
The links of a tree whose nodes have different numbers: up to the parent, aside to the next sibling, and
from fields to the children that fill them.  All of them agree with the lists of children.
-/

namespace Arborist

namespace Cursor

def index? (cursor : Cursor) : Option Nat := cursor.trail.head?.map fun crumb => crumb.before.length

/-! Going down. -/

theorem child?_eq {cursor : Cursor} {before after : List Node} {child : Node}
    (children : cursor.node.children = before ++ child :: after) :
    cursor.child? before.length =
      some ⟨child, ⟨cursor.node.label, before.reverse, after⟩ :: cursor.trail⟩ := by
  induction before using List.reverseRecOn generalizing child after with
  | nil =>
      obtain ⟨⟨label, nodes⟩, trail⟩ := cursor
      cases children
      rfl
  | append_singleton before last ih =>
      rw [List.append_assoc] at children
      rw [List.length_append, List.length_singleton, child?, ih children, List.reverse_append]
      rfl

theorem exists_follow {cursor : Cursor} {route : List Nat} {node : Node}
    (leads : cursor.node.follow? route = some node) :
    ∃ place, cursor.follow route = some place ∧ place.node = node := by
  induction route generalizing cursor with
  | nil =>
      cases leads
      exact ⟨cursor, rfl, rfl⟩
  | cons index rest ih =>
      obtain ⟨child, stands, onward⟩ := Option.bind_eq_some_iff.mp leads
      obtain ⟨before, after, children, rfl⟩ := Node.exists_split_of_getElem? stands
      rw [follow, child?_eq children]
      exact ih onward

theorem follow_append {cursor place : Cursor} {route : List Nat} (leads : cursor.follow route = some place)
    (rest : List Nat) : cursor.follow (route ++ rest) = place.follow rest := by
  induction route generalizing cursor with
  | nil =>
      cases leads
      rfl
  | cons index others ih =>
      rw [follow] at leads
      obtain ⟨next, down, onward⟩ := Option.bind_eq_some_iff.mp leads
      rw [List.cons_append, follow, down]
      exact ih onward

/-! Finding a number. -/

theorem routes?_append {number base : Nat} {before after : List Node} {child : Node} {route : List Nat}
    (earlier : ∀ sibling ∈ before, route? number sibling = none) (found : route? number child = some route) :
    routes? number base (before ++ child :: after) = some ((base + before.length) :: route) := by
  induction before generalizing base with
  | nil => rw [List.nil_append, routes?, found]; rfl
  | cons sibling rest ih =>
      rw [List.cons_append, routes?, earlier sibling List.mem_cons_self,
        ih fun other member => earlier other (List.mem_cons_of_mem _ member), List.length_cons, Nat.add_assoc,
        Nat.add_comm 1]

theorem routes?_eq_none {number base : Nat} {nodes : List Node}
    (absent : ∀ node ∈ nodes, route? number node = none) : routes? number base nodes = none := by
  induction nodes generalizing base with
  | nil => rfl
  | cons node rest ih =>
      rw [routes?, absent node List.mem_cons_self]
      exact ih fun other member => absent other (List.mem_cons_of_mem _ member)

theorem route?_eq (number : Nat) (tree : Node) :
    route? number tree = if tree.id = number then some [] else routes? number 0 tree.children := by
  obtain ⟨label, children⟩ := tree
  rw [route?]
  simp only [beq_iff_eq]
  rfl

theorem route?_eq_none {number : Nat} {tree : Node} (absent : ∀ node ∈ tree.preorder, node.id ≠ number) :
    route? number tree = none := by
  induction tree using Node.childInduction with
  | step tree ih =>
      rw [Node.preorder_eq] at absent
      rw [route?_eq, if_neg (absent tree List.mem_cons_self)]
      apply routes?_eq_none
      intro child member
      apply ih child member
      intro node inside
      exact absent node (List.mem_cons_of_mem _ (List.mem_flatMap.mpr ⟨child, member, inside⟩))

theorem route?_of_follow? {tree node : Node} {route : List Nat} (distinct : tree.Distinct)
    (leads : tree.follow? route = some node) : route? node.id tree = some route := by
  induction route generalizing tree with
  | nil =>
      cases leads
      rw [route?_eq, if_pos rfl]
  | cons index rest ih =>
      obtain ⟨child, stands, onward⟩ := Option.bind_eq_some_iff.mp leads
      obtain ⟨before, after, children, rfl⟩ := Node.exists_split_of_getElem? stands
      obtain ⟨inner, apart⟩ := distinct.split children
      obtain ⟨above, beside⟩ := apart node (Node.mem_preorder_iff.mpr ⟨rest, onward⟩)
      rw [route?_eq, if_neg above, children,
        routes?_append (fun sibling member => route?_eq_none (beside sibling member)) (ih inner onward),
        Nat.zero_add]

theorem atNode?_of_child {tree parent child : Node} {index : Nat} (distinct : tree.Distinct)
    (inside : parent ∈ tree.preorder) (stands : parent.children[index]? = some child) :
    ∃ place, atNode? tree child.id = some place ∧ place.node = child ∧
      place.parent?.map Cursor.node = some parent ∧ place.index? = some index ∧
      place.nextSibling?.map Cursor.node = parent.children[index + 1]? := by
  obtain ⟨route, leads⟩ := Node.mem_preorder_iff.mp inside
  have down : (start tree).node.follow? route = some parent := leads
  obtain ⟨above, reached, rfl⟩ := exists_follow down
  obtain ⟨before, after, children, rfl⟩ := Node.exists_split_of_getElem? stands
  have whole : tree.follow? (route ++ [before.length]) = some child := by
    rw [Node.follow?_append, leads, Option.bind_some, Node.follow?, stands]
    rfl
  have found : atNode? tree child.id =
      some ⟨child, ⟨above.node.label, before.reverse, after⟩ :: above.trail⟩ := by
    rw [atNode?, route?_of_follow? distinct whole, Option.bind_some, follow_append reached, follow,
      child?_eq children]
    rfl
  refine ⟨_, found, rfl, ?_, ?_, ?_⟩
  · change some (Node.mk above.node.label (before.reverse.reverse ++ child :: after)) = some above.node
    rw [List.reverse_reverse, ← children]
    obtain ⟨⟨label, nodes⟩, trail⟩ := above
    rfl
  · rw [index?, List.head?_cons, Option.map_some, List.length_reverse]
  · rw [children, List.getElem?_append_right (by omega), Nat.add_sub_cancel_left]
    cases after with
    | nil => rfl
    | cons next others => rfl

end Cursor

namespace Node

/-- Parents, places among the siblings and fields agree with the lists of children. -/
structure Linked (tree : Node) : Prop where
  top : tree.parentIn? tree = none
  parent : ∀ parent ∈ tree.preorder, ∀ child ∈ parent.children, tree.parentIn? child = some parent
  index : ∀ parent ∈ tree.preorder, ∀ index child, parent.children[index]? = some child →
    ∃ place, Cursor.atNode? tree child.id = some place ∧ place.node = child ∧
      place.parent?.map Cursor.node = some parent ∧ place.index? = some index ∧
      place.nextSibling?.map Cursor.node = parent.children[index + 1]?
  field : ∀ parent ∈ tree.preorder, ∀ name indexes, (name, indexes) ∈ parent.fieldMap →
    ∀ index, index ∈ indexes ↔ parent.children[index]?.bind Node.field = some name
  listed : ∀ parent ∈ tree.preorder, ∀ index, parent.fieldAt index = parent.children[index]?.bind Node.field

theorem Distinct.linked {tree : Node} (distinct : tree.Distinct) : tree.Linked where
  top := parentIn?_self distinct
  parent := fun _ inside _ member => parentIn?_of_child distinct inside member
  index := fun _ inside _ _ stands => Cursor.atNode?_of_child distinct inside stands
  field := fun _ _ _ _ member => listed_iff member
  listed := fun parent _ => parent.fieldAt_eq

end Node

end Arborist
