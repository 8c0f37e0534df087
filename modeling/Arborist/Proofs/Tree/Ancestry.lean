import Arborist.Proofs.Tree.Visits

/-!
The way up from a node.  In a tree whose nodes have different numbers, what is above a node is what stands
on the route to it, so that its parent is the node one step before.
-/

namespace Arborist.Node

variable {route : List Nat} {index : Nat} {tree node : Node}

def Distinct (tree : Node) : Prop := (tree.preorder.map id).Nodup

theorem mem_preorder_iff :
    node ∈ tree.preorder ↔ ∃ route, tree.follow? route = some node := by
  rw [← filterMap_follow?_routes, List.mem_filterMap]
  constructor
  · intro listed
    obtain ⟨route, -, leads⟩ := listed
    exact ⟨route, leads⟩
  · intro reached
    obtain ⟨route, leads⟩ := reached
    exact ⟨route, mem_routes_iff.mpr ⟨node, leads⟩, leads⟩

theorem mem_preorder_trans {tree middle node : Node} (inside : middle ∈ tree.preorder)
    (below : node ∈ middle.preorder) : node ∈ tree.preorder := by
  obtain ⟨first, reached⟩ := mem_preorder_iff.mp inside
  obtain ⟨second, leads⟩ := mem_preorder_iff.mp below
  apply mem_preorder_iff.mpr
  refine ⟨first ++ second, ?_⟩
  rw [follow?_append, reached, Option.bind_some, leads]

theorem exists_split_of_getElem? {nodes : List Node} {node : Node} (stands : nodes[index]? = some node) :
    ∃ before after, nodes = before ++ node :: after ∧ before.length = index := by
  obtain ⟨bound, rfl⟩ := List.getElem?_eq_some_iff.mp stands
  refine ⟨nodes.take index, nodes.drop (index + 1), ?_, List.length_take_of_le (Nat.le_of_lt bound)⟩
  rw [← List.drop_eq_getElem_cons bound, List.take_append_drop]

/-! Numbers. -/

theorem Distinct.split {tree child : Node} {before after : List Node} (distinct : tree.Distinct)
    (children : tree.children = before ++ child :: after) :
    child.Distinct ∧ ∀ node ∈ child.preorder, tree.id ≠ node.id ∧
      ∀ sibling ∈ before, ∀ other ∈ sibling.preorder, other.id ≠ node.id := by
  rw [Distinct, preorder_eq, children, List.map_cons, List.nodup_cons, List.flatMap_append, List.flatMap_cons,
    List.map_append, List.map_append, List.nodup_append, List.nodup_append] at distinct
  obtain ⟨fresh, -, ⟨inner, -, -⟩, apart⟩ := distinct
  refine ⟨inner, fun node inside => ⟨?_, ?_⟩⟩
  · intro same
    apply fresh
    rw [same]
    exact List.mem_append_right _ (List.mem_append_left _ (List.mem_map_of_mem inside))
  · intro sibling member other within
    apply apart _ (List.mem_map_of_mem (List.mem_flatMap.mpr ⟨sibling, member, within⟩))
    exact List.mem_append_left _ (List.mem_map_of_mem inside)

theorem Distinct.child {tree child : Node} (distinct : tree.Distinct) (member : child ∈ tree.children) :
    child.Distinct := by
  obtain ⟨before, after, children⟩ := List.append_of_mem member
  exact (distinct.split children).1

theorem Distinct.below (distinct : tree.Distinct) (inside : node ∈ tree.preorder) :
    node.Distinct := by
  induction tree using childInduction with
  | step tree ih =>
      rw [preorder_eq] at inside
      rcases List.mem_cons.mp inside with rfl | lower
      · exact distinct
      · obtain ⟨child, member, within⟩ := List.mem_flatMap.mp lower
        exact ih child member (distinct.child member) within

/-! The nodes on a route. -/

def along (start : Node) : List Nat → List Node
  | [] => [start]
  | index :: rest => start :: start.children[index]?.elim [] fun child => child.along rest

theorem along_cons {start child : Node} (stands : start.children[index]? = some child) (rest : List Nat) :
    start.along (index :: rest) = start :: child.along rest := by
  rw [along, stands, Option.elim_some]

theorem along_eq_cons (start : Node) (route : List Nat) : ∃ rest, start.along route = start :: rest := by
  cases route with
  | nil => exact ⟨[], rfl⟩
  | cons index rest => exact ⟨_, rfl⟩

theorem along_append {start node : Node} (leads : start.follow? route = some node) (rest : List Nat) :
    start.along (route ++ rest) = (start.along route).dropLast ++ node.along rest := by
  induction route generalizing start with
  | nil =>
      cases leads
      rfl
  | cons index others ih =>
      obtain ⟨child, stands, onward⟩ := Option.bind_eq_some_iff.mp leads
      obtain ⟨later, shape⟩ := child.along_eq_cons others
      rw [List.cons_append, along_cons stands, along_cons stands, ih onward, shape, List.dropLast_cons_cons,
        List.cons_append]

theorem along_append_singleton {start node child : Node} (leads : start.follow? route = some node)
    (stands : node.children[index]? = some child) :
    start.along (route ++ [index]) = start.along route ++ [child] := by
  have last := along_append leads []
  rw [List.append_nil] at last
  rw [along_append leads, along_cons stands]
  nth_rewrite 2 [last]
  rw [List.append_assoc]
  rfl

theorem length_along {start node : Node} (leads : start.follow? route = some node) :
    (start.along route).length = route.length + 1 := by
  induction route generalizing start with
  | nil => rfl
  | cons index others ih =>
      obtain ⟨child, stands, onward⟩ := Option.bind_eq_some_iff.mp leads
      rw [along_cons stands, List.length_cons, ih onward, List.length_cons]

theorem along_sublist (start : Node) (route : List Nat) : (start.along route).Sublist start.preorder := by
  induction route generalizing start with
  | nil =>
      rw [preorder_eq]
      exact List.singleton_sublist.mpr List.mem_cons_self
  | cons index others ih =>
      rw [along, preorder_eq]
      apply List.Sublist.cons_cons
      cases stands : start.children[index]? with
      | none => exact List.nil_sublist _
      | some child =>
          have member := List.mem_of_getElem? stands
          rw [List.flatMap_def]
          exact (ih child).trans (List.sublist_flatten_of_mem (List.mem_map_of_mem member))

/-! Going up. -/

theorem ancestries?_eq_findSome? (number : Nat) (nodes : List Node) :
    ancestries? number nodes = nodes.findSome? ( ancestry? number) := by
  induction nodes with
  | nil => rfl
  | cons node rest ih =>
      rw [ancestries?, List.findSome?_cons, ih]
      cases ancestry? number node <;> rfl

theorem ancestry?_eq (number : Nat) (tree : Node) :
    ancestry? number tree = if tree.id = number then some [tree]
      else (tree.children.findSome? ( ancestry? number)).map fun trail => trail ++ [tree] := by
  obtain ⟨label, children⟩ := tree
  rw [ ancestry?, ancestries?_eq_findSome?]
  simp only [beq_iff_eq]
  rfl

theorem ancestry?_eq_none {number : Nat} {tree : Node} (absent : ∀ node ∈ tree.preorder, node.id ≠ number) :
    ancestry? number tree = none := by
  induction tree using childInduction with
  | step tree ih =>
      rw [preorder_eq] at absent
      rw [ancestry?_eq, if_neg (absent tree List.mem_cons_self), Option.map_eq_none_iff,
        List.findSome?_eq_none_iff]
      intro child member
      apply ih child member
      intro node inside
      exact absent node (List.mem_cons_of_mem _ (List.mem_flatMap.mpr ⟨child, member, inside⟩))

theorem ancestry?_of_follow? (distinct : tree.Distinct) (leads : tree.follow? route = some node) :
    ancestry? node.id tree = some (tree.along route).reverse := by
  induction route generalizing tree with
  | nil =>
      cases leads
      rw [ancestry?_eq, if_pos rfl]
      rfl
  | cons index rest ih =>
      obtain ⟨child, stands, onward⟩ := Option.bind_eq_some_iff.mp leads
      obtain ⟨before, after, children⟩ := List.append_of_mem (List.mem_of_getElem? stands)
      obtain ⟨inner, apart⟩ := distinct.split children
      obtain ⟨above, beside⟩ := apart node (mem_preorder_iff.mpr ⟨rest, onward⟩)
      have earlier : before.findSome? ( ancestry? node.id) = none := by
        rw [List.findSome?_eq_none_iff]
        exact fun sibling member => ancestry?_eq_none (beside sibling member)
      rw [ancestry?_eq, if_neg above, children, List.findSome?_append, earlier, Option.none_or,
        List.findSome?_cons, ih inner onward, along_cons stands, List.reverse_cons]
      rfl

theorem parentIn?_self {tree : Node} (distinct : tree.Distinct) : tree.parentIn? tree = none := by
  have up := ancestry?_of_follow? distinct (follow?.eq_1 tree)
  rw [parentIn?, up]
  rfl

theorem parentIn?_of_follow? {tree parent child : Node} (distinct : tree.Distinct)
    (leads : tree.follow? route = some parent) (stands : parent.children[index]? = some child) :
    tree.parentIn? child = some parent := by
  have reached : tree.follow? (route ++ [index]) = some child := by
    rw [follow?_append, leads, Option.bind_some, follow?, stands]
    rfl
  have up := ancestry?_of_follow? distinct reached
  rw [along_append leads, along_cons stands, List.reverse_append] at up
  rw [parentIn?, up]
  rfl

theorem parentIn?_of_child {tree parent child : Node} (distinct : tree.Distinct)
    (inside : parent ∈ tree.preorder) (member : child ∈ parent.children) :
    tree.parentIn? child = some parent := by
  obtain ⟨route, leads⟩ := mem_preorder_iff.mp inside
  obtain ⟨index, stands⟩ := List.mem_iff_getElem?.mp member
  exact parentIn?_of_follow? distinct leads stands

end Arborist.Node
