import Mathlib.Data.List.Basic
import Arborist.Tree.Node

/-!
Routes through a tree.  A route is the list of the child indexes on the way from a node to one below it.
Routes in the order of their indexes lead to the nodes in preorder, and nodes that stand at two places
are told apart by their routes.
-/

namespace Arborist.Node

@[elab_as_elim]
theorem childInduction {motive : Node → Prop}
    (step : ∀ node, (∀ child ∈ node.children, motive child) → motive node) : ∀ node, motive node
  | .mk label children => step (.mk label children) fun child member =>
      have _smaller : child ∈ children := member
      childInduction step child

theorem preorders_eq_flatMap (nodes : List Node) : preorders nodes = nodes.flatMap preorder := by
  induction nodes with
  | nil => rfl
  | cons node rest ih => rw [preorders, ih, List.flatMap_cons]

theorem preorder_eq (node : Node) : node.preorder = node :: node.children.flatMap preorder := by
  obtain ⟨label, children⟩ := node
  rw [preorder, preorders_eq_flatMap]
  rfl

theorem mem_preorder_self (node : Node) : node ∈ node.preorder := by
  rw [preorder_eq]
  exact List.mem_cons_self

theorem mem_preorder_of_child {root place child : Node} (inside : place ∈ root.preorder)
    (member : child ∈ place.children) : child ∈ root.preorder := by
  induction root using childInduction with
  | step root ih =>
      rw [preorder_eq] at inside ⊢
      apply List.mem_cons_of_mem
      rcases List.mem_cons.mp inside with rfl | below
      · exact List.mem_flatMap.mpr ⟨child, member, child.mem_preorder_self⟩
      · obtain ⟨top, among, lower⟩ := List.mem_flatMap.mp below
        exact List.mem_flatMap.mpr ⟨top, among, ih top among lower⟩

def follow? (node : Node) : List Nat → Option Node
  | [] => some node
  | index :: rest => node.children[index]?.bind fun child => child.follow? rest

mutual

def routes : Node → List (List Nat)
  | .mk _ children => [] :: routesFrom 0 children

def routesFrom (index : Nat) : List Node → List (List Nat)
  | [] => []
  | node :: rest => (routes node).map (List.cons index) ++ routesFrom (index + 1) rest

end

theorem routesFrom_eq_flatMap (index : Nat) (nodes : List Node) :
    routesFrom index nodes =
      (nodes.zipIdx index).flatMap fun (node, place) => node.routes.map (List.cons place) := by
  induction nodes generalizing index with
  | nil => rfl
  | cons node rest ih => rw [routesFrom, ih, List.zipIdx_cons, List.flatMap_cons]

theorem routes_eq (node : Node) :
    node.routes = [] :: node.children.zipIdx.flatMap fun (child, index) =>
      child.routes.map (List.cons index) := by
  obtain ⟨label, children⟩ := node
  rw [routes, routesFrom_eq_flatMap]
  rfl

theorem cons_mem_routes_iff {node : Node} {index : Nat} {rest : List Nat} :
    index :: rest ∈ node.routes ↔ ∃ child, node.children[index]? = some child ∧ rest ∈ child.routes := by
  rw [routes_eq]
  constructor
  · intro listed
    have below := List.mem_of_ne_of_mem (List.cons_ne_nil index rest) listed
    obtain ⟨⟨child, place⟩, among, made⟩ := List.mem_flatMap.mp below
    obtain ⟨route, member, same⟩ := List.mem_map.mp made
    cases same
    exact ⟨child, List.mk_mem_zipIdx_iff_getElem?.mp among, member⟩
  · intro below
    obtain ⟨child, stands, member⟩ := below
    apply List.mem_cons_of_mem
    have among := List.mk_mem_zipIdx_iff_getElem?.mpr stands
    exact List.mem_flatMap.mpr ⟨(child, index), among, List.mem_map_of_mem member⟩

theorem mem_routes_iff {node : Node} {route : List Nat} :
    route ∈ node.routes ↔ ∃ found, node.follow? route = some found := by
  induction route generalizing node with
  | nil =>
      rw [routes_eq]
      exact ⟨fun _ => ⟨node, rfl⟩, fun _ => List.mem_cons_self⟩
  | cons index rest ih =>
      rw [cons_mem_routes_iff]
      simp only [ih, follow?, Option.bind_eq_some_iff]
      exact ⟨fun ⟨child, stands, found, leads⟩ => ⟨found, child, stands, leads⟩,
        fun ⟨found, child, stands, leads⟩ => ⟨child, stands, found, leads⟩⟩

theorem pairwise_zipIdx (nodes : List Node) : nodes.zipIdx.Pairwise fun left right => left.2 < right.2 := by
  rw [← List.pairwise_map (R := (· < ·)), List.zipIdx_map_snd]
  exact List.pairwise_lt_range' 1

/-- Routes are listed in the order of their indexes, and none of them twice. -/
theorem pairwise_routes (node : Node) : node.routes.Pairwise (· < ·) := by
  induction node using childInduction with
  | step node ih =>
      rw [routes_eq, List.pairwise_cons, List.pairwise_flatMap]
      refine ⟨?_, ?_, ?_⟩
      · intro route listed
        obtain ⟨⟨child, index⟩, -, made⟩ := List.mem_flatMap.mp listed
        obtain ⟨rest, -, rfl⟩ := List.mem_map.mp made
        exact List.nil_lt_cons index rest
      · intro item among
        obtain ⟨child, index⟩ := item
        have stands : node.children[index]? = some child := List.mk_mem_zipIdx_iff_getElem?.mp among
        rw [List.pairwise_map]
        apply (ih child (List.mem_of_getElem? stands)).imp
        intro left right less
        exact List.cons_lt_cons_iff.mpr (.inr ⟨rfl, less⟩)
      · apply (pairwise_zipIdx node.children).imp
        intro left right less route listed other alsoListed
        obtain ⟨rest, -, rfl⟩ := List.mem_map.mp listed
        obtain ⟨otherRest, -, rfl⟩ := List.mem_map.mp alsoListed
        exact List.cons_lt_cons_iff.mpr (.inl less)

theorem flatMap_zipIdx (nodes : List Node) (list : Node → List α) :
    nodes.zipIdx.flatMap (fun item => list item.1) = nodes.flatMap list := by
  rw [← List.flatMap_map, List.zipIdx_map_fst]

theorem filterMap_follow?_routes (node : Node) : node.routes.filterMap node.follow? = node.preorder := by
  induction node using childInduction with
  | step node ih =>
      rw [routes_eq, List.filterMap_cons_some (follow?.eq_1 node), List.filterMap_flatMap, preorder_eq,
        ← flatMap_zipIdx node.children]
      congr 1
      apply List.flatMap_congr
      intro item among
      obtain ⟨child, index⟩ := item
      have stands : node.children[index]? = some child := List.mk_mem_zipIdx_iff_getElem?.mp among
      rw [List.filterMap_map, ← ih child (List.mem_of_getElem? stands)]
      congr 1
      funext rest
      simp only [Function.comp_apply, follow?, stands, Option.bind_some]

end Arborist.Node
