import Arborist.Proofs.Tree.Ancestry
import Arborist.Tree.Locate

/-!
Paths against walks.  A path is found on the way up from a node and a walk comes to the node on the way
down; both pass over the nodes of one route and tell the same fields.
-/

namespace Arborist.Node

variable {sight : Sight} {start : Node} {route : List Nat}

variable {σ : Type}

/-! What is told on a walk. -/

def noting (visit : Visitor σ) : Visitor (σ × List Sight) := fun node field depth noted =>
  ((visit node field depth noted.1).1, (visit node field depth noted.1).2,
    noted.2 ++ [⟨node, field, depth⟩])

/-- All that a visitor is told on a walk, whatever it answers. -/
def told (start : Node) (visit : Visitor σ) (state : σ) : List Sight :=
  (start.walk (noting visit) (state, [])).2

theorem noted_visitEach {visit : Visitor σ} {depth : Nat} {nodes : List Node}
    (each : ∀ node ∈ nodes, ∀ noted, sight ∈ (node.visitAll (noting visit) node.field depth noted).2 →
      sight ∈ noted.2 ∨ ∃ route, node.sightFrom? node.field depth route = some sight)
    {noted : σ × List Sight} (after : sight ∈ (visitEach (noting visit) depth noted nodes).2) :
    sight ∈ noted.2 ∨ ∃ node ∈ nodes, ∃ route, node.sightFrom? node.field depth route = some sight := by
  induction nodes generalizing noted with
  | nil => exact .inl after
  | cons node rest ih =>
      rw [visitEach] at after
      rcases ih (fun other member => each other (List.mem_cons_of_mem _ member)) after with
        inFirst | ⟨other, member, route, seen⟩
      · apply (each node List.mem_cons_self noted inFirst).imp_right
        intro found
        exact ⟨node, List.mem_cons_self, found⟩
      · exact .inr ⟨other, List.mem_cons_of_mem _ member, route, seen⟩

theorem noted_visitAll {visit : Visitor σ} {field : Option String} {depth : Nat} {noted : σ × List Sight}
    (after : sight ∈ (start.visitAll (noting visit) field depth noted).2) :
    sight ∈ noted.2 ∨ ∃ route, start.sightFrom? field depth route = some sight := by
  induction start using childInduction generalizing field depth noted with
  | step start ih =>
      have here (told : sight ∈ noted.2 ++ [⟨start, field, depth⟩]) :
          sight ∈ noted.2 ∨ ∃ route, start.sightFrom? field depth route = some sight := by
        apply (List.mem_append.mp told).imp_right
        intro last
        obtain rfl := List.mem_singleton.mp last
        exact ⟨[], rfl⟩
      cases goes : (noting visit start field depth noted).1 with
      | false =>
          rw [visitAll_of_stays (Prod.ext goes rfl)] at after
          exact here after
      | true =>
          rw [visitAll_of_goes (Prod.ext goes rfl)] at after
          rcases noted_visitEach (fun child member _ => ih child member) after with
            earlier | ⟨child, member, route, seen⟩
          · exact here earlier
          · obtain ⟨index, stands⟩ := List.mem_iff_getElem?.mp member
            refine .inr ⟨index :: route, ?_⟩
            rw [sightFrom?, stands, Option.bind_some, seen]

theorem exists_route_of_told {visit : Visitor σ} {state : σ} (among : sight ∈ start.told visit state) :
    ∃ route, start.sight? route = some sight := by
  rw [told, walk_eq_visitAll] at among
  rcases noted_visitAll among with before | ⟨route, seen⟩
  · cases before
  · exact ⟨route, (sight?_eq start route).trans seen⟩

theorem fieldOn_eq_field {start node : Node} (leads : start.follow? route = some node) (below : route ≠ []) :
    start.fieldOn route = node.field := by
  induction route generalizing start with
  | nil => exact absurd rfl below
  | cons index rest ih =>
      obtain ⟨child, stands, onward⟩ := Option.bind_eq_some_iff.mp leads
      rw [fieldOn_cons stands]
      by_cases last : rest = []
      · subst last
        cases onward
        rfl
      · rw [if_neg last, ih onward last]

theorem exists_parent_of_told {visit : Visitor σ} {state : σ} (among : sight ∈ start.told visit state)
    (deep : 1 ≤ sight.depth) :
    ∃ route parent, start.follow? route = some parent ∧ sight.node ∈ parent.children ∧
      sight.depth = route.length + 1 ∧ sight.field = sight.node.field := by
  obtain ⟨whole, seen⟩ := exists_route_of_told among
  obtain ⟨node, leads, rfl⟩ := Option.map_eq_some_iff.mp seen
  have below : whole ≠ [] := List.ne_nil_of_length_pos deep
  have field := fieldOn_eq_field leads below
  obtain ⟨route, index, rfl⟩ := (List.eq_nil_or_concat' whole).resolve_left below
  rw [follow?_append] at leads
  obtain ⟨parent, reached, down⟩ := Option.bind_eq_some_iff.mp leads
  obtain ⟨child, stands, same⟩ := Option.bind_eq_some_iff.mp down
  cases same
  exact ⟨route, parent, reached, List.mem_of_getElem? stands, List.length_append, field⟩

/-! Paths. -/

variable {tree source target : Node}

def place (node : Node) : String × Option String := (node.kind, node.field)

theorem pathIn_self (tree source : Node) : tree.pathIn source source = [] := by
  simp [pathIn]

theorem pathIn_of_above {below above : List Node} (apart : source.id ≠ target.id)
    (up : ancestry? target.id tree = some (below ++ source :: above))
    (unmet : ∀ node ∈ below, node.id ≠ source.id) (lower : below ≠ []) :
    tree.pathIn source target = (source.kind, none) :: below.reverse.map place := by
  have met : (below ++ source :: above).takeWhile (fun node => node.id != source.id) = below := by
    rw [List.takeWhile_append_of_pos (by simpa using unmet), List.takeWhile_cons_of_neg (by simp),
      List.append_nil]
  have shorter : below.length < (below ++ source :: above).length := by simp
  simp only [pathIn, beq_iff_eq, if_neg apart, up, met, shorter, decide_true, if_true]
  simp [lower, place]

theorem pathIn_of_follow? (distinct : tree.Distinct) (inside : source ∈ tree.preorder)
    (leads : source.follow? route = some target) (below : route ≠ []) :
    tree.pathIn source target = (source.kind, none) :: (source.along route).tail.map place := by
  obtain ⟨top, reached⟩ := mem_preorder_iff.mp inside
  have whole : tree.follow? (top ++ route) = some target := by
    rw [follow?_append, reached, Option.bind_some, leads]
  obtain ⟨later, shape⟩ := source.along_eq_cons route
  have lower : later ≠ [] := by
    rintro rfl
    have count := length_along leads
    rw [shape, List.length_singleton] at count
    exact below (List.eq_nil_of_length_eq_zero (by omega))
  -- the nodes of the route are among those of the source, so that none of them is met twice
  have numbers : ((source :: later).map id).Nodup := by
    rw [← shape]
    exact (distinct.below inside).sublist ((source.along_sublist route).map id)
  obtain ⟨fresh, -⟩ := List.nodup_cons.mp (List.map_cons .. ▸ numbers)
  have unmet (node : Node) (member : node ∈ later) : node.id ≠ source.id := by
    intro same
    exact fresh (same ▸ List.mem_map_of_mem member)
  have last : target ∈ later := by
    have ends := along_append leads []
    rw [List.append_nil, shape] at ends
    obtain ⟨next, others, rfl⟩ := List.exists_cons_of_ne_nil lower
    rw [List.dropLast_cons_cons, List.cons_append] at ends
    rw [List.cons.inj ends |>.2]
    exact List.mem_append_right _ List.mem_cons_self
  have up := ancestry?_of_follow? distinct whole
  rw [along_append reached, shape, List.reverse_append, List.reverse_cons, List.append_assoc,
    List.singleton_append] at up
  rw [pathIn_of_above (unmet target last).symm up, shape, List.tail_cons, List.reverse_reverse]
  · simpa using unmet
  · simpa using lower

theorem pathIn_of_child {parent : Node} (distinct : tree.Distinct) (inside : source ∈ tree.preorder)
    (leads : source.follow? route = some parent) (member : target ∈ parent.children) :
    tree.pathIn source target =
      (source.kind, none) :: (source.along route).tail.map place ++ [target.place] := by
  obtain ⟨index, stands⟩ := List.mem_iff_getElem?.mp member
  have onward : source.follow? (route ++ [index]) = some target := by
    rw [follow?_append, leads, Option.bind_some, follow?, stands]
    rfl
  obtain ⟨later, shape⟩ := source.along_eq_cons route
  rw [pathIn_of_follow? distinct inside onward (by simp), along_append_singleton leads stands, shape,
    List.cons_append, List.tail_cons, List.tail_cons, List.map_append, List.cons_append]
  rfl

/-- The path to a node that a walk comes to has a step for each level, goes from the start of the walk to
the node and its field, and goes on from the path to the parent. -/
theorem path_follows_walk (tree start : Node) (distinct : tree.Distinct) (inside : start ∈ tree.preorder) :
    tree.pathIn start start = [] ∧
    ∀ (σ : Type) (visit : Visitor σ) (state : σ), ∀ sight ∈ start.told visit state, 1 ≤ sight.depth →
      (tree.pathIn start sight.node).length = sight.depth + 1 ∧
      (tree.pathIn start sight.node).head? = some (start.kind, none) ∧
      (tree.pathIn start sight.node).getLast? = some (sight.node.kind, sight.field) ∧
      ∃ parent, tree.parentIn? sight.node = some parent ∧ (2 ≤ sight.depth →
        tree.pathIn start sight.node = tree.pathIn start parent ++ [(sight.node.kind, sight.field)]) := by
  refine ⟨pathIn_self tree start, fun σ visit state sight among deep => ?_⟩
  obtain ⟨route, parent, leads, member, depth, field⟩ := exists_parent_of_told among deep
  have path := pathIn_of_child distinct inside leads member
  rw [path, depth, field]
  refine ⟨?_, rfl, List.getLast?_concat, parent, ?_, ?_⟩
  · rw [List.length_append, List.length_cons, List.length_map, List.length_tail, length_along leads]
    rfl
  · have within := mem_preorder_trans inside (mem_preorder_iff.mpr ⟨route, leads⟩)
    exact parentIn?_of_child distinct within member
  · intro deeper
    rw [pathIn_of_follow? distinct inside leads (List.ne_nil_of_length_pos (by omega))]
    rfl

def calling : Node := .mk { labelled 4 "call" 10 13 with field := some "value" } []

def calledIn : Node :=
  .mk (labelled 1 "function_definition" 0 13)
    [.mk { labelled 2 "identifier" 4 5 with field := some "name" } [],
      .mk { labelled 3 "block" 10 13 with field := some "body" } [calling]]

/-- The walk from a function that is not the root comes to the call at depth two. -/
theorem path_to_calling :
    ∃ tree parent : Node, tree.Distinct ∧ calledIn ∈ tree.preorder ∧
      ⟨calling, some "value", 2⟩ ∈ calledIn.told (fun _ _ _ count => (true, count + 1)) 0 ∧
      tree.parentIn? calling = some parent ∧
      tree.pathIn calledIn calling = tree.pathIn calledIn parent ++ [("call", some "value")] ∧
      (tree.pathIn calledIn calling).length = 3 := by
  let tree : Node := .mk (labelled 0 "module" 0 13) [calledIn]
  have distinct : tree.Distinct := by
    rw [Distinct]
    decide
  have inside : calledIn ∈ tree.preorder := .tail _ (.head _)
  have among : ⟨calling, some "value", 2⟩ ∈ calledIn.told (fun _ _ _ count => (true, count + 1)) 0 := by
    rw [told, walk_eq_visitAll]
    exact .tail _ (.tail _ (.tail _ (.head _)))
  obtain ⟨-, follows⟩ := path_follows_walk tree calledIn distinct inside
  obtain ⟨steps, -, -, parent, up, onward⟩ := follows Nat _ 0 _ among (by decide)
  exact ⟨tree, parent, distinct, inside, among, up, onward (by decide), steps⟩

end Arborist.Node
