import Arborist.Proofs.Tree.Routes
import Arborist.Proofs.Tree.Walking

/-!
What a walk sees.  The routes are gone through in their order, and one is passed over if on the way there
the visitor has refused to go on.  The field that is told is the first one under which the fields of the
parent list the node.
-/

namespace Arborist.Node

/-! Fields. -/

/-- Each field with the indexes of the children that fill it, in the order in which the fields first come. -/
def fieldMap (node : Node) : List (String × List Nat) :=
  (node.children.filterMap field).eraseDups.map fun name =>
    (name, (node.children.zipIdx.filter fun (child, _) => child.field == some name).map Prod.snd)

def fieldAt (node : Node) (index : Nat) : Option String :=
  (node.fieldMap.find? fun (_, indexes) => indexes.contains index).map Prod.fst

theorem listed_iff {node : Node} {name : String} {indexes : List Nat} (member : (name, indexes) ∈ node.fieldMap)
    (index : Nat) : index ∈ indexes ↔ node.children[index]?.bind field = some name := by
  obtain ⟨other, -, same⟩ := List.mem_map.mp member
  cases same
  simp only [List.mem_map, List.mem_filter, beq_iff_eq, Prod.exists, List.mk_mem_zipIdx_iff_getElem?,
    Option.bind_eq_some_iff]
  constructor
  · intro listed
    obtain ⟨child, place, ⟨stands, filled⟩, rfl⟩ := listed
    exact ⟨child, stands, filled⟩
  · intro stands
    obtain ⟨child, stands, filled⟩ := stands
    exact ⟨child, index, ⟨stands, filled⟩, rfl⟩

theorem fieldAt_eq (node : Node) (index : Nat) : node.fieldAt index = node.children[index]?.bind field := by
  unfold fieldAt
  cases found : node.fieldMap.find? fun (_, indexes) => indexes.contains index with
  | some entry =>
      obtain ⟨name, indexes⟩ := entry
      have listed : index ∈ indexes := by simpa using List.find?_some found
      exact ((listed_iff (List.mem_of_find?_eq_some found) index).mp listed).symm
  | none =>
      cases filled : node.children[index]?.bind field with
      | none => rfl
      | some name =>
          -- the field of the child has an entry, which would have been found
          obtain ⟨child, stands, named⟩ := Option.bind_eq_some_iff.mp filled
          have known : name ∈ (node.children.filterMap field).eraseDups :=
            List.mem_eraseDups.mpr (List.mem_filterMap.mpr ⟨child, List.mem_of_getElem? stands, named⟩)
          have member := List.mem_map_of_mem known (f := fun name =>
            (name, (node.children.zipIdx.filter fun (child, _) => child.field == some name).map Prod.snd))
          have unlisted := List.find?_eq_none.mp found _ member
          have listed := (listed_iff member index).mpr filled
          simp only [List.contains_iff_mem] at unlisted
          exact absurd listed unlisted

def fieldOn (start : Node) (route : List Nat) : Option String := do
  let index ← route.getLast?
  let parent ← start.follow? route.dropLast
  parent.fieldAt index

theorem fieldOn_cons {start child : Node} {index : Nat} (stands : start.children[index]? = some child)
    (rest : List Nat) : start.fieldOn (index :: rest) = if rest = [] then child.field else child.fieldOn rest := by
  cases rest with
  | nil =>
      change start.fieldAt index = child.field
      rw [fieldAt_eq, stands, Option.bind_some]
  | cons next others =>
      simp only [fieldOn, List.getLast?_cons_cons, List.dropLast_cons_cons, follow?, stands, Option.bind_some,
        reduceCtorEq, if_false]

/-! Sights. -/

structure Sight where
  node : Node
  field : Option String
  depth : Nat

def sight? (start : Node) (route : List Nat) : Option Sight :=
  (start.follow? route).map fun node => ⟨node, start.fieldOn route, route.length⟩

def sightFrom? (field : Option String) (depth : Nat) (start : Node) : List Nat → Option Sight
  | [] => some ⟨start, field, depth⟩
  | index :: rest => start.children[index]?.bind fun child => child.sightFrom? child.field (depth + 1) rest

theorem sightFrom?_eq (field : Option String) (depth : Nat) (start : Node) (route : List Nat) :
    start.sightFrom? field depth route = (start.follow? route).map fun node =>
      ⟨node, if route = [] then field else start.fieldOn route, depth + route.length⟩ := by
  induction route generalizing field depth start with
  | nil => rfl
  | cons index rest ih =>
      cases stands : start.children[index]? with
      | none => simp only [sightFrom?, follow?, stands, Option.bind_none, Option.map_none]
      | some child =>
          simp only [sightFrom?, follow?, stands, Option.bind_some, ih, fieldOn_cons stands, reduceCtorEq,
            if_false, List.length_cons, Nat.add_assoc, Nat.add_comm 1]

theorem sight?_eq (start : Node) (route : List Nat) : start.sight? route = start.sightFrom? none 0 route := by
  rw [sightFrom?_eq, sight?]
  simp only [Nat.zero_add]
  cases route with
  | nil => rfl
  | cons index rest => simp only [reduceCtorEq, if_false]

/-! Visits. -/

/-- Whether the visitor goes on at every node above the end of a route. -/
def opens (answer : Sight → Bool) (start : Node) (route : List Nat) : Bool :=
  (List.range route.length).all fun steps => (start.sight? (route.take steps)).any answer

def visits (answer : Sight → Bool) (start : Node) : List Sight :=
  (start.routes.filter (start.opens answer)).filterMap start.sight?

section From

variable (answer : Sight → Bool) (field : Option String) (depth : Nat) (start : Node)

def opensFrom (route : List Nat) : Bool :=
  (List.range route.length).all fun steps => (start.sightFrom? field depth (route.take steps)).any answer

def visitsFrom : List Sight :=
  (start.routes.filter (start.opensFrom answer field depth)).filterMap (start.sightFrom? field depth)

theorem visits_eq : start.visits answer = start.visitsFrom answer none 0 := by
  have sights : start.sight? = start.sightFrom? none 0 := by
    funext route
    exact start.sight?_eq route
  rw [visits, visitsFrom, ← sights]
  congr 2
  funext route
  simp only [opens, opensFrom, sights]

theorem opensFrom_cons {child : Node} {index : Nat} (stands : start.children[index]? = some child)
    (rest : List Nat) : start.opensFrom answer field depth (index :: rest) =
      (answer ⟨start, field, depth⟩ && child.opensFrom answer child.field (depth + 1) rest) := by
  simp only [opensFrom, List.length_cons, List.range_succ_eq_map, List.all_cons, List.all_map, List.take_zero,
    sightFrom?, Option.any_some, Function.comp_def, List.take_succ_cons, stands, Option.bind_some]

theorem visitsFrom_eq : start.visitsFrom answer field depth = ⟨start, field, depth⟩ ::
    if answer ⟨start, field, depth⟩ then
      start.children.flatMap fun child => child.visitsFrom answer child.field (depth + 1)
    else [] := by
  have atStart : start.opensFrom answer field depth [] = true := rfl
  rw [visitsFrom, routes_eq, List.filter_cons_of_pos atStart, List.filterMap_cons_some (sightFrom?.eq_1 ..), List.filter_flatMap,
    List.filterMap_flatMap]
  congr 1
  have below (child : Node) (index : Nat) (stands : start.children[index]? = some child) :
      ((child.routes.map (List.cons index)).filter (start.opensFrom answer field depth)).filterMap
          (start.sightFrom? field depth) =
        if answer ⟨start, field, depth⟩ then child.visitsFrom answer child.field (depth + 1) else [] := by
    have seen : start.sightFrom? field depth ∘ List.cons index =
        child.sightFrom? child.field (depth + 1) := by
      funext rest
      simp only [Function.comp_apply, sightFrom?, stands, Option.bind_some]
    have opened : start.opensFrom answer field depth ∘ List.cons index = fun rest =>
        answer ⟨start, field, depth⟩ && child.opensFrom answer child.field (depth + 1) rest := by
      funext rest
      exact start.opensFrom_cons answer field depth stands rest
    rw [List.filter_map, List.filterMap_map, seen, opened, visitsFrom]
    cases answer ⟨start, field, depth⟩ with
    | true => simp only [Bool.true_and, if_true]
    | false => simp only [Bool.false_and, List.filter_false, List.filterMap_nil, Bool.false_eq_true, if_false]
  rw [List.flatMap_congr fun item among => below item.1 item.2 (List.mem_zipIdx_iff_getElem?.mp among),
    flatMap_zipIdx start.children fun child =>
      if answer ⟨start, field, depth⟩ then child.visitsFrom answer child.field (depth + 1) else []]
  cases answer ⟨start, field, depth⟩ with
  | true => rfl
  | false => simp

end From

section Walk

variable {σ : Type} {visit : Visitor σ} {answer : Sight → Bool}

theorem visitEach_eq_foldl (visit : Visitor σ) (depth : Nat) (nodes : List Node) (state : σ) :
    visitEach visit depth state nodes =
      nodes.foldl (fun state node => node.visitAll visit node.field depth state) state := by
  induction nodes generalizing state with
  | nil => rfl
  | cons node rest ih => rw [visitEach, ih, List.foldl_cons]

/-- A visitor whose answers do not depend on what it has noted. -/
theorem visitAll_eq_foldl
    (answers : ∀ node field depth state, (visit node field depth state).1 = answer ⟨node, field, depth⟩)
    (start : Node) (field : Option String) (depth : Nat) (state : σ) :
    start.visitAll visit field depth state = (start.visitsFrom answer field depth).foldl
      (fun state sight => (visit sight.node sight.field sight.depth state).2) state := by
  induction start using childInduction generalizing field depth state with
  | step start ih =>
      have answered := answers start field depth state
      rw [visitsFrom_eq, List.foldl_cons]
      cases goes : answer ⟨start, field, depth⟩ with
      | false =>
          rw [visitAll_of_stays (Prod.ext (answered.trans goes) rfl)]
          rfl
      | true =>
          rw [visitAll_of_goes (Prod.ext (answered.trans goes) rfl), visitEach_eq_foldl, if_pos rfl,
            List.foldl_flatMap]
          apply List.foldl_ext
          intro state child member
          exact ih child member child.field (depth + 1) state

theorem walk_eq_foldl
    (answers : ∀ node field depth state, (visit node field depth state).1 = answer ⟨node, field, depth⟩)
    (start : Node) (state : σ) :
    start.walk visit state = (start.visits answer).foldl
      (fun state sight => (visit sight.node sight.field sight.depth state).2) state := by
  rw [walk_eq_visitAll, visitAll_eq_foldl answers, visits_eq]

end Walk

/-! What is gathered on a walk. -/

theorem follow?_append (start : Node) (route rest : List Nat) :
    start.follow? (route ++ rest) = (start.follow? route).bind fun node => node.follow? rest := by
  induction route generalizing start with
  | nil => rfl
  | cons index others ih =>
      simp only [List.cons_append, follow?]
      cases start.children[index]? with
      | none => rfl
      | some child => exact ih child

theorem opens_of_depth {answer : Sight → Bool} {start found : Node} {route : List Nat}
    (leads : start.follow? route = some found)
    (goes : ∀ sight : Sight, sight.depth < route.length → answer sight = true) :
    start.opens answer route = true := by
  rw [opens, List.all_eq_true]
  intro steps among
  have above : steps < route.length := List.mem_range.mp among
  rw [← List.take_append_drop steps route, follow?_append] at leads
  obtain ⟨node, here, -⟩ := Option.bind_eq_some_iff.mp leads
  rw [sight?, here, Option.map_some, Option.any_some]
  apply goes
  change (route.take steps).length < route.length
  rw [List.length_take]
  omega

theorem filterMap_visits {answer : Sight → Bool} {pick : Sight → Option α}
    (goes : ∀ sight above : Sight, (pick sight).isSome → above.depth < sight.depth → answer above = true)
    (start : Node) :
    (start.visits answer).filterMap pick = start.routes.filterMap fun route => (start.sight? route).bind pick := by
  rw [visits, List.filterMap_filterMap, List.filterMap_filter]
  apply List.filterMap_congr
  intro route listed
  obtain ⟨node, leads⟩ := mem_routes_iff.mp listed
  have seen : start.sight? route = some ⟨node, start.fieldOn route, route.length⟩ := by
    rw [sight?, leads, Option.map_some]
  rw [seen, Option.bind_some]
  cases picked : pick ⟨node, start.fieldOn route, route.length⟩ with
  | none => exact ite_self none
  | some item =>
      rw [if_pos]
      apply opens_of_depth leads
      intro above less
      exact goes _ above (by rw [picked]; rfl) less

theorem reverse_foldl_pick (pick : Sight → Option α) (sights : List Sight) (found : List α) :
    (sights.foldl (fun found sight => ((pick sight).map fun item => item :: found).getD found) found).reverse =
      found.reverse ++ sights.filterMap pick := by
  induction sights generalizing found with
  | nil => rw [List.foldl_nil, List.filterMap_nil, List.append_nil]
  | cons sight rest ih =>
      rw [List.foldl_cons, ih]
      cases picked : pick sight with
      | none => rw [List.filterMap_cons_none picked, Option.map_none, Option.getD_none]
      | some item =>
          rw [List.filterMap_cons_some picked, Option.map_some, Option.getD_some, List.reverse_cons,
            List.append_assoc, List.singleton_append]

theorem reverse_walk_eq {visit : Visitor (List α)} (answer : Sight → Bool) (pick : Sight → Option α)
    (visited : ∀ node field depth found, visit node field depth found = (answer ⟨node, field, depth⟩,
      ((pick ⟨node, field, depth⟩).map fun item => item :: found).getD found))
    (goes : ∀ sight above : Sight, (pick sight).isSome → above.depth < sight.depth → answer above = true)
    (start : Node) :
    (start.walk visit []).reverse = start.routes.filterMap fun route => (start.sight? route).bind pick := by
  have answers (node field depth found) : (visit node field depth found).1 = answer ⟨node, field, depth⟩ := by
    rw [visited]
  rw [walk_eq_foldl answers]
  simp only [visited]
  rw [reverse_foldl_pick, filterMap_visits goes, List.reverse_nil, List.nil_append]

theorem collect_eq_filterMap (start : Node) (find : Node → Option String → Nat → Option α) :
    start.collect find = start.routes.filterMap fun route =>
      (start.sight? route).bind fun sight => find sight.node sight.field sight.depth := by
  apply reverse_walk_eq (fun _ => true)
  · intro node field depth found
    cases find node field depth <;> rfl
  · intros
    rfl

theorem ofKind_eq_filter (start : Node) (kind : String) :
    start.ofKind kind = start.preorder.filter fun node => node.kind == kind := by
  rw [ofKind, collect_eq_filterMap, ← filterMap_follow?_routes, ← List.filterMap_eq_filter,
    List.filterMap_filterMap]
  apply List.filterMap_congr
  intro route _
  rw [sight?, Option.bind_map]
  rfl

def allows (depthLimit : Option Int) (depth : Nat) : Bool := depthLimit.all fun limit => (depth : Int) ≤ limit

theorem allows_of_le {depthLimit : Option Int} {depth less : Nat} (le : less ≤ depth)
    (allowed : allows depthLimit depth = true) : allows depthLimit less = true := by
  cases depthLimit with
  | none => rfl
  | some limit =>
      simp only [allows, Option.all_some, decide_eq_true_eq] at allowed ⊢
      omega

theorem descendants_eq_filterMap (start : Node) (depthLimit : Option Int) :
    start.descendants depthLimit = (start.routes.filter fun route =>
      1 ≤ route.length ∧ allows depthLimit route.length).filterMap start.follow? := by
  let pick (sight : Sight) : Option Node :=
    if 1 ≤ sight.depth ∧ allows depthLimit sight.depth then some sight.node else none
  have gathered : start.descendants depthLimit =
      start.routes.filterMap fun route => (start.sight? route).bind pick := by
    apply reverse_walk_eq fun sight => allows depthLimit sight.depth
    · intro node field depth found
      cases depthLimit with
      | none => by_cases top : depth = 0 <;> simp [pick, allows, top, Nat.one_le_iff_ne_zero]
      | some limit =>
          by_cases deep : limit < depth
          · simp [pick, allows, deep, Int.not_le.mpr deep]
          · have allowed : allows (some limit) depth = true := by simpa [allows] using deep
            simp only [pick, allowed, if_neg deep, and_true]
            by_cases top : depth = 0 <;> simp [top, Nat.one_le_iff_ne_zero]
    · intro sight above picked less
      by_cases counted : 1 ≤ sight.depth ∧ allows depthLimit sight.depth
      · exact allows_of_le (Nat.le_of_lt less) counted.2
      · simp [pick, counted] at picked
  rw [gathered, List.filterMap_filter]
  apply List.filterMap_congr
  intro route _
  rw [sight?, Option.bind_map]
  by_cases counted : 1 ≤ route.length ∧ allows depthLimit route.length
  · rw [if_pos (decide_eq_true counted)]
    simp [Function.comp_def, pick, counted]
  · rw [if_neg (by simpa using counted)]
    simp [Function.comp_def, pick, counted]

/-- A walk visits the nodes on whose ancestors the visitor went on, in the order of their routes, and tells
each with its field and its distance from the start.  So the nodes of a kind come in preorder, and so do
those below the start down to a depth. -/
theorem walk_visits_in_preorder (start : Node) :
    start.routes.Pairwise (· < ·) ∧
    (∀ route, route ∈ start.routes ↔ ∃ node, start.follow? route = some node) ∧
    (∀ (σ : Type) (answer : Sight → Bool) (note : Sight → σ → σ) (state : σ),
      start.walk (fun node field depth state => (answer ⟨node, field, depth⟩, note ⟨node, field, depth⟩ state))
          state = (start.visits answer).foldl (fun state sight => note sight state) state) ∧
    (∀ kind, start.ofKind kind = start.preorder.filter fun node => node.kind == kind) ∧
    ∀ depthLimit, start.descendants depthLimit = (start.routes.filter fun route =>
      1 ≤ route.length ∧ allows depthLimit route.length).filterMap start.follow? := by
  refine ⟨start.pairwise_routes, fun _ => mem_routes_iff, ?_, start.ofKind_eq_filter,
    start.descendants_eq_filterMap⟩
  intro σ answer note state
  exact walk_eq_foldl (fun _ _ _ _ => rfl) start state

end Arborist.Node
