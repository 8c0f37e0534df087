import Arborist.Tree.Walk

/-!
A walk with a cursor visits what the recursion over the tree visits, in the same order.
-/

namespace Arborist.Node

variable {σ : Type}

mutual

def visitAll (visit : Visitor σ) (field : Option String) (depth : Nat) (state : σ) : Node → σ
  | .mk label children =>
    let (goDown, state) := visit (.mk label children) field depth state
    if goDown then visitEach visit (depth + 1) state children else state

def visitEach (visit : Visitor σ) (depth : Nat) (state : σ) : List Node → σ
  | [] => state
  | node :: rest => visitEach visit depth (visitAll visit node.field depth state node) rest

end

theorem visitAll_of_goes {visit : Visitor σ} {node : Node} {field : Option String} {depth : Nat}
    {state after : σ} (visited : visit node field depth state = (true, after)) :
    node.visitAll visit field depth state = visitEach visit (depth + 1) after node.children := by
  obtain ⟨label, children⟩ := node
  simp [visitAll, visited, Node.children]

theorem visitAll_of_stays {visit : Visitor σ} {node : Node} {field : Option String} {depth : Nat}
    {state after : σ} (visited : visit node field depth state = (false, after)) :
    node.visitAll visit field depth state = after := by
  obtain ⟨label, children⟩ := node
  simp [visitAll, visited]

end Arborist.Node

namespace Arborist.Cursor

variable {σ : Type}

/-- The state after the visits to all that stands after a place, on every level of the way up. -/
def finish (visit : Visitor σ) : List Crumb → σ → σ
  | [], state => state
  | crumb :: trail, state => finish visit trail (Node.visitEach visit (trail.length + 1) state crumb.after)

/-- What is found after a place comes first of all that is left to visit; if nothing is found, nothing is
left. -/
def Continues (visit : Visitor σ) (trail : List Crumb) : Option (Cursor × Nat) → Prop
  | none => ∀ state, finish visit trail state = state
  | some (next, level) => level = next.trail.length ∧ ∀ state, finish visit trail state =
      finish visit next.trail (next.node.visitAll visit next.node.field level state)

theorem continues_of_nextSibling? (visit : Visitor σ) {cursor next : Cursor}
    (aside : cursor.nextSibling? = some next) :
    Continues visit cursor.trail (some (next, cursor.trail.length)) := by
  obtain ⟨node, trail⟩ := cursor
  match trail with
  | [] => cases aside
  | ⟨parent, before, []⟩ :: trail => cases aside
  | ⟨parent, before, sibling :: after⟩ :: trail =>
      cases aside
      exact ⟨rfl, fun _ => rfl⟩

theorem finish_of_last (visit : Visitor σ) {cursor : Cursor} (last : cursor.nextSibling? = none) (state : σ) :
    finish visit cursor.trail state = finish visit cursor.trail.tail state := by
  obtain ⟨node, trail⟩ := cursor
  match trail with
  | [] => rfl
  | ⟨parent, before, []⟩ :: trail => rfl
  | ⟨parent, before, sibling :: after⟩ :: trail => cases last

theorem Continues.of_last {visit : Visitor σ} {cursor : Cursor} (last : cursor.nextSibling? = none)
    {found : Option (Cursor × Nat)} (continues : Continues visit cursor.trail.tail found) :
    Continues visit cursor.trail found := by
  cases found with
  | none =>
      intro state
      rw [finish_of_last visit last]
      exact continues state
  | some found =>
      refine ⟨continues.1, fun state => ?_⟩
      rw [finish_of_last visit last]
      exact continues.2 state

theorem continues_climb? (visit : Visitor σ) {cursor : Cursor} (last : cursor.nextSibling? = none)
    {depth : Nat} (level : depth = cursor.trail.length) :
    Continues visit cursor.trail (cursor.climb? depth) := by
  induction depth generalizing cursor with
  | zero =>
      have top : cursor.trail = [] := List.eq_nil_of_length_eq_zero level.symm
      intro state
      rw [top]
      rfl
  | succ depth ih =>
      obtain ⟨node, trail⟩ := cursor
      cases trail with
      | nil => cases level
      | cons crumb trail =>
          apply Continues.of_last last
          obtain rfl : depth = trail.length := Nat.succ.inj level
          simp only [climb?, parent?, List.tail_cons]
          split
          next next aside => exact continues_of_nextSibling? visit aside
          next none => exact ih none rfl

theorem continues_advance? (visit : Visitor σ) (cursor : Cursor) :
    Continues visit cursor.trail (cursor.advance? cursor.trail.length) := by
  rw [advance?]
  split
  next next aside => exact continues_of_nextSibling? visit aside
  next none => exact continues_climb? visit none rfl

theorem finish_of_firstChild? (visit : Visitor σ) {cursor child : Cursor}
    (down : cursor.firstChild? = some child) (state : σ) :
    child.trail.length = cursor.trail.length + 1 ∧
    finish visit child.trail (child.node.visitAll visit child.node.field child.trail.length state) =
      finish visit cursor.trail
        (Node.visitEach visit (cursor.trail.length + 1) state cursor.node.children) := by
  obtain ⟨⟨label, children⟩, trail⟩ := cursor
  cases children with
  | nil => cases down
  | cons first others =>
      cases down
      exact ⟨rfl, rfl⟩

theorem children_of_firstChild? {cursor : Cursor} (leaf : cursor.firstChild? = none) :
    cursor.node.children = [] := by
  obtain ⟨⟨label, children⟩, trail⟩ := cursor
  cases children with
  | nil => rfl
  | cons first others => cases leaf

section Step

variable {visit : Visitor σ} {cursor : Cursor} {depth : Nat} {state after : σ} {goes : Bool}

theorem walkOn_of_firstChild? {child : Cursor}
    (visited : visit cursor.node cursor.node.field depth state = (true, after))
    (down : cursor.firstChild? = some child) :
    cursor.walkOn visit depth state = child.walkOn visit (depth + 1) after := by
  rw [walkOn, visited]
  dsimp only
  split
  next other same =>
    obtain rfl : child = other := by simpa [down] using same
    rfl
  next none => simp [down] at none

theorem walkOn_of_still (visited : visit cursor.node cursor.node.field depth state = (goes, after))
    (still : goes = false ∨ cursor.firstChild? = none) :
    cursor.walkOn visit depth state =
      (cursor.advance? depth).elim after fun (next, level) => next.walkOn visit level after := by
  rw [walkOn, visited]
  dsimp only
  split
  next child down => grind
  next =>
    split
    next next level found => rw [found]; rfl
    next none => rw [none]; rfl

theorem visitAll_of_still (visited : visit cursor.node cursor.node.field depth state = (goes, after))
    (still : goes = false ∨ cursor.firstChild? = none) :
    cursor.node.visitAll visit cursor.node.field depth state = after := by
  cases goes with
  | false => exact Node.visitAll_of_stays visited
  | true =>
      have leaf : cursor.firstChild? = none := still.resolve_left (by simp)
      rw [Node.visitAll_of_goes visited, children_of_firstChild? leaf, Node.visitEach]

end Step

theorem walkOn_eq_finish (visit : Visitor σ) (cursor : Cursor) {depth : Nat}
    (level : depth = cursor.trail.length) (state : σ) :
    cursor.walkOn visit depth state =
      finish visit cursor.trail (cursor.node.visitAll visit cursor.node.field depth state) := by
  -- every move leaves a node behind, so that the induction is on how many are left
  generalize nodes : cursor.remaining = count
  induction count using Nat.strongRecOn generalizing cursor depth state with
  | ind count ih =>
      subst nodes
      rcases visited : visit cursor.node cursor.node.field depth state with ⟨goes, after⟩
      by_cases still : goes = false ∨ cursor.firstChild? = none
      · rw [walkOn_of_still visited still, visitAll_of_still visited still]
        have continues := continues_advance? visit cursor
        rw [← level] at continues
        cases found : cursor.advance? depth with
        | none =>
            rw [found] at continues
            exact (continues after).symm
        | some place =>
            rw [found] at continues
            rw [continues.2]
            exact ih _ (remaining_of_advance? found) place.1 continues.1 after rfl
      · obtain ⟨entered, deeper⟩ := not_or.mp still
        obtain rfl : goes = true := by simpa using entered
        obtain ⟨child, down⟩ := Option.ne_none_iff_exists'.mp deeper
        obtain ⟨lower, same⟩ := finish_of_firstChild? visit down after
        rw [lower, ← level] at same
        rw [walkOn_of_firstChild? visited down, Node.visitAll_of_goes visited, ← same]
        exact ih _ (remaining_of_firstChild? down) child (by rw [lower, level]) after rfl

end Arborist.Cursor

namespace Arborist.Node

variable {σ : Type}

theorem walk_eq_visitAll (node : Node) (visit : Visitor σ) (state : σ) :
    node.walk visit state = node.visitAll visit none 0 state := by
  rcases visited : visit node none 0 state with ⟨goes, after⟩
  simp only [walk, visited]
  cases goes with
  | false => exact (visitAll_of_stays visited).symm
  | true =>
      rw [visitAll_of_goes visited, if_pos rfl]
      cases down : (Cursor.start node).firstChild? with
      | none => rw [show node.children = [] from Cursor.children_of_firstChild? down, visitEach]
      | some child =>
          obtain ⟨lower, same⟩ := Cursor.finish_of_firstChild? visit down after
          exact (Cursor.walkOn_eq_finish visit child lower.symm after).trans (lower ▸ same)

def within : Nat → Node → List Node
  | 0, node => [node]
  | levels + 1, node => node :: node.children.flatMap (within levels)

theorem mem_within_self (levels : Nat) (node : Node) : node ∈ node.within levels := by
  cases levels <;> simp [within]

theorem mem_within_of_child {levels : Nat} {node child place : Node} (member : child ∈ node.children)
    (inside : place ∈ child.within levels) : place ∈ node.within (levels + 1) := by
  rw [within]
  exact List.mem_cons_of_mem _ (List.mem_flatMap.mpr ⟨child, member, inside⟩)

section Limited

variable {visit : Visitor σ} {limit : Int} (holds : σ → Prop)

theorem holds_visitEach {depth : Nat} {nodes : List Node}
    (keeps : ∀ node ∈ nodes, ∀ field state, holds state → holds (node.visitAll visit field depth state))
    {state : σ} (start : holds state) : holds (visitEach visit depth state nodes) := by
  induction nodes generalizing state with
  | nil => exact start
  | cons node rest ih =>
      rw [visitEach]
      apply ih (fun other member => keeps other (List.mem_cons_of_mem _ member))
      exact keeps node List.mem_cons_self node.field state start

theorem holds_visitAll
    (stops : ∀ node field depth state, (visit node field depth state).1 = decide ((depth : Int) < limit))
    {levels depth : Nat} (left : limit = depth + levels) {node : Node}
    (keeps : ∀ place ∈ node.within levels, ∀ field depth state, holds state →
      holds (visit place field depth state).2)
    (field : Option String) {state : σ} (start : holds state) :
    holds (node.visitAll visit field depth state) := by
  induction levels generalizing node depth field state with
  | zero =>
      have stays : (visit node field depth state).1 = false := by simp [stops, left]
      rw [visitAll_of_stays (Prod.ext stays rfl)]
      exact keeps node (mem_within_self 0 node) field depth state start
  | succ levels ih =>
      have goes : (visit node field depth state).1 = true := by
        rw [stops]
        exact decide_eq_true (by omega)
      rw [visitAll_of_goes (Prod.ext goes rfl)]
      apply holds_visitEach holds
      · intro child member field state start
        apply ih (by omega) (fun place inside => keeps place (mem_within_of_child member inside)) field start
      · exact keeps node (mem_within_self _ node) field depth state start

end Limited

def labelled (id : Nat) (kind : String) (startByte endByte : Nat) : NodeLabel :=
  ⟨id, kind, startByte, endByte, ⟨0, startByte⟩, ⟨0, endByte⟩, true, none⟩

end Arborist.Node
