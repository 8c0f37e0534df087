import Arborist.Proofs.Tree.Locating

/-!
The innermost node at a position, in trees whose nodes lie inside their parents and one after the other.
A search goes down along first children, and aside only from the node to which it has come, not from the
first child that it has tried.  So it stops too early at a node of which a later child covers the position
and the first does not, unless the position is also on a later sibling of that node.
-/

namespace Arborist

namespace Position

theorem ofPoint_le_ofPoint (left right : Point) : (ofPoint left).le (ofPoint right) = left.le right := by
  rw [Bool.eq_iff_iff, le_iff]
  simp only [ofPoint, Point.le, Bool.or_eq_true, Bool.and_eq_true, decide_eq_true_eq, beq_iff_eq]
  omega

theorem le_trans {first second third : Position} (left : first.le second = true)
    (right : second.le third = true) : first.le third = true := by
  rw [le_iff] at *
  omega

end Position

namespace Node

structure Nested (root : Node) : Prop where
  inside : ∀ place ∈ root.preorder, ∀ child ∈ place.children,
    place.start.le child.start ∧ child.start.le child.stop ∧ child.stop.le place.stop
  ordered : ∀ place ∈ root.preorder, place.children.Pairwise fun left right => left.stop.le right.start

/-- A node to which first children alone lead, and its later siblings.  Neither it nor a node above it is a
function whose name is at the position. -/
inductive Leftmost (position : Position) (root : Node) : Node → List Node → Prop where
  | root (unnamed : root.functionNameAt? position = none) : Leftmost position root root []
  | first {node child : Node} {later others : List Node} (above : Leftmost position root node later)
      (children : node.children = child :: others) (unnamed : child.functionNameAt? position = none) :
      Leftmost position root child others

/-- There is a leftmost node of which a later child covers the position, while neither its first child nor
one of its later siblings does. -/
def Overlooks (position : Position) (root : Node) : Prop :=
  ∃ node later first others, Leftmost position root node later ∧ node.children = first :: others ∧
    first.covers position = false ∧ (∃ other ∈ others, other.covers position) ∧
    ∀ sibling ∈ later, sibling.covers position = false

/-- A node is the name of a function and has itself a child that covers the position. -/
def DividesName (position : Position) (root name : Node) : Prop :=
  (∃ function ∈ root.preorder, function.functionNameAt? position = some name) ∧
    ∃ child ∈ name.children, child.covers position

variable {root : Node} {position : Position}

theorem Nested.covers_of_child (nested : root.Nested) {place child : Node} (inside : place ∈ root.preorder)
    (member : child ∈ place.children) (covered : child.covers position = true) :
    place.covers position = true := by
  obtain ⟨starts, -, stops⟩ := nested.inside place inside child member
  rw [← Position.ofPoint_le_ofPoint] at starts stops
  rw [covers_iff] at *
  exact ⟨Position.le_trans starts covered.1, Position.le_trans covered.2 stops⟩

theorem Nested.uncovered_of_first (nested : root.Nested) {place first : Node} {others : List Node}
    (inside : place ∈ root.preorder) (children : place.children = first :: others)
    (begins : position.le (.ofPoint place.start) = true) (uncovered : first.covers position = false) :
    ∀ other ∈ others, other.covers position = false := by
  intro other member
  have among (child : Node) (listed : child ∈ first :: others) :
      (Position.ofPoint place.start).le (.ofPoint child.start) = true ∧
        (Position.ofPoint child.start).le (.ofPoint child.stop) = true := by
    obtain ⟨starts, proper, -⟩ := nested.inside place inside child (children ▸ listed)
    rw [Position.ofPoint_le_ofPoint, Position.ofPoint_le_ofPoint]
    exact ⟨starts, proper⟩
  obtain ⟨starts, proper⟩ := among first List.mem_cons_self
  have reached : position.le (.ofPoint first.stop) = true :=
    Position.le_trans begins (Position.le_trans starts proper)
  have follows : (Position.ofPoint first.stop).le (.ofPoint other.start) = true := by
    rw [Position.ofPoint_le_ofPoint]
    have ordered := nested.ordered place inside
    rw [children] at ordered
    exact (List.pairwise_cons.mp ordered).1 other member
  -- what covered the position would begin at it or before, and so would the first child
  cases covered : other.covers position with
  | false => rfl
  | true =>
      have early := Position.le_trans proper (Position.le_trans follows (covers_iff.mp covered).1)
      rw [covers_iff.mpr ⟨early, reached⟩] at uncovered
      cases uncovered

theorem Leftmost.mem_preorder {node : Node} {later : List Node} (leftmost : Leftmost position root node later) :
    node ∈ root.preorder := by
  induction leftmost with
  | root unnamed => exact root.mem_preorder_self
  | first above children unnamed ih =>
      exact mem_preorder_of_child ih (by rw [children]; exact List.mem_cons_self)

theorem Leftmost.root_unnamed {node : Node} {later : List Node} (leftmost : Leftmost position root node later) :
    root.functionNameAt? position = none := by
  induction leftmost with
  | root unnamed => exact unnamed
  | first above children unnamed ih => exact ih

end Node

namespace Cursor

open Node

variable {root : Node} {position : Position}

theorem exists_down {cursor : Cursor} {child : Node} {others : List Node}
    (children : cursor.node.children = child :: others) :
    ∃ next, cursor.firstChild? = some next ∧ next.node = child ∧ next.later = others := by
  obtain ⟨⟨label, nodes⟩, trail⟩ := cursor
  cases children
  exact ⟨_, rfl, rfl, rfl⟩

theorem descend_of_narrower? {cursor next : Cursor} (moves : cursor.narrower? position = some next)
    (unnamed : next.node.functionNameAt? position = none) :
    cursor.descend position = next.descend position := by
  rw [descend]
  split
  next stays => rw [moves] at stays; cases stays
  next other same =>
    obtain rfl : next = other := Option.some.inj (moves.symm.trans same)
    rw [unnamed]

theorem descend_of_stays {cursor : Cursor} (stays : cursor.narrower? position = none) :
    cursor.descend position = cursor.node := by
  rw [descend]
  split
  next => rfl
  next other moves => rw [stays] at moves; cases moves

/-- A search comes to every leftmost node that covers the position. -/
theorem exists_descend_of_leftmost (nested : root.Nested) {node : Node} {later : List Node}
    (leftmost : Leftmost position root node later) (covered : node.covers position = true) :
    ∃ cursor : Cursor, cursor.node = node ∧ cursor.later = later ∧
      (start root).descend position = cursor.descend position := by
  induction leftmost with
  | root unnamed => exact ⟨start root, rfl, rfl, rfl⟩
  | @first node child later others above children unnamed ih =>
      have member : child ∈ node.children := by
        rw [children]
        exact List.mem_cons_self
      obtain ⟨cursor, rfl, -, same⟩ := ih (nested.covers_of_child above.mem_preorder member covered)
      obtain ⟨next, down, rfl, rfl⟩ := exists_down children
      have moves : cursor.narrower? position = some next := by
        simp only [narrower?, down, covered, if_true]
      exact ⟨next, rfl, rfl, same.trans (descend_of_narrower? moves unnamed)⟩

/-- The siblings are in their order, and the node is leftmost or does not begin before the position. -/
structure Searching (position : Position) (root : Node) (cursor : Cursor) : Prop
    extends Within position root cursor where
  ordered : (cursor.node :: cursor.later).Pairwise fun left right => left.stop.le right.start
  placed : Leftmost position root cursor.node cursor.later ∨ position.le (.ofPoint cursor.node.start)

theorem Searching.narrower? (nested : root.Nested) {cursor next : Cursor}
    (searching : Searching position root cursor) (moves : cursor.narrower? position = some next)
    (unnamed : next.node.functionNameAt? position = none) : Searching position root next := by
  have within := searching.toWithin
  obtain ⟨-, below | ⟨passed, after⟩⟩ := narrower?_eq_some moves
  · refine ⟨within.narrower? moves, ?_, ?_⟩
    · rw [← below]
      exact nested.ordered cursor.node within.node
    · apply searching.placed.imp
      · intro leftmost
        exact leftmost.first below unnamed
      · intro begins
        have member : next.node ∈ cursor.node.children := by
          rw [below]
          exact List.mem_cons_self
        apply Position.le_trans begins
        rw [Position.ofPoint_le_ofPoint]
        exact (nested.inside cursor.node within.node next.node member).1
  · have ordered := searching.ordered
    rw [after] at ordered
    obtain ⟨before, rest⟩ := List.pairwise_cons.mp ordered
    refine ⟨within.narrower? moves, (List.pairwise_append.mp rest).2.1, .inr ?_⟩
    -- the position is on both, so it is where the sibling begins
    apply Position.le_trans (covers_iff.mp within.covered).2
    rw [Position.ofPoint_le_ofPoint]
    exact before next.node (List.mem_append_right passed List.mem_cons_self)

theorem Searching.overlooks (nested : root.Nested) {cursor : Cursor} (searching : Searching position root cursor)
    (stays : cursor.narrower? position = none) {child : Node} (member : child ∈ cursor.node.children)
    (covered : child.covers position = true) : root.Overlooks position := by
  rcases narrower?_eq_none stays with leaf | ⟨⟨first, others, children, uncovered⟩, beyond⟩
  · rw [leaf] at member
    cases member
  · have other : child ∈ others := by
      rw [children] at member
      rcases List.mem_cons.mp member with rfl | other
      · rw [covered] at uncovered
        cases uncovered
      · exact other
    rcases searching.placed with leftmost | begins
    · exact ⟨_, _, first, others, leftmost, children, uncovered, ⟨child, other, covered⟩, beyond⟩
    · rw [nested.uncovered_of_first searching.node children begins uncovered child other] at covered
      cases covered

theorem searching_start (covered : root.covers position = true)
    (unnamed : root.functionNameAt? position = none) : Searching position root (start root) :=
  ⟨within_start covered, List.pairwise_singleton _ _, .inl (.root unnamed)⟩

end Cursor

namespace Node

variable {root : Node} {position : Position}

theorem Overlooks.exists_child (nested : root.Nested) (overlooks : root.Overlooks position) :
    root.functionNameAt? position = none ∧
      ∃ child ∈ ((Cursor.start root).descend position).children, child.covers position := by
  obtain ⟨node, later, first, others, leftmost, children, uncovered, ⟨other, member, covered⟩, beyond⟩ :=
    overlooks
  have among : other ∈ node.children := by
    rw [children]
    exact List.mem_cons_of_mem first member
  have reached := nested.covers_of_child leftmost.mem_preorder among covered
  obtain ⟨cursor, rfl, rfl, same⟩ := Cursor.exists_descend_of_leftmost nested leftmost reached
  obtain ⟨next, down, rfl, rfl⟩ := Cursor.exists_down children
  have stays : cursor.narrower? position = none := by
    simp only [Cursor.narrower?, down, uncovered, Bool.false_eq_true, if_false]
    exact Cursor.coveringSibling?_eq_none beyond
  rw [same, Cursor.descend_of_stays stays]
  exact ⟨leftmost.root_unnamed, other, among, covered⟩

/-- What is found is the innermost node at the position, except where a leftmost node overlooks one of its
children, and where the name of a function has parts. -/
theorem atPosition?_innermost_iff (nested : root.Nested) (inside : root.covers position) :
    ∃ found, root.atPosition? position = some found ∧
      ((∀ child ∈ found.children, ¬ child.covers position) ↔
        ¬ root.Overlooks position ∧ ¬ root.DividesName position found) := by
  obtain ⟨found, located, search⟩ := atPosition?_of_covers inside
  refine ⟨found, located, ?_, ?_⟩
  · intro innermost
    constructor
    · intro overlooks
      obtain ⟨unnamed, child, member, covered⟩ := overlooks.exists_child nested
      rcases search with named | ⟨-, rfl⟩
      · rw [unnamed] at named
        cases named
      · exact innermost child member covered
    · intro divides
      obtain ⟨-, child, member, covered⟩ := divides
      exact innermost child member covered
  · intro whole child member covered
    rcases search with named | ⟨unnamed, rfl⟩
    · exact whole.2 ⟨⟨root, root.mem_preorder_self, named⟩, child, member, covered⟩
    · obtain ⟨last, searching, ends⟩ := Cursor.exists_end_of_descend
        (fun _ _ searching moves unnamed => searching.narrower? nested moves unnamed)
        (Cursor.searching_start inside unnamed)
      cases ends with
      | here stays same =>
          rw [same] at member
          exact whole.1 (searching.overlooks nested stays member covered)
      | name moves named =>
          have reached := (searching.toWithin.narrower? moves).node
          exact whole.2 ⟨⟨_, reached, named⟩, child, member, covered⟩

def assigned : Node :=
  .mk (labelled 0 "module" 0 5) [.mk (labelled 1 "expression_statement" 0 5) [.mk (labelled 2 "assignment" 0 5) [
    .mk (labelled 3 "identifier" 0 1) [], .mk (labelled 4 "=" 2 3) [], .mk (labelled 5 "identifier" 4 5) []]]]

theorem nested_assigned : assigned.Nested := by
  constructor <;> decide

theorem overlooks_assigned : assigned.Overlooks ⟨0, 4⟩ := by
  refine ⟨_, [], _, _, .first (.first (.root ?_) rfl ?_) rfl ?_, rfl, ?_, ?_, ?_⟩
  all_goals decide

/-- At the second name the assignment is found and not the name. -/
theorem assigned_name_overlooked :
    assigned.Nested ∧ assigned.covers ⟨0, 4⟩ ∧ ∃ found, assigned.atPosition? ⟨0, 4⟩ = some found ∧
      ∃ child ∈ found.children, child.covers ⟨0, 4⟩ := by
  have inside : assigned.covers ⟨0, 4⟩ := by decide
  obtain ⟨found, located, innermost⟩ := atPosition?_innermost_iff nested_assigned inside
  refine ⟨nested_assigned, inside, found, located, ?_⟩
  have early : ¬ ∀ child ∈ found.children, ¬ child.covers ⟨0, 4⟩ := by
    intro deepest
    exact (innermost.mp deepest).1 overlooks_assigned
  simpa using early

end Node

end Arborist
