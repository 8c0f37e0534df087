import Arborist.Proofs.Tree.Routes
import Arborist.Proofs.Tree.Walking
import Arborist.Tree.Locate

/-!
The search for the node at a position.  A move leads to a node that covers the position and that comes
later in the tree, so that the search ends and what it ends at covers the position.  The three ways of
asking whether a position lies in a node agree where the search relies on them.
-/

namespace Arborist

namespace Position

theorem le_iff {left right : Position} :
    left.le right = true ↔ left.row < right.row ∨ left.row = right.row ∧ left.column ≤ right.column := by
  simp [le]

end Position

namespace Node

variable {position : Position}

theorem covers_iff {node : Node} :
    node.covers position = true ↔
      (Position.ofPoint node.start).le position = true ∧ position.le (Position.ofPoint node.stop) = true := by
  rw [covers, Bool.and_eq_true]

theorem holds_eq_covers (node : Node) (position : Position) : node.holds position = node.covers position := by
  rw [Bool.eq_iff_iff, covers_iff, Position.le_iff, Position.le_iff]
  simp only [holds, Position.ofPoint, Bool.not_eq_true', Bool.or_eq_false_iff, Bool.and_eq_false_iff,
    decide_eq_false_iff_not, beq_eq_false_iff_ne]
  omega

theorem covers_of_boxes {node : Node} (boxed : node.boxes position = true) :
    node.covers position = true := by
  simp only [boxes, Bool.and_eq_true, decide_eq_true_eq] at boxed
  rw [covers_iff, Position.le_iff, Position.le_iff]
  simp only [Position.ofPoint]
  omega

theorem functionNameAt?_eq_some {node name : Node} (found : node.functionNameAt? position = some name) :
    name ∈ node.children ∧ name.covers position = true := by
  unfold functionNameAt? at found
  split at found
  · have fits := List.find?_some found
    simp only [Bool.and_eq_true] at fits
    exact ⟨List.mem_of_find?_eq_some found, covers_of_boxes fits.2⟩
  · cases found

end Node

namespace Cursor

variable {cursor : Cursor}

def later (cursor : Cursor) : List Node :=
  match cursor.trail with
  | [] => []
  | crumb :: _ => crumb.after

theorem later_of_nextSibling? {cursor next : Cursor} (aside : cursor.nextSibling? = some next) :
    cursor.later = next.node :: next.later := by
  obtain ⟨node, trail⟩ := cursor
  match trail with
  | [] => cases aside
  | ⟨parent, before, []⟩ :: trail => cases aside
  | ⟨parent, before, sibling :: after⟩ :: trail =>
      cases aside
      rfl

theorem later_of_last (last : cursor.nextSibling? = none) : cursor.later = [] := by
  obtain ⟨node, trail⟩ := cursor
  match trail with
  | [] => rfl
  | ⟨parent, before, []⟩ :: trail => rfl
  | ⟨parent, before, sibling :: after⟩ :: trail => cases last

theorem children_of_down {cursor child : Cursor} (down : cursor.firstChild? = some child) :
    cursor.node.children = child.node :: child.later := by
  obtain ⟨⟨label, children⟩, trail⟩ := cursor
  cases children with
  | nil => cases down
  | cons first others =>
      cases down
      rfl

variable {position : Position}

theorem coveringSibling?_eq_some {cursor next : Cursor} (found : cursor.coveringSibling? position = some next) :
    next.node.covers position = true ∧ ∃ passed, cursor.later = passed ++ next.node :: next.later := by
  fun_induction coveringSibling? position cursor with
  | case1 cursor last => cases found
  | case2 cursor sibling aside covered =>
      cases found
      exact ⟨covered, [], later_of_nextSibling? aside⟩
  | case3 cursor sibling aside uncovered ih =>
      obtain ⟨covered, passed, after⟩ := ih found
      refine ⟨covered, sibling.node :: passed, ?_⟩
      rw [later_of_nextSibling? aside, after, List.cons_append]

theorem uncovered_of_coveringSibling? (none : cursor.coveringSibling? position = none) :
    ∀ sibling ∈ cursor.later, sibling.covers position = false := by
  fun_induction coveringSibling? position cursor with
  | case1 cursor last =>
      rw [later_of_last last]
      intro sibling member
      cases member
  | case2 cursor sibling aside covered => cases none
  | case3 cursor sibling aside uncovered ih =>
      rw [later_of_nextSibling? aside]
      intro other member
      rcases List.mem_cons.mp member with rfl | after
      · exact Bool.eq_false_iff.mpr uncovered
      · exact ih none other after

theorem coveringSibling?_eq_none (uncovered : ∀ sibling ∈ cursor.later, sibling.covers position = false) :
    cursor.coveringSibling? position = none := by
  cases found : cursor.coveringSibling? position with
  | none => rfl
  | some next =>
      obtain ⟨covered, passed, after⟩ := coveringSibling?_eq_some found
      have refused := uncovered next.node (by rw [after]; exact List.mem_append_right _ List.mem_cons_self)
      rw [covered] at refused
      cases refused

/-- The two kinds of moves.  The second is made only from a node whose first child does not cover the
position. -/
theorem narrower?_eq_some {cursor next : Cursor} (found : cursor.narrower? position = some next) :
    next.node.covers position = true ∧ (cursor.node.children = next.node :: next.later ∨
      ∃ passed, cursor.later = passed ++ next.node :: next.later) := by
  unfold narrower? at found
  split at found
  · cases found
  next child down =>
    split at found
    next covered =>
      cases found
      exact ⟨covered, .inl (children_of_down down)⟩
    next =>
      obtain ⟨covered, after⟩ := coveringSibling?_eq_some found
      exact ⟨covered, .inr after⟩

theorem narrower?_eq_none (stays : cursor.narrower? position = none) :
    cursor.node.children = [] ∨ (∃ first others, cursor.node.children = first :: others ∧
      first.covers position = false) ∧ ∀ sibling ∈ cursor.later, sibling.covers position = false := by
  unfold narrower? at stays
  split at stays
  next leaf => exact .inl (children_of_firstChild? leaf)
  next child down =>
    split at stays
    · cases stays
    next uncovered =>
      refine .inr ⟨⟨child.node, child.later, children_of_down down, ?_⟩, uncovered_of_coveringSibling? stays⟩
      exact Bool.eq_false_iff.mpr uncovered

/-- How a search ends: where no move is possible, or at the name of a function to which it has moved. -/
inductive Ends (position : Position) (cursor : Cursor) (found : Node) : Prop where
  | here (stays : cursor.narrower? position = none) (same : found = cursor.node)
  | name {next : Cursor} (moves : cursor.narrower? position = some next)
      (named : next.node.functionNameAt? position = some found)

/-- What every move keeps holds where the search ends. -/
theorem exists_end_of_descend {kept : Cursor → Prop}
    (keeps : ∀ cursor next, kept cursor → cursor.narrower? position = some next →
      next.node.functionNameAt? position = none → kept next)
    (start : kept cursor) :
    ∃ last, kept last ∧ Ends position last (cursor.descend position) := by
  fun_induction descend position cursor with
  | case1 cursor stays => exact ⟨cursor, start, .here stays rfl⟩
  | case2 cursor next moves name named => exact ⟨cursor, start, .name moves named⟩
  | case3 cursor next moves unnamed ih => exact ih (keeps cursor next start moves unnamed)

structure Within (position : Position) (root : Node) (cursor : Cursor) : Prop where
  node : cursor.node ∈ root.preorder
  later : ∀ sibling ∈ cursor.later, sibling ∈ root.preorder
  covered : cursor.node.covers position = true

theorem Within.narrower? {root : Node} {cursor next : Cursor} (within : Within position root cursor)
    (moves : cursor.narrower? position = some next) : Within position root next := by
  obtain ⟨covered, way⟩ := narrower?_eq_some moves
  have inside (node : Node) (member : node ∈ next.node :: next.later) : node ∈ root.preorder := by
    rcases way with below | ⟨passed, after⟩
    · exact Node.mem_preorder_of_child within.node (below ▸ member)
    · exact within.later node (after ▸ List.mem_append_right passed member)
  exact ⟨inside _ List.mem_cons_self, fun sibling member => inside sibling (List.mem_cons_of_mem _ member),
    covered⟩

theorem within_start {root : Node} (covered : root.covers position = true) :
    Within position root (start root) :=
  ⟨root.mem_preorder_self, fun _ member => absurd member List.not_mem_nil, covered⟩

def moved? (position : Position) : Nat → Cursor → Option Cursor
  | 0, cursor => some cursor
  | count + 1, cursor => (cursor.narrower? position).bind (moved? position count)

theorem moved?_eq_none {count : Nat} (enough : cursor.remaining ≤ count) :
    cursor.moved? position count = none := by
  induction count generalizing cursor with
  | zero =>
      have ahead := ahead_lt_remaining cursor
      omega
  | succ count ih =>
      rw [moved?]
      cases moves : cursor.narrower? position with
      | none => rfl
      | some next =>
          have fewer := remaining_of_narrower? moves
          exact ih (by omega)

end Cursor

namespace Node

theorem atPosition?_of_covers {root : Node} {position : Position} (covered : root.covers position = true) :
    ∃ found, root.atPosition? position = some found ∧ (root.functionNameAt? position = some found ∨
      root.functionNameAt? position = none ∧ found = (Cursor.start root).descend position) := by
  unfold atPosition?
  rw [if_pos covered]
  cases named : root.functionNameAt? position with
  | some name => exact ⟨name, rfl, .inl rfl⟩
  | none => exact ⟨_, rfl, .inr ⟨rfl, rfl⟩⟩

theorem exists_within_of_found {root found : Node} {position : Position} (covered : root.covers position = true)
    (search : root.functionNameAt? position = some found ∨
      root.functionNameAt? position = none ∧ found = (Cursor.start root).descend position) :
    found ∈ root.preorder ∧ found.covers position = true := by
  rcases search with named | ⟨-, rfl⟩
  · obtain ⟨member, onName⟩ := functionNameAt?_eq_some named
    exact ⟨mem_preorder_of_child root.mem_preorder_self member, onName⟩
  · obtain ⟨last, within, ends⟩ := Cursor.exists_end_of_descend
      (fun _ _ within moves _ => within.narrower? moves) (Cursor.within_start covered)
    cases ends with
    | here stays same =>
        rw [same]
        exact ⟨within.node, within.covered⟩
    | name moves named =>
        obtain ⟨member, onName⟩ := functionNameAt?_eq_some named
        exact ⟨mem_preorder_of_child (within.narrower? moves).node member, onName⟩

/-- A search makes fewer moves than there are nodes.  It finds nothing only if the position is outside the
root; else it finds a node of the tree in which the position lies, even if that is the name of a function. -/
theorem atPosition?_sound (root : Node) (position : Position) :
    (Cursor.start root).moved? position root.size = none ∧
    (root.atPosition? position = none ↔ ¬ root.covers position) ∧
    ∀ found, root.atPosition? position = some found → found ∈ root.preorder ∧ found.holds position := by
  refine ⟨Cursor.moved?_eq_none (Nat.le_refl _), ?_, ?_⟩
  · constructor
    · intro missing covered
      obtain ⟨found, located, -⟩ := atPosition?_of_covers covered
      rw [missing] at located
      cases located
    · intro uncovered
      rw [atPosition?, if_neg uncovered]
  · intro found located
    by_cases covered : root.covers position = true
    · obtain ⟨other, same, search⟩ := atPosition?_of_covers covered
      obtain rfl : found = other := Option.some.inj (located.symm.trans same)
      rw [holds_eq_covers]
      exact exists_within_of_found covered search
    · rw [atPosition?, if_neg covered] at located
      cases located

end Node

end Arborist
