import Arborist.Tree.Cursor

/-!
Walks through a tree with a cursor.  At each node a visitor sees the node, the field it fills and
its depth, and says whether the walk goes on below it.
-/

namespace Arborist

abbrev Visitor (σ : Type) := Node → Option String → Nat → σ → Bool × σ

namespace Cursor

/-- Goes up until there is a next sibling, at most a given number of levels; tells where and at
what depth. -/
def climb? : Nat → Cursor → Option (Cursor × Nat)
  | 0, _ => none
  | depth + 1, cursor =>
    match cursor.parent? with
    | none => none
    | some parent =>
      match parent.nextSibling? with
      | some next => some (next, depth)
      | none => parent.climb? depth

def advance? (cursor : Cursor) (depth : Nat) : Option (Cursor × Nat) :=
  match cursor.nextSibling? with
  | some next => some (next, depth)
  | none => cursor.climb? depth

def ahead : List Crumb → Nat
  | [] => 0
  | crumb :: trail => Node.sizes crumb.after + ahead trail

def remaining (cursor : Cursor) : Nat := cursor.node.size + ahead cursor.trail

theorem ahead_lt_remaining (cursor : Cursor) : ahead cursor.trail < cursor.remaining := by
  obtain ⟨⟨label, children⟩, trail⟩ := cursor
  simp only [remaining, Node.size]
  omega

theorem remaining_of_firstChild? {cursor child : Cursor} (down : cursor.firstChild? = some child) :
    child.remaining < cursor.remaining := by
  obtain ⟨⟨label, children⟩, trail⟩ := cursor
  cases children with
  | nil => cases down
  | cons first others =>
      cases down
      simp only [remaining, ahead, Node.size, Node.sizes]
      omega

theorem remaining_of_nextSibling? {cursor next : Cursor} (aside : cursor.nextSibling? = some next) :
    next.remaining ≤ ahead cursor.trail := by
  obtain ⟨node, trail⟩ := cursor
  match trail with
  | [] => cases aside
  | ⟨parent, before, []⟩ :: trail => cases aside
  | ⟨parent, before, sibling :: after⟩ :: trail =>
      cases aside
      simp only [remaining, ahead, Node.sizes]
      omega

theorem ahead_of_parent? {cursor parent : Cursor} (up : cursor.parent? = some parent) :
    ahead parent.trail ≤ ahead cursor.trail := by
  obtain ⟨node, trail⟩ := cursor
  cases trail with
  | nil => cases up
  | cons crumb trail =>
      cases up
      exact Nat.le_add_left _ _

theorem remaining_of_climb? {depth level : Nat} {cursor next : Cursor}
    (found : cursor.climb? depth = some (next, level)) : next.remaining ≤ ahead cursor.trail := by
  induction depth generalizing cursor with
  | zero => cases found
  | succ depth ih =>
      rw [climb?] at found
      split at found
      · cases found
      next parent up =>
        apply Nat.le_trans _ (ahead_of_parent? up)
        split at found
        next sibling aside =>
          cases found
          exact remaining_of_nextSibling? aside
        next => exact ih found

theorem remaining_of_advance? {depth level : Nat} {cursor next : Cursor}
    (found : cursor.advance? depth = some (next, level)) : next.remaining < cursor.remaining := by
  have later : next.remaining ≤ ahead cursor.trail := by
    rw [advance?] at found
    split at found
    next sibling aside =>
      cases found
      exact remaining_of_nextSibling? aside
    next => exact remaining_of_climb? found
  exact Nat.lt_of_le_of_lt later (ahead_lt_remaining cursor)

/-- The walk from a place below the start.  Every step leaves the node it has visited behind. -/
def walkOn (visit : Visitor σ) (cursor : Cursor) (depth : Nat) (state : σ) : σ :=
  let (goDown, state) := visit cursor.node cursor.node.field depth state
  match down : if goDown then cursor.firstChild? else none with
  | some child => walkOn visit child (depth + 1) state
  | none =>
    match _ : cursor.advance? depth with
    | some (next, level) => walkOn visit next level state
    | none => state
termination_by cursor.remaining
decreasing_by
  · apply remaining_of_firstChild?
    split at down
    · exact down
    · cases down
  · exact remaining_of_advance? ‹_›

end Cursor

namespace Node

def walk (node : Node) (visit : Visitor σ) (state : σ) : σ :=
  let (goDown, state) := visit node none 0 state
  match if goDown then (Cursor.start node).firstChild? else none with
  | some child => child.walkOn visit 1 state
  | none => state

def collect (node : Node) (find : Node → Option String → Nat → Option α) : List α :=
  (node.walk
    (fun place field depth (found : List α) =>
      match find place field depth with
      | some item => (true, item :: found)
      | none => (true, found))
    []).reverse

def ofKind (node : Node) (kind : String) : List Node :=
  node.collect fun place _ _ => if place.kind == kind then some place else none

def descendants (node : Node) (depthLimit : Option Int) : List Node :=
  (node.walk
    (fun place _ depth (found : List Node) =>
      match depthLimit with
      | some limit =>
        if limit < depth then (false, found)
        else (true, if depth = 0 then found else place :: found)
      | none => (true, if depth = 0 then found else place :: found))
    []).reverse

end Node

end Arborist
