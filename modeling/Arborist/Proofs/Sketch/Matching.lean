import Arborist.Proofs.Tree.Ancestry
import Arborist.Sketch.Query

/-!
What a query captures.  Whether a pattern fits a node, and what it captures there, does not depend on what
has been found before, so that the captures in a tree are those of its patterns at its nodes, in preorder.
-/

namespace Arborist.Sketch

open Node

/-! One pattern at one node. -/

namespace Pattern

@[elab_as_elim]
theorem partInduction {motive : Pattern → Prop}
    (step : ∀ pattern, (∀ part ∈ pattern.children, motive part) → motive pattern) : ∀ pattern, motive pattern
  | .mk kind capture field children => step (.mk kind capture field children) fun part member =>
      have _smaller : part ∈ children := member
      partInduction step part

mutual

def names : Pattern → List String
  | .mk _ capture _ children => namesAll children ++ capture.toList

def namesAll : List Pattern → List String
  | [] => []
  | pattern :: rest => names pattern ++ namesAll rest

end

theorem namesAll_eq_flatMap (patterns : List Pattern) : namesAll patterns = patterns.flatMap names := by
  induction patterns with
  | nil => rfl
  | cons pattern rest ih => rw [namesAll, ih, List.flatMap_cons]

theorem names_eq (pattern : Pattern) :
    pattern.names = pattern.children.flatMap names ++ pattern.capture.toList := by
  obtain ⟨kind, capture, field, children⟩ := pattern
  rw [names, namesAll_eq_flatMap]
  rfl

variable (lists : FieldLists) (pattern : Pattern) (node : Node)

def own : Found := pattern.capture.toList.map fun name => (node, name)

/-- Whether a pattern fits a node. -/
def fits : Bool := (pattern.matchAt lists node []).1

def captured : Found := (pattern.matchAt lists node []).2

theorem matchAt_eq_ite (found : Found) : pattern.matchAt lists node found =
    if (pattern.kind == "_" || pattern.kind == node.kind) &&
        (matchBelow lists node [] pattern.children).1 then
      (true, found ++ ((matchBelow lists node [] pattern.children).2 ++ pattern.own node))
    else (false, found) := by
  obtain ⟨kind, capture, field, children⟩ := pattern
  rw [matchAt, Pattern.kind, Pattern.children]
  cases kind == "_" || kind == node.kind with
  | false => rfl
  | true =>
      cases matchBelow lists node [] children with
      | mk ok below =>
          cases ok with
          | false => rfl
          | true =>
              rw [← List.append_assoc]
              rfl

theorem fits_eq : pattern.fits lists node = ((pattern.kind == "_" || pattern.kind == node.kind) &&
    (matchBelow lists node [] pattern.children).1) := by
  rw [fits, matchAt_eq_ite]
  split
  next fit => exact fit.symm
  next misses => exact (Bool.eq_false_iff.mpr misses).symm

variable {pattern node}

theorem captured_of_fits (fit : pattern.fits lists node = true) :
    pattern.captured lists node = (matchBelow lists node [] pattern.children).2 ++ pattern.own node := by
  rw [fits_eq] at fit
  rw [captured, matchAt_eq_ite, if_pos fit, List.nil_append]

theorem captured_of_misses (misses : pattern.fits lists node = false) : pattern.captured lists node = [] := by
  rw [fits_eq] at misses
  rw [captured, matchAt_eq_ite, if_neg (Bool.eq_false_iff.mp misses)]

variable (pattern node)

theorem matchAt_eq (found : Found) :
    pattern.matchAt lists node found = (pattern.fits lists node, found ++ pattern.captured lists node) := by
  cases fit : pattern.fits lists node with
  | true =>
      rw [captured_of_fits lists fit, matchAt_eq_ite, ← fits_eq, if_pos fit]
  | false =>
      rw [captured_of_misses lists fit, matchAt_eq_ite, ← fits_eq, fit, List.append_nil]
      rfl

/-- What a pattern captures at the first candidate below a node that it fits. -/
def capturedBelow : Found :=
  ((candidates lists node pattern.field).find? (pattern.fits lists)).elim [] (pattern.captured lists)

end Pattern

/-! Patterns below a node. -/

variable {lists : FieldLists}

theorem firstSuccess_matchAt (pattern : Pattern) (nodes : List Node) (found : Found) :
    firstSuccess (fun child found => pattern.matchAt lists child found) nodes found =
      (nodes.any (pattern.fits lists),
        found ++ (nodes.find? (pattern.fits lists)).elim [] (pattern.captured lists)) := by
  induction nodes with
  | nil => rw [firstSuccess, List.any_nil, List.find?_nil, Option.elim_none, List.append_nil]
  | cons node rest ih =>
      rw [firstSuccess, pattern.matchAt_eq, List.any_cons, List.find?_cons]
      cases fit : pattern.fits lists node with
      | true => rfl
      | false =>
          rw [Pattern.captured_of_misses lists fit, List.append_nil, Bool.false_or]
          exact ih

theorem matchBelow_fst (node : Node) (patterns : List Pattern) (found : Found) :
    (matchBelow lists node found patterns).1 =
      patterns.all fun pattern => (candidates lists node pattern.field).any (pattern.fits lists) := by
  induction patterns generalizing found with
  | nil => rw [matchBelow, List.all_nil]
  | cons pattern rest ih =>
      rw [matchBelow, firstSuccess_matchAt, List.all_cons]
      cases (candidates lists node pattern.field).any (pattern.fits lists) with
      | true => exact ih _
      | false => rfl

theorem matchBelow_snd {node : Node} {patterns : List Pattern} {found : Found}
    (fit : (matchBelow lists node found patterns).1 = true) :
    (matchBelow lists node found patterns).2 =
      found ++ patterns.flatMap fun pattern => pattern.capturedBelow lists node := by
  induction patterns generalizing found with
  | nil => rw [matchBelow, List.flatMap_nil, List.append_nil]
  | cons pattern rest ih =>
      rw [matchBelow, firstSuccess_matchAt] at fit ⊢
      cases chosen : (candidates lists node pattern.field).any (pattern.fits lists) with
      | true =>
          rw [chosen] at fit
          rw [List.flatMap_cons, ← List.append_assoc]
          exact ih fit
      | false =>
          rw [chosen] at fit
          cases fit

namespace Pattern

variable {pattern : Pattern} {node : Node}

theorem captured_eq_append (fit : pattern.fits lists node = true) : pattern.captured lists node =
    (pattern.children.flatMap fun part => part.capturedBelow lists node) ++ pattern.own node := by
  have below : (matchBelow lists node [] pattern.children).1 = true := by
    rw [fits_eq, Bool.and_eq_true] at fit
    exact fit.2
  rw [captured_of_fits lists fit, matchBelow_snd below, List.nil_append]

theorem mem_capturedBelow {pair : Node × String} (member : pair ∈ pattern.capturedBelow lists node) :
    ∃ child ∈ candidates lists node pattern.field, pair ∈ pattern.captured lists child := by
  rw [capturedBelow] at member
  cases chosen : (candidates lists node pattern.field).find? (pattern.fits lists) with
  | none =>
      rw [chosen] at member
      cases member
  | some child =>
      rw [chosen] at member
      exact ⟨child, List.mem_of_find?_eq_some chosen, member⟩

end Pattern

/-! Trees whose field lists contain only children. -/

/-- In a tree, what is listed for a node under a field is a child of it. -/
def ListsChildren (lists : FieldLists) (root : Node) : Prop :=
  ∀ node ∈ root.preorder, ∀ name, ∀ listed ∈ lists node name, listed ∈ node.children

theorem listsChildren_childrenByField (root : Node) : ListsChildren childrenByField root := by
  intro node _ name listed member
  exact List.mem_of_mem_filter member

namespace ListsChildren

variable {root node : Node}

theorem mem_candidates_iff (only : ListsChildren lists root) (inside : node ∈ root.preorder)
    {field : Option String} {child : Node} : child ∈ candidates lists node field ↔ child ∈ node.children := by
  cases field with
  | none => rfl
  | some name =>
      rw [candidates, List.mem_append]
      constructor
      · intro either
        rcases either with listed | member
        · exact only node inside name child listed
        · exact member
      · exact Or.inr

theorem fits_iff (only : ListsChildren lists root) (inside : node ∈ root.preorder) {pattern : Pattern} :
    pattern.fits lists node = true ↔ (pattern.kind = node.kind ∨ pattern.kind = "_") ∧
      ∀ part ∈ pattern.children, ∃ child ∈ node.children, part.fits lists child = true := by
  rw [Pattern.fits_eq, matchBelow_fst, Bool.and_eq_true, Bool.or_eq_true, beq_iff_eq, beq_iff_eq,
    or_comm, List.all_eq_true]
  simp only [List.any_eq_true, only.mem_candidates_iff inside]

theorem exists_child_of_capturedBelow (only : ListsChildren lists root) (inside : node ∈ root.preorder)
    {part : Pattern} {pair : Node × String} (member : pair ∈ part.capturedBelow lists node) :
    ∃ child ∈ node.children, pair ∈ part.captured lists child := by
  obtain ⟨child, tried, found⟩ := Pattern.mem_capturedBelow member
  exact ⟨child, (only.mem_candidates_iff inside).mp tried, found⟩

theorem mem_of_captured (only : ListsChildren lists root) (inside : node ∈ root.preorder) {pattern : Pattern}
    {pair : Node × String} (member : pair ∈ pattern.captured lists node) :
    pair.1 ∈ node.preorder ∧ pair.2 ∈ pattern.names := by
  induction pattern using Pattern.partInduction generalizing node with
  | step pattern ih =>
      cases fit : pattern.fits lists node with
      | false =>
          rw [Pattern.captured_of_misses lists fit] at member
          cases member
      | true =>
          rw [Pattern.captured_eq_append fit, List.mem_append, List.mem_flatMap] at member
          rw [preorder_eq, Pattern.names_eq, List.mem_cons, List.mem_append]
          rcases member with ⟨part, among, below⟩ | itself
          · obtain ⟨child, lower, found⟩ := only.exists_child_of_capturedBelow inside below
            obtain ⟨within, named⟩ := ih part among (mem_preorder_of_child inside lower) found
            exact ⟨.inr (List.mem_flatMap.mpr ⟨child, lower, within⟩),
              .inl (List.mem_flatMap.mpr ⟨part, among, named⟩)⟩
          · obtain ⟨name, marked, rfl⟩ := List.mem_map.mp itself
            exact ⟨.inl rfl, .inr marked⟩

end ListsChildren

/-! The walk over the tree. -/

theorem captureAt_eq (patterns : List Pattern) (node : Node) (found : Found) :
    captureAt lists patterns node found =
      found ++ patterns.flatMap fun pattern => pattern.captured lists node := by
  unfold captureAt
  induction patterns generalizing found with
  | nil => rw [List.foldl_nil, List.flatMap_nil, List.append_nil]
  | cons pattern rest ih =>
      rw [List.foldl_cons, ih, pattern.matchAt_eq, List.flatMap_cons, List.append_assoc]

/-- What lies on the stack is still to be walked, subtree by subtree. -/
theorem captureFrom_eq (patterns : List Pattern) (found : Found) (stack : List Node) :
    captureFrom lists patterns found stack = found ++ (stack.flatMap preorder).flatMap fun node =>
      patterns.flatMap fun pattern => pattern.captured lists node := by
  fun_induction captureFrom lists patterns found stack with
  | case1 found => rw [List.flatMap_nil, List.flatMap_nil, List.append_nil]
  | case2 found label children rest ih =>
      rw [ih, captureAt_eq, List.flatMap_append, List.flatMap_cons, preorder_eq (.mk label children),
        List.cons_append, List.flatMap_cons, List.append_assoc]
      rfl

def leafOf (id : Nat) (kind : String) (field : Option String) : Node := .mk { labelled id kind 0 0 with field } []

def returning : Node :=
  .mk (labelled 4 "function_definition" 0 0) [leafOf 5 "identifier" (some "name"), leafOf 6 "return" none]

def twoFunctions : Node :=
  .mk (labelled 0 "module" 0 0)
    [.mk (labelled 1 "function_definition" 0 0) [leafOf 2 "identifier" (some "name"), leafOf 3 "call" none],
      returning]

/-- `(_ (function_definition name: (identifier) @name (return)) @function)`. -/
def returningPattern : Pattern :=
  .mk "_" none none [.mk "function_definition" (some "function") none
    [.mk "identifier" (some "name") (some "name") [], .mk "return" none none []]]

end Arborist.Sketch
