import Mathlib.Data.List.Nodup
import Arborist.Proofs.Sketch.Nesting
import Arborist.Proofs.Sketch.Numbering
import Arborist.Proofs.Tree.Links

/-!
The tree of a source.  Each line that counts has one node of its own, which stands in the block of the
line's owner, or at the top if that is the root.
-/

namespace Arborist.Sketch

open Node

/-! The node of a statement. -/

def Statement.label (statement : Statement) : NodeLabel := (statement.node []).label

/-- A node stands for a statement if it is labelled so, whatever its number. -/
def Statement.IsNode (statement : Statement) (node : Node) : Prop :=
  node.label.unnumbered = statement.label

/-- Labels of statements: they fill no field, and neither the root nor a part of a statement has one. -/
def isStatement (label : NodeLabel) : Bool :=
  label.field.isNone && !(["module", "block", "identifier"].contains label.kind)

section Node

variable (statement : Statement) (nested : List Node)

theorem Statement.label_node : (statement.node nested).label = statement.label := by
  unfold Statement.label Statement.node
  split <;> rfl

theorem Statement.row_label : statement.label.start.row = statement.row := by
  unfold Statement.label Statement.node
  split <;> rfl

theorem Statement.unnumbered_label : statement.label.unnumbered = statement.label := by
  unfold Statement.label Statement.node
  split <;> rfl

theorem isStatement_of_suffix {keyword : String} (label : NodeLabel) (free : label.field = none)
    (kind : label.kind = keyword ++ "_statement") : isStatement label = true := by
  have ending (other : String) (different : other.toList.getLast? ≠ some 't') : label.kind ≠ other := by
    rintro rfl
    apply different
    rw [kind, String.toList_append, List.getLast?_append]
    rfl
  simp [isStatement, free, ending "module" (by decide), ending "block" (by decide),
    ending "identifier" (by decide)]

theorem Statement.isStatement_label : isStatement statement.label = true := by
  unfold Statement.label Statement.node
  split
  case h_6 => exact isStatement_of_suffix _ rfl rfl
  all_goals rfl

variable {statement nested}

theorem Statement.exists_block (opens : statement.shape.opensBlock = true) :
    ∃ block ∈ (statement.node nested).children, block.kind = "block" ∧ block.children = nested := by
  unfold Statement.node
  split
  case h_1 => exact ⟨statement.block (some "body") nested, by simp [Statement.part, Node.children], rfl, rfl⟩
  case h_2 => exact ⟨statement.block (some "body") nested, by simp [Statement.part, Node.children], rfl, rfl⟩
  case h_6 => exact ⟨statement.block none nested, by simp [Statement.part, Node.children], rfl, rfl⟩
  all_goals simp_all [Shape.opensBlock]

def statementsIn (nodes : List Node) : List Node :=
  (nodes.flatMap preorder).filter fun node => isStatement node.label

theorem statementsIn_cons (node : Node) (rest : List Node) :
    statementsIn (node :: rest) =
      (if isStatement node.label then [node] else []) ++ statementsIn node.children ++ statementsIn rest := by
  simp only [statementsIn, List.flatMap_cons, preorder_eq node, List.cons_append, List.filter_cons,
    List.filter_append]
  split <;> rfl

theorem statementsIn_plain {nodes : List Node} (leaves : ∀ node ∈ nodes, node.children = [])
    (plain : ∀ node ∈ nodes, isStatement node.label = false) : statementsIn nodes = [] := by
  induction nodes with
  | nil => rfl
  | cons node rest ih =>
      rw [statementsIn_cons, plain node List.mem_cons_self, leaves node List.mem_cons_self,
        ih (fun other member => leaves other (List.mem_cons_of_mem _ member))
          (fun other member => plain other (List.mem_cons_of_mem _ member))]
      rfl

theorem statementsIn_part (kind : String) (field : Option String) (span : Span) (children rest : List Node)
    (plain : field.isSome ∨ kind = "block") :
    statementsIn (statement.part kind field span children :: rest) =
      statementsIn children ++ statementsIn rest := by
  have part : isStatement (statement.part kind field span children).label = false := by
    rcases plain with filled | rfl
    · simp [isStatement, Statement.part, Node.label, Option.isNone_eq_false_iff.mpr filled]
    · simp [isStatement, Statement.part, Node.label]
  rw [statementsIn_cons, part]
  rfl

theorem Statement.statementsIn_children (fits : statement.shape.opensBlock = true ∨ nested = []) :
    statementsIn (statement.node nested).children = statementsIn nested := by
  have leaf (kind field : String) (span : Span) (rest : List Node) :
      statementsIn (statement.leaf kind field span :: rest) = statementsIn rest :=
    statementsIn_part kind (some field) span [] rest (.inl rfl)
  have block (field : Option String) (rest : List Node) :
      statementsIn (statement.block field nested :: rest) = statementsIn nested ++ statementsIn rest :=
    statementsIn_part "block" field _ nested rest (.inr rfl)
  have identifiers (spans : List Span) :
      statementsIn (spans.map fun span => statement.part "identifier" none span []) = [] := by
    apply statementsIn_plain
    all_goals
      intro node member
      obtain ⟨span, -, rfl⟩ := List.mem_map.mp member
      rfl
  have parts (kind : String) (span : Span) (children : List Node) :
      (statement.part kind none span children).children = children := rfl
  have empty : statementsIn [] = [] := rfl
  have closed (unopened : ¬ statement.shape.opensBlock = true) : statementsIn nested = [] := by
    rw [fits.resolve_left unopened, empty]
  unfold Statement.node
  split
  case h_1 => simp only [parts, leaf, block, empty, List.append_nil]
  case h_2 => simp only [parts, leaf, block, empty, List.append_nil]
  case h_4 shape =>
    rw [closed (by simp [shape, Shape.opensBlock]), parts, leaf, statementsIn_part _ _ _ _ _ (.inl rfl), leaf,
      leaf, empty, List.append_nil]
  case h_6 => simp only [parts, block, identifiers, List.append_nil]
  case h_9 shape => rw [closed (by simp [shape, Shape.opensBlock]), parts, identifiers]
  all_goals
    rename_i shape
    rw [closed (by simp [shape, Shape.opensBlock]), parts]
    simp only [leaf, empty]

end Node

/-! Nesting. -/

def nestedIn (number : Nat) (rest : List Placement) : List Node :=
  ((nest rest).filter fun item => item.1 == some number).map Prod.snd

def Placement.nodeBefore (placement : Placement) (rest : List Placement) : Node :=
  placement.statement.node (nestedIn placement.number rest)

theorem nest_cons (placement : Placement) (rest : List Placement) :
    nest (placement :: rest) = (placement.owner, placement.nodeBefore rest) ::
      (nest rest).filter fun item => item.1 != some placement.number := rfl

theorem mem_nest_iff {placements : List Placement} {item : Option Nat × Node} :
    item ∈ nest placements ↔ ∃ before placement rest, placements = before ++ placement :: rest ∧
      item = (placement.owner, placement.nodeBefore rest) ∧
      ∀ earlier ∈ before, placement.owner ≠ some earlier.number := by
  induction placements with
  | nil => simp [nest]
  | cons first others ih =>
      rw [nest_cons, List.mem_cons, List.mem_filter, ih]
      constructor
      · intro split
        rcases split with rfl | ⟨⟨before, placement, rest, rfl, rfl, apart⟩, other⟩
        · exact ⟨[], first, others, rfl, rfl, by simp⟩
        · refine ⟨first :: before, placement, rest, rfl, rfl, ?_⟩
          intro earlier member
          rcases List.mem_cons.mp member with rfl | inner
          · simpa using other
          · exact apart earlier inner
      · intro split
        obtain ⟨before, placement, rest, whole, rfl, apart⟩ := split
        cases before with
        | nil =>
            cases whole
            exact .inl rfl
        | cons earlier before =>
            cases whole
            refine .inr ⟨⟨before, placement, rest, rfl, rfl, ?_⟩, ?_⟩
            · exact fun other member => apart other (List.mem_cons_of_mem _ member)
            · simpa using apart first List.mem_cons_self

theorem exists_owned_of_nestedIn {number : Nat} {rest : List Placement} (nonempty : nestedIn number rest ≠ []) :
    ∃ placement ∈ rest, placement.owner = some number := by
  obtain ⟨node, member⟩ := List.exists_mem_of_ne_nil _ nonempty
  obtain ⟨item, among, -⟩ := List.mem_map.mp member
  obtain ⟨listed, owned⟩ := List.mem_filter.mp among
  obtain ⟨before, placement, after, rfl, rfl, -⟩ := mem_nest_iff.mp listed
  exact ⟨placement, by simp, by simpa using owned⟩

/-- Each placement has one statement below the nodes that nesting gives. -/
theorem statementsIn_nest {placements : List Placement}
    (opened : ∀ inner ∈ placements, ∀ outer ∈ placements, inner.owner = some outer.number →
      outer.statement.shape.opensBlock = true) :
    ((statementsIn ((nest placements).map Prod.snd)).map label).Perm
      ((placements.map Placement.statement).map Statement.label) := by
  induction placements with
  | nil => exact .nil
  | cons first rest ih =>
      have later := ih fun inner within outer among =>
        opened inner (List.mem_cons_of_mem _ within) outer (List.mem_cons_of_mem _ among)
      have fits : first.statement.shape.opensBlock = true ∨ nestedIn first.number rest = [] := by
        by_cases none : nestedIn first.number rest = []
        · exact .inr none
        · obtain ⟨inner, within, owned⟩ := exists_owned_of_nestedIn none
          exact .inl (opened inner (List.mem_cons_of_mem _ within) first List.mem_cons_self owned)
      rw [nest_cons, List.map_cons, statementsIn_cons, Placement.nodeBefore, Statement.label_node,
        Statement.isStatement_label, Statement.statementsIn_children fits, if_pos rfl, List.append_assoc,
        List.singleton_append, List.map_cons, Statement.label_node, List.map_cons, List.map_cons]
      apply List.Perm.cons
      refine List.Perm.trans ?_ later
      apply List.Perm.map
      simp only [nestedIn, statementsIn, List.flatMap_map]
      rw [← List.filter_append, ← List.flatMap_append]
      apply List.Perm.filter
      apply List.Perm.flatMap_right
      exact List.filter_append_perm _ _

/-! Places. -/

/-- Numbers are places, and an owner is an earlier placement that opens a block. -/
structure WellPlaced (placements : List Placement) : Prop where
  number : ∀ (place : Nat) (placement : Placement), placements[place]? = some placement →
    placement.number = place
  owner : ∀ (place : Nat) (placement : Placement) (outer : Nat), placements[place]? = some placement →
    placement.owner = some outer → outer < place ∧
      ∃ opening : Placement, placements[outer]? = some opening ∧ opening.statement.shape.opensBlock = true

section WellPlaced

variable {placements : List Placement} {place : Nat} {placement : Placement}

theorem drop_eq_cons (stands : placements[place]? = some placement) :
    placements.drop place = placement :: placements.drop (place + 1) := by
  obtain ⟨bound, rfl⟩ := List.getElem?_eq_some_iff.mp stands
  exact List.drop_eq_getElem_cons bound

def nodeAt (placements : List Placement) (place : Nat) (placement : Placement) : Node :=
  placement.nodeBefore (placements.drop (place + 1))

theorem WellPlaced.mem_nest (placed : WellPlaced placements) (stands : placements[place]? = some placement)
    {first : Nat} (behind : first ≤ place) (outside : ∀ outer, placement.owner = some outer → outer < first) :
    (placement.owner, nodeAt placements place placement) ∈ nest (placements.drop first) := by
  apply mem_nest_iff.mpr
  refine ⟨(placements.drop first).take (place - first), placement, placements.drop (place + 1), ?_, rfl, ?_⟩
  · have onward : placements.drop place = (placements.drop first).drop (place - first) := by
      rw [List.drop_drop, Nat.add_sub_cancel' behind]
    rw [← drop_eq_cons stands, onward, List.take_append_drop]
  · intro earlier member owned
    obtain ⟨index, among⟩ := List.mem_iff_getElem?.mp (List.mem_of_mem_take member)
    rw [List.getElem?_drop] at among
    have number := placed.number _ earlier among
    have less := outside earlier.number owned
    omega

theorem WellPlaced.mem_nestedIn (placed : WellPlaced placements) (stands : placements[place]? = some placement)
    {outer : Nat} (owned : placement.owner = some outer) :
    nodeAt placements place placement ∈ nestedIn outer (placements.drop (outer + 1)) := by
  have listed : (placement.owner, nodeAt placements place placement) ∈ nest (placements.drop (outer + 1)) := by
    apply placed.mem_nest stands (placed.owner place placement outer stands owned).1
    intro other same
    cases owned.symm.trans same
    exact Nat.lt_succ_self outer
  exact List.mem_map.mpr ⟨_, List.mem_filter.mpr ⟨listed, by simp [owned]⟩, rfl⟩

theorem WellPlaced.exists_block (placed : WellPlaced placements) (stands : placements[place]? = some placement)
    {outer : Nat} (owned : placement.owner = some outer) :
    ∃ opening block, placements[outer]? = some opening ∧
      block ∈ (nodeAt placements outer opening).children ∧ block.kind = "block" ∧
      nodeAt placements place placement ∈ block.children := by
  obtain ⟨-, opening, earlier, opens⟩ := placed.owner place placement outer stands owned
  obtain ⟨block, part, kind, nested⟩ := Statement.exists_block opens
  refine ⟨opening, block, earlier, part, kind, ?_⟩
  rw [nested, placed.number outer opening earlier]
  exact placed.mem_nestedIn stands owned

theorem WellPlaced.nodeAt_mem_preorder (placed : WellPlaced placements) {root : Node}
    (children : root.children = (nest placements).map Prod.snd)
    (stands : placements[place]? = some placement) : nodeAt placements place placement ∈ root.preorder := by
  -- an owner comes before what it owns, so that the induction is on the place
  induction place using Nat.strongRecOn generalizing placement with
  | ind place ih =>
      cases owned : placement.owner with
      | none =>
          apply mem_preorder_of_child root.mem_preorder_self
          have listed := placed.mem_nest stands (Nat.zero_le place) (by simp [owned])
          rw [children]
          exact List.mem_map_of_mem listed
      | some outer =>
          obtain ⟨opening, block, earlier, part, -, member⟩ := placed.exists_block stands owned
          have above := ih outer (placed.owner place placement outer stands owned).1 earlier
          exact mem_preorder_of_child (mem_preorder_of_child above part) member

theorem WellPlaced.opened (placed : WellPlaced placements) :
    ∀ inner ∈ placements, ∀ outer ∈ placements, inner.owner = some outer.number →
      outer.statement.shape.opensBlock = true := by
  intro inner within outer among owned
  obtain ⟨place, stands⟩ := List.mem_iff_getElem?.mp within
  obtain ⟨first, earlier⟩ := List.mem_iff_getElem?.mp among
  obtain ⟨-, opening, found, opens⟩ := placed.owner place inner outer.number stands owned
  rw [placed.number first outer earlier, earlier] at found
  cases found
  exact opens

end WellPlaced

theorem wellPlaced_placements (statements : List Statement) :
    WellPlaced (placements 0 [rootBlock] statements) := by
  refine ⟨fun place placement stands => (eq_of_placement stands).1, ?_⟩
  intro place placement outer stands owned
  obtain ⟨-, -, owner⟩ := eq_of_placement stands
  rw [owned] at owner
  obtain ⟨⟨opening, line, earlier, -, before, opens, -⟩, -⟩ := owner
  obtain ⟨above, found, -⟩ := exists_placement earlier
  exact ⟨before, _, found, opens⟩

/-! Rows. -/

theorem map_row_sourceLines (row offset : Nat) (lines : List (List Char)) :
    (sourceLines row offset lines).map SourceLine.row = List.range' row lines.length := by
  induction lines generalizing row offset with
  | nil => rfl
  | cons line rest ih => rw [sourceLines, List.map_cons, ih, List.length_cons, List.range'_succ]

theorem nodup_rows (source : ByteArray) : ((statementsOf source).map Statement.row).Nodup := by
  have rows : ((linesOf source).map SourceLine.row).Nodup := by
    rw [linesOf, map_row_sourceLines]
    exact List.nodup_range'
  rw [statementsOf, List.map_map]
  exact rows.sublist (List.filter_sublist.map _)

/-! The tree of a source. -/

section Tree

variable {tree root : Node} (same : tree.unnumbered = root.unnumbered)

include same

theorem exists_unnumbered {node : Node} (inside : node ∈ root.preorder) :
    ∃ found ∈ tree.preorder, found.unnumbered = node.unnumbered := by
  apply List.mem_map.mp
  rw [← preorder_unnumbered, same, preorder_unnumbered]
  exact List.mem_map_of_mem inside

theorem exists_unnumbered_child {child : Node} (member : child ∈ root.children) :
    ∃ found ∈ tree.children, found.unnumbered = child.unnumbered := by
  apply List.mem_map.mp
  rw [← children_unnumbered, same, children_unnumbered]
  exact List.mem_map_of_mem member

end Tree

theorem Statement.isNode_of_unnumbered {statement : Statement} {node : Node} {nested : List Node}
    (same : node.unnumbered = (statement.node nested).unnumbered) : statement.IsNode node := by
  have label := congrArg Node.label same
  rwa [label_unnumbered, label_unnumbered, statement.label_node, statement.unnumbered_label] at label

theorem isStatement_of_isNode {statement : Statement} {node : Node} (own : statement.IsNode node) :
    isStatement node.label = true := by
  have plain : isStatement node.label.unnumbered = true := by
    rw [own]
    exact statement.isStatement_label
  exact plain

def rootOf (source : ByteArray) : Node :=
  .mk ⟨0, "module", 0, source.size, ⟨0, 0⟩, endOf (linesOf source), true, none⟩
    ((nest (placements 0 [rootBlock] (statementsOf source))).map Prod.snd)

theorem unnumbered_build (source : ByteArray) : (build source).unnumbered = (rootOf source).unnumbered :=
  (renumbered 0 (rootOf source)).same

theorem map_statement_placements (statements : List Statement) (number : Nat) (blocks : List OpenBlock) :
    (placements number blocks statements).map Placement.statement = statements := by
  induction statements generalizing number blocks with
  | nil => rfl
  | cons line rest ih => rw [placements, List.map_cons, ih]

theorem labels_build (source : ByteArray) :
    (((build source).preorder.filter fun node => isStatement node.label).map
      fun node => node.label.unnumbered).Perm ((statementsOf source).map Statement.label) := by
  have numberless (tree : Node) : (tree.preorder.filter fun node => isStatement node.label).map
      (fun node => node.label.unnumbered) =
        (tree.unnumbered.preorder.filter fun node => isStatement node.label).map label := by
    rw [preorder_unnumbered, List.filter_map, List.map_map]
    simp only [Function.comp_def, label_unnumbered]
    rfl
  have below : (rootOf source).preorder.filter (fun node => isStatement node.label) =
      statementsIn ((nest (placements 0 [rootBlock] (statementsOf source))).map Prod.snd) := by
    have top : isStatement (rootOf source).label = false := rfl
    rw [preorder_eq, List.filter_cons_of_neg (by simp [top])]
    rfl
  have labels := (statementsIn_nest (wellPlaced_placements (statementsOf source)).opened).map
    NodeLabel.unnumbered
  rw [map_statement_placements, List.map_map, List.map_map] at labels
  simp only [Function.comp_def, Statement.unnumbered_label] at labels
  rw [numberless, unnumbered_build, ← numberless, below]
  exact labels

theorem eq_of_isNode {source : ByteArray} {line : Statement} {node other : Node}
    (inside : node ∈ (build source).preorder) (within : other ∈ (build source).preorder)
    (own : line.IsNode node) (alike : line.IsNode other) : node = other := by
  have rows : (((statementsOf source).map Statement.label).map fun label => label.start.row).Nodup := by
    rw [List.map_map]
    simp only [Function.comp_def, Statement.row_label]
    exact nodup_rows source
  have labels := (labels_build source).nodup_iff.mpr (List.Nodup.of_map _ rows)
  apply List.inj_on_of_nodup_map labels
  · exact List.mem_filter.mpr ⟨inside, isStatement_of_isNode own⟩
  · exact List.mem_filter.mpr ⟨within, isStatement_of_isNode alike⟩
  · exact own.trans alike.symm

/-- The node of a line stands in the block of the line's owner, and at the top if that is the root. -/
inductive StandsIn (statements : List Statement) (tree : Node) (number : Nat) (node : Node) : Prop where
  | top (free : IsOwner statements number none) (member : node ∈ tree.children) :
      StandsIn statements tree number node
  | block {outer : Nat} {opening : Statement} {above block : Node}
      (owner : IsOwner statements number (some outer)) (line : statements[outer]? = some opening)
      (inside : above ∈ tree.preorder) (own : opening.IsNode above) (part : block ∈ above.children)
      (kind : block.kind = "block") (member : node ∈ block.children) : StandsIn statements tree number node

theorem exists_standsIn (source : ByteArray) {number : Nat} {line : Statement}
    (stands : (statementsOf source)[number]? = some line) :
    ∃ node ∈ (build source).preorder, line.IsNode node ∧
      StandsIn (statementsOf source) (build source) number node := by
  have placed := wellPlaced_placements (statementsOf source)
  have same := unnumbered_build source
  obtain ⟨owner, found, owned⟩ := exists_placement stands
  cases owner with
  | none =>
      have listed := placed.mem_nest found (Nat.zero_le number) (by simp)
      have child : nodeAt _ number _ ∈ (rootOf source).children := List.mem_map_of_mem listed
      obtain ⟨node, member, alike⟩ := exists_unnumbered_child same child
      refine ⟨node, mem_preorder_of_child (mem_preorder_self _) member, ?_, .top owned member⟩
      exact Statement.isNode_of_unnumbered alike
  | some outer =>
      obtain ⟨opening, block, earlier, part, kind, inner⟩ := placed.exists_block found rfl
      have raw : nodeAt _ outer opening ∈ (rootOf source).preorder := placed.nodeAt_mem_preorder rfl earlier
      -- the three nodes are found again, from the outer line's down
      obtain ⟨above, inside, sameAbove⟩ := exists_unnumbered same raw
      obtain ⟨body, member, sameBody⟩ := exists_unnumbered_child sameAbove part
      obtain ⟨node, lowest, sameNode⟩ := exists_unnumbered_child sameBody inner
      have bodyKind : body.kind = "block" := by
        have labels := congrArg (fun node => node.label.kind) sameBody
        simp only [label_unnumbered] at labels
        exact labels.trans kind
      refine ⟨node, mem_preorder_of_child (mem_preorder_of_child inside member) lowest,
        Statement.isNode_of_unnumbered sameNode, ?_⟩
      exact .block owned (eq_of_placement earlier).2.1 inside (Statement.isNode_of_unnumbered sameAbove) member
        bodyKind lowest

def openingSource : ByteArray := "def f():\n x\n".toUTF8

theorem exists_lines_openingSource : ∃ opening line, statementsOf openingSource = [opening, line] ∧
    opening.indent = 0 ∧ opening.shape.opensBlock = true ∧ line.indent = 1 := by
  have told : (statementsOf openingSource).map (fun line => (line.indent, line.shape.opensBlock)) =
      [(0, true), (1, false)] := by
    decide +kernel
  obtain ⟨opening, rest, whole, first, others⟩ := List.map_eq_cons_iff.mp told
  obtain ⟨line, more, rfl, second, none⟩ := List.map_eq_cons_iff.mp others
  obtain rfl := List.map_eq_nil_iff.mp none
  simp only [Prod.mk.injEq] at first second
  exact ⟨opening, line, whole, first.1, first.2, second.1⟩

end Arborist.Sketch
