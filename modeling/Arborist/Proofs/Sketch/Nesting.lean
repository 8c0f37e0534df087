import Mathlib.Data.List.Induction
import Arborist.Sketch.Build

/-!
In which block a line stands.  When a line's turn comes, the open blocks are those of the earlier lines
that have only lines further right behind them, the latest on top, and below them all the root.  So what
is left after closing is headed by the nearest line that encloses the new one.
-/

namespace Arborist.Sketch

variable {done : List Statement} {statements : List Statement} {opened : List (Nat × Statement)} {line : Statement}

/-- A line opens a block and stands further left than a later line and than all lines between them. -/
def Encloses (statements : List Statement) (outer inner : Nat) : Prop :=
  ∃ opening line, statements[outer]? = some opening ∧ statements[inner]? = some line ∧ outer < inner ∧
    opening.shape.opensBlock = true ∧ opening.indent < line.indent ∧
    ∀ place between, outer < place → place < inner → statements[place]? = some between →
      opening.indent < between.indent

/-- The owner of a line is the nearest one that encloses it, and the root if there is none. -/
def IsOwner (statements : List Statement) (inner : Nat) : Option Nat → Prop
  | none => ∀ outer, ¬ Encloses statements outer inner
  | some outer => Encloses statements outer inner ∧ ∀ other, Encloses statements other inner → other ≤ outer

/-! Lines that open a block. -/

section Opening

variable {body : Piece} {shape : Shape}

theorem front_of_word? {word : String} {rest : Piece} (taken : body.word? word = some rest) :
    word.toList <+: body.text := by
  unfold Piece.word? at taken
  split at taken
  next fits => exact List.isPrefixOf_iff_prefix.mp fits
  next => cases taken

theorem opens_of_function? (read : function? body = some shape) : shape.opensBlock = true := by
  obtain ⟨afterWord, -, read⟩ := Option.bind_eq_some_iff.mp read
  obtain ⟨afterBlanks, -, read⟩ := Option.bind_eq_some_iff.mp read
  obtain ⟨⟨name, rest⟩, -, read⟩ := Option.bind_eq_some_iff.mp read
  obtain ⟨⟨parameters, rest⟩, -, read⟩ := Option.bind_eq_some_iff.mp read
  obtain ⟨afterColon, -, read⟩ := Option.bind_eq_some_iff.mp read
  cases read
  rfl

theorem opens_of_class? (read : class? body = some shape) : shape.opensBlock = true := by
  obtain ⟨afterWord, -, read⟩ := Option.bind_eq_some_iff.mp read
  obtain ⟨afterBlanks, -, read⟩ := Option.bind_eq_some_iff.mp read
  obtain ⟨⟨name, rest⟩, -, read⟩ := Option.bind_eq_some_iff.mp read
  dsimp only at read
  split at read
  · cases read
    rfl
  · cases read

theorem opens_of_compound? (read : compound? body = some shape) :
    shape.opensBlock = true ∧ ∃ word ∈ compoundWords, word.toList <+: body.text := by
  obtain ⟨word, found, read⟩ := Option.bind_eq_some_iff.mp read
  cases read
  have fits := List.find?_some found
  rw [Bool.and_eq_true] at fits
  exact ⟨rfl, word, List.mem_of_find?_eq_some found, List.isPrefixOf_iff_prefix.mp fits.1⟩

theorem closed_of_importFrom? (read : importFrom? body = some shape) :
    shape.opensBlock = false ∧ "from".toList <+: body.text := by
  obtain ⟨afterWord, front, read⟩ := Option.bind_eq_some_iff.mp read
  obtain ⟨afterBlanks, -, read⟩ := Option.bind_eq_some_iff.mp read
  obtain ⟨⟨origin, rest⟩, -, read⟩ := Option.bind_eq_some_iff.mp read
  obtain ⟨moreBlanks, -, read⟩ := Option.bind_eq_some_iff.mp read
  obtain ⟨afterImport, -, read⟩ := Option.bind_eq_some_iff.mp read
  obtain ⟨lastBlanks, -, read⟩ := Option.bind_eq_some_iff.mp read
  obtain ⟨⟨name, rest⟩, -, read⟩ := Option.bind_eq_some_iff.mp read
  cases read
  exact ⟨rfl, front_of_word? front⟩

theorem closed_of_importPlain? (read : importPlain? body = some shape) :
    shape.opensBlock = false ∧ "import".toList <+: body.text := by
  obtain ⟨afterWord, front, read⟩ := Option.bind_eq_some_iff.mp read
  obtain ⟨afterBlanks, -, read⟩ := Option.bind_eq_some_iff.mp read
  obtain ⟨⟨name, rest⟩, -, read⟩ := Option.bind_eq_some_iff.mp read
  cases read
  exact ⟨rfl, front_of_word? front⟩

theorem closed_of_assignment? (read : assignment? body = some shape) : shape.opensBlock = false := by
  obtain ⟨⟨left, rest⟩, -, read⟩ := Option.bind_eq_some_iff.mp read
  obtain ⟨afterSign, -, read⟩ := Option.bind_eq_some_iff.mp read
  dsimp only at read
  split at read
  · cases read
  · cases read
    rfl

theorem closed_of_call? (read : call? body = some shape) : shape.opensBlock = false := by
  obtain ⟨⟨function, rest⟩, -, read⟩ := Option.bind_eq_some_iff.mp read
  obtain ⟨⟨arguments, rest⟩, -, read⟩ := Option.bind_eq_some_iff.mp read
  dsimp only at read
  split at read
  · cases read
    rfl
  · cases read

theorem compound?_eq_none {word : String} (imports : word = "from" ∨ word = "import")
    (front : word.toList <+: body.text) : compound? body = none := by
  rw [Option.eq_none_iff_forall_ne_some]
  intro shape read
  obtain ⟨-, other, known, start⟩ := opens_of_compound? read
  have apart : ∀ other ∈ compoundWords, ¬ other.toList <+: word.toList ∧ ¬ word.toList <+: other.toList := by
    rcases imports with rfl | rfl <;> decide
  rcases List.prefix_or_prefix_of_prefix start front with inner | outer
  · exact (apart other known).1 inner
  · exact (apart other known).2 outer

theorem opensBlock_shapeOf_iff (body : Piece) : (shapeOf body).opensBlock = true ↔
    (function? body).isSome ∨ (class? body).isSome ∨ (compound? body).isSome := by
  unfold shapeOf
  cases isFunction : function? body with
  | some shape => simp [opens_of_function? isFunction]
  | none =>
  cases isClass : class? body with
  | some shape => simp [opens_of_class? isClass]
  | none =>
  cases isFrom : importFrom? body with
  | some shape =>
      obtain ⟨closed, front⟩ := closed_of_importFrom? isFrom
      simp [closed, compound?_eq_none (.inl rfl) front]
  | none =>
  cases isImport : importPlain? body with
  | some shape =>
      obtain ⟨closed, front⟩ := closed_of_importPlain? isImport
      simp [closed, compound?_eq_none (.inr rfl) front]
  | none =>
  cases isCompound : compound? body with
  | some shape => simp [(opens_of_compound? isCompound).1]
  | none =>
  cases isAssignment : assignment? body with
  | some shape => simp [closed_of_assignment? isAssignment]
  | none =>
  cases isCall : call? body with
  | some shape => simp [closed_of_call? isCall]
  | none => simp [Shape.opensBlock]

end Opening

/-! Lines that are still open. -/

def StillOpen (done : List Statement) (number : Nat) (opening : Statement) : Prop :=
  done[number]? = some opening ∧ opening.shape.opensBlock = true ∧
    ∀ place between, number < place → done[place]? = some between → opening.indent < between.indent

theorem not_stillOpen_nil (number : Nat) (opening : Statement) : ¬ StillOpen [] number opening := by
  intro still
  cases still.1

theorem stillOpen_append_singleton {line opening : Statement} {number : Nat} :
    StillOpen (done ++ [line]) number opening ↔
      StillOpen done number opening ∧ opening.indent < line.indent ∨
        number = done.length ∧ opening = line ∧ line.shape.opensBlock = true := by
  have before (place : Nat) (less : place < done.length) : (done ++ [line])[place]? = done[place]? :=
    List.getElem?_append_left less
  constructor
  · intro still
    obtain ⟨stands, opens, right⟩ := still
    rcases Nat.lt_trichotomy number done.length with earlier | rfl | later
    · refine .inl ⟨⟨(before number earlier).symm.trans stands, opens, ?_⟩, ?_⟩
      · intro place between after behind
        obtain ⟨bound, -⟩ := List.getElem?_eq_some_iff.mp behind
        exact right place between after ((before place bound).trans behind)
      · exact right done.length line earlier List.getElem?_concat_length
    · rw [List.getElem?_concat_length] at stands
      cases stands
      exact .inr ⟨rfl, rfl, opens⟩
    · obtain ⟨bound, -⟩ := List.getElem?_eq_some_iff.mp stands
      rw [List.length_append, List.length_singleton] at bound
      omega
  · intro split
    rcases split with ⟨⟨stands, opens, right⟩, left⟩ | ⟨rfl, rfl, opens⟩
    · obtain ⟨earlier, -⟩ := List.getElem?_eq_some_iff.mp stands
      refine ⟨(before number earlier).trans stands, opens, ?_⟩
      intro place between after behind
      obtain ⟨bound, -⟩ := List.getElem?_eq_some_iff.mp behind
      rw [List.length_append, List.length_singleton] at bound
      rcases Nat.lt_succ_iff_lt_or_eq.mp bound with inner | rfl
      · exact right place between after ((before place inner).symm.trans behind)
      · rw [List.getElem?_concat_length] at behind
        cases behind
        exact left
    · refine ⟨List.getElem?_concat_length, opens, ?_⟩
      intro place between after behind
      obtain ⟨bound, -⟩ := List.getElem?_eq_some_iff.mp behind
      rw [List.length_append, List.length_singleton] at bound
      omega

theorem encloses_iff {outer inner : Nat} (stands : statements[inner]? = some line) :
    Encloses statements outer inner ↔
      ∃ opening, StillOpen (statements.take inner) outer opening ∧ opening.indent < line.indent := by
  have taken (place : Nat) (less : place < inner) : (statements.take inner)[place]? = statements[place]? := by
    rw [List.getElem?_take, if_pos less]
  constructor
  · intro encloses
    obtain ⟨opening, other, first, second, before, opens, left, between⟩ := encloses
    cases stands.symm.trans second
    refine ⟨opening, ⟨(taken outer before).trans first, opens, ?_⟩, left⟩
    intro place middle after behind
    rw [List.getElem?_take] at behind
    split at behind
    next less => exact between place middle after less behind
    next => cases behind
  · intro still
    obtain ⟨opening, ⟨first, opens, right⟩, left⟩ := still
    have before : outer < inner := by
      obtain ⟨bound, -⟩ := List.getElem?_eq_some_iff.mp first
      exact Nat.lt_of_lt_of_le bound (List.length_take_le inner statements)
    refine ⟨opening, line, (taken outer before).symm.trans first, stands, before, opens, left, ?_⟩
    intro place middle after less behind
    exact right place middle after ((taken place less).trans behind)

/-! The stack. -/

def blocksOf (opened : List (Nat × Statement)) : List OpenBlock :=
  opened.map (fun item => ⟨item.2.indent, some item.1⟩) ++ [rootBlock]

/-- Lines on a stack: those that are still open, later ones above and further right. -/
structure Stacked (done : List Statement) (opened : List (Nat × Statement)) : Prop where
  mem_iff : ∀ number opening, (number, opening) ∈ opened ↔ StillOpen done number opening
  ordered : opened.Pairwise fun upper lower => lower.1 < upper.1 ∧ lower.2.indent < upper.2.indent

def keptOpen (indent : Nat) (opened : List (Nat × Statement)) : List (Nat × Statement) :=
  opened.dropWhile fun item => indent ≤ item.2.indent

theorem closeTo_blocksOf (indent : Nat) (opened : List (Nat × Statement)) :
    closeTo indent (blocksOf opened) = blocksOf (keptOpen indent opened) := by
  induction opened with
  | nil =>
      have above : ¬ (indent : Int) ≤ rootBlock.indent := by
        change ¬ (indent : Int) ≤ -1
        omega
      exact List.dropWhile_cons_of_neg (by simpa using above)
  | cons item rest ih =>
      by_cases closes : indent ≤ item.2.indent
      · have front : closeTo indent (blocksOf (item :: rest)) = closeTo indent (blocksOf rest) :=
          List.dropWhile_cons_of_pos (by simpa using closes)
        rw [front, ih, keptOpen, keptOpen, List.dropWhile_cons_of_pos (by simpa using closes)]
      · rw [keptOpen, List.dropWhile_cons_of_neg (by simpa using closes)]
        exact List.dropWhile_cons_of_neg (by simpa using closes)

/-- Indents grow towards the top, so that closing passes over all lines that do not stand further left. -/
theorem keptOpen_eq_filter (indent : Nat)
    (ordered : opened.Pairwise fun upper lower => lower.1 < upper.1 ∧ lower.2.indent < upper.2.indent) :
    keptOpen indent opened = opened.filter fun item => item.2.indent < indent := by
  induction opened with
  | nil => rfl
  | cons item rest ih =>
      obtain ⟨below, others⟩ := List.pairwise_cons.mp ordered
      by_cases closes : indent ≤ item.2.indent
      · rw [List.filter_cons_of_neg (by simpa using closes), ← ih others]
        exact List.dropWhile_cons_of_pos (by simpa using closes)
      · have all : ∀ other ∈ item :: rest, other.2.indent < indent := by
          intro other member
          rcases List.mem_cons.mp member with rfl | inner
          · omega
          · have := (below other inner).2
            omega
        rw [List.filter_eq_self.mpr (by simpa using all)]
        exact List.dropWhile_cons_of_neg (by simpa using closes)

theorem Stacked.mem_keptOpen_iff (stacked : Stacked done opened) {indent number : Nat} {opening : Statement} :
    (number, opening) ∈ keptOpen indent opened ↔ StillOpen done number opening ∧ opening.indent < indent := by
  rw [keptOpen_eq_filter indent stacked.ordered, List.mem_filter, stacked.mem_iff, decide_eq_true_eq]

theorem Stacked.keptOpen_ordered (stacked : Stacked done opened) (indent : Nat) :
    (keptOpen indent opened).Pairwise fun upper lower =>
      lower.1 < upper.1 ∧ lower.2.indent < upper.2.indent :=
  stacked.ordered.sublist (List.dropWhile_sublist _)

theorem Stacked.openAfter (stacked : Stacked done opened) (line : Statement) :
    ∃ next, Stacked (done ++ [line]) next ∧
      openAfter done.length line (blocksOf opened) = blocksOf next := by
  have kept (number : Nat) (opening : Statement) : (number, opening) ∈ keptOpen line.indent opened ↔
      StillOpen done number opening ∧ opening.indent < line.indent := stacked.mem_keptOpen_iff
  by_cases opens : line.shape.opensBlock = true
  · refine ⟨(done.length, line) :: keptOpen line.indent opened, ⟨?_, ?_⟩, ?_⟩
    · intro number opening
      rw [stillOpen_append_singleton, List.mem_cons, kept, or_comm, Prod.mk.injEq]
      simp only [opens, and_true]
    · refine List.pairwise_cons.mpr ⟨?_, stacked.keptOpen_ordered _⟩
      intro item member
      obtain ⟨⟨stands, -, -⟩, left⟩ := (kept item.1 item.2).mp member
      obtain ⟨bound, -⟩ := List.getElem?_eq_some_iff.mp stands
      exact ⟨bound, left⟩
    · rw [Sketch.openAfter, closeTo_blocksOf, if_pos opens]
      rfl
  · refine ⟨keptOpen line.indent opened, ⟨?_, stacked.keptOpen_ordered _⟩, ?_⟩
    · intro number opening
      rw [stillOpen_append_singleton, kept]
      simp only [opens, Bool.false_eq_true, and_false, or_false]
    · rw [Sketch.openAfter, closeTo_blocksOf, if_neg opens]

def stackAfter (number : Nat) (blocks : List OpenBlock) : List Statement → List OpenBlock
  | [] => blocks
  | line :: rest => stackAfter (number + 1) (openAfter number line blocks) rest

theorem stackAfter_append_singleton (number : Nat) (blocks : List OpenBlock) (done : List Statement)
    (line : Statement) : stackAfter number blocks (done ++ [line]) =
      openAfter (number + done.length) line (stackAfter number blocks done) := by
  induction done generalizing number blocks with
  | nil => rfl
  | cons first rest ih =>
      rw [List.cons_append, stackAfter, ih, stackAfter, List.length_cons, Nat.add_assoc, Nat.add_comm 1]

theorem exists_stacked (done : List Statement) :
    ∃ opened, Stacked done opened ∧ stackAfter 0 [rootBlock] done = blocksOf opened := by
  induction done using List.reverseRecOn with
  | nil =>
      refine ⟨[], ⟨?_, List.Pairwise.nil⟩, rfl⟩
      intro number opening
      simp only [List.not_mem_nil, not_stillOpen_nil]
  | append_singleton done line ih =>
      obtain ⟨opened, stacked, same⟩ := ih
      obtain ⟨next, after, step⟩ := stacked.openAfter line
      refine ⟨next, after, ?_⟩
      rw [stackAfter_append_singleton, same, Nat.zero_add, step]

/-- Closing leaves at least the root, and on top of what it leaves is the owner of the line. -/
theorem closeTo_stackAfter {inner : Nat} (stands : statements[inner]? = some line) :
    closeTo line.indent (stackAfter 0 [rootBlock] (statements.take inner)) ≠ [] ∧
      IsOwner statements inner ((closeTo line.indent
        (stackAfter 0 [rootBlock] (statements.take inner))).head?.bind OpenBlock.owner) := by
  obtain ⟨opened, stacked, same⟩ := exists_stacked (statements.take inner)
  have encloses (outer : Nat) :
      Encloses statements outer inner ↔ ∃ opening, (outer, opening) ∈ keptOpen line.indent opened := by
    simp only [encloses_iff stands, stacked.mem_keptOpen_iff]
  have ordered := stacked.keptOpen_ordered line.indent
  rw [same, closeTo_blocksOf]
  cases kept : keptOpen line.indent opened with
  | nil =>
      refine ⟨List.cons_ne_nil _ _, ?_⟩
      intro outer inside
      obtain ⟨opening, member⟩ := (encloses outer).mp inside
      rw [kept] at member
      cases member
  | cons top rest =>
      rw [kept] at ordered
      refine ⟨List.cons_ne_nil _ _, ?_, ?_⟩
      · apply (encloses top.1).mpr
        exact ⟨top.2, kept ▸ List.mem_cons_self⟩
      · intro other inside
        obtain ⟨opening, member⟩ := (encloses other).mp inside
        rw [kept] at member
        rcases List.mem_cons.mp member with rfl | lower
        · exact Nat.le_refl _
        · exact Nat.le_of_lt ((List.pairwise_cons.mp ordered).1 _ lower).1

theorem getElem?_placements (number : Nat) (blocks : List OpenBlock) (statements : List Statement)
    (place : Nat) : (placements number blocks statements)[place]? = statements[place]?.map fun line =>
      ⟨number + place, (closeTo line.indent
        (stackAfter number blocks (statements.take place))).head?.bind OpenBlock.owner, line⟩ := by
  induction statements generalizing number blocks place with
  | nil => rfl
  | cons line rest ih =>
      cases place with
      | zero => rfl
      | succ place =>
          rw [placements, List.getElem?_cons_succ, List.getElem?_cons_succ, ih, List.take_succ_cons, stackAfter,
            Nat.add_assoc, Nat.add_comm 1]

theorem exists_placement {number : Nat} (stands : statements[number]? = some line) :
    ∃ owner, (placements 0 [rootBlock] statements)[number]? = some ⟨number, owner, line⟩ ∧
      IsOwner statements number owner := by
  refine ⟨_, ?_, (closeTo_stackAfter stands).2⟩
  rw [getElem?_placements, stands, Option.map_some, Nat.zero_add]

theorem eq_of_placement {place : Nat} {placement : Placement}
    (stands : (placements 0 [rootBlock] statements)[place]? = some placement) :
    placement.number = place ∧ statements[place]? = some placement.statement ∧
      IsOwner statements place placement.owner := by
  have counted := stands
  rw [getElem?_placements] at counted
  obtain ⟨line, here, -⟩ := Option.map_eq_some_iff.mp counted
  obtain ⟨owner, found, owned⟩ := exists_placement here
  cases stands.symm.trans found
  exact ⟨rfl, here, owned⟩

end Arborist.Sketch
