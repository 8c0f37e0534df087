import Arborist.Proofs.Text.Stripping
import Arborist.Proofs.Tree.Routes
import Arborist.Proofs.Tree.Walking
import Arborist.Tree.Locate

/-!
The innermost node with a text.  The search goes on to the first child in whose extent the text occurs until
there is no such child, wherever the extents of the children lie.
-/

namespace Arborist.Node

variable {source : ByteArray} {text : List UInt8}

/-- The text occurs in the extent of a node. -/
def HasText (source : ByteArray) (text : List UInt8) (node : Node) : Prop := text <:+: (node.slice source).toList

/-- The node at which one ends who moves to the first child with the text as long as a child has it. -/
inductive LeadsTo (source : ByteArray) (text : List UInt8) : Node → Node → Prop where
  | stays {node : Node} (bare : ∀ child ∈ node.children, ¬ child.HasText source text) :
      LeadsTo source text node node
  | moves {node child last : Node} {before after : List Node} (split : node.children = before ++ child :: after)
      (bare : ∀ sibling ∈ before, ¬ sibling.HasText source text) (first : child.HasText source text)
      (onward : LeadsTo source text child last) : LeadsTo source text node last

theorem mentions_iff {node : Node} : node.mentions source text = true ↔ node.HasText source text :=
  Text.occursIn_iff_infix

theorem withText?_of_absent {node : Node} (absent : ¬ node.HasText source text) :
    node.withText? source text = none := by
  obtain ⟨label, children⟩ := node
  rw [withText?, if_neg (absent ∘ mentions_iff.mp)]

theorem withText?_of_hasText {node : Node} (has : node.HasText source text) :
    node.withText? source text = some ((firstWithText? source text node.children).getD node) := by
  obtain ⟨label, children⟩ := node
  rw [withText?, if_pos (mentions_iff.mpr has), Node.children]
  cases firstWithText? source text children <;> rfl

theorem withText?_eq_none_iff {node : Node} :
    node.withText? source text = none ↔ ¬ node.HasText source text := by
  constructor
  · intro missed has
    rw [withText?_of_hasText has] at missed
    cases missed
  · exact withText?_of_absent

/-! Among children. -/

theorem firstWithText?_of_bare {nodes : List Node} (bare : ∀ node ∈ nodes, ¬ node.HasText source text) :
    firstWithText? source text nodes = none := by
  induction nodes with
  | nil => rw [firstWithText?]
  | cons node rest ih =>
      rw [firstWithText?, withText?_of_absent (bare node List.mem_cons_self)]
      apply ih
      intro other member
      exact bare other (List.mem_cons_of_mem _ member)

theorem firstWithText?_append {before : List Node} (bare : ∀ node ∈ before, ¬ node.HasText source text)
    {child : Node} (has : child.HasText source text) (after : List Node) :
    firstWithText? source text (before ++ child :: after) = child.withText? source text := by
  induction before with
  | nil => rw [List.nil_append, firstWithText?, withText?_of_hasText has]
  | cons node rest ih =>
      rw [List.cons_append, firstWithText?, withText?_of_absent (bare node List.mem_cons_self)]
      apply ih
      intro other member
      exact bare other (List.mem_cons_of_mem _ member)

theorem bare_or_first (source : ByteArray) (text : List UInt8) (nodes : List Node) :
    (∀ node ∈ nodes, ¬ node.HasText source text) ∨
      ∃ before child after, nodes = before ++ child :: after ∧
        (∀ node ∈ before, ¬ node.HasText source text) ∧ child.HasText source text := by
  induction nodes with
  | nil => exact .inl nofun
  | cons node rest ih =>
      by_cases has : node.HasText source text
      · exact .inr ⟨[], node, rest, rfl, nofun, has⟩
      · apply ih.imp
        · intro bare
          exact List.forall_mem_cons.mpr ⟨has, bare⟩
        · intro split
          obtain ⟨before, child, after, rfl, bare, first⟩ := split
          exact ⟨node :: before, child, after, rfl, List.forall_mem_cons.mpr ⟨has, bare⟩, first⟩

/-! The way down. -/

namespace LeadsTo

variable {node last : Node}

theorem hasText (leads : LeadsTo source text node last) (has : node.HasText source text) :
    last.HasText source text := by
  induction leads with
  | stays bare => exact has
  | moves split bare first onward ih => exact ih first

theorem bare_below (leads : LeadsTo source text node last) :
    ∀ child ∈ last.children, ¬ child.HasText source text := by
  induction leads with
  | stays bare => exact bare
  | moves split bare first onward ih => exact ih

theorem withText?_eq (leads : LeadsTo source text node last) (has : node.HasText source text) :
    node.withText? source text = some last := by
  induction leads with
  | stays bare => rw [withText?_of_hasText has, firstWithText?_of_bare bare, Option.getD_none]
  | moves split bare first onward ih =>
      rw [withText?_of_hasText has, split, firstWithText?_append bare first, ih first, Option.getD_some]

end LeadsTo

theorem exists_leadsTo (source : ByteArray) (text : List UInt8) (node : Node) :
    ∃ last, LeadsTo source text node last := by
  induction node using childInduction with
  | step node ih =>
      rcases bare_or_first source text node.children with bare | ⟨before, child, after, split, bare, first⟩
      · exact ⟨node, .stays bare⟩
      · have member : child ∈ node.children := by
          rw [split]
          exact List.mem_append_right _ List.mem_cons_self
        obtain ⟨last, onward⟩ := ih child member
        exact ⟨last, .moves split bare first onward⟩

/-- There is no node exactly if the text does not occur in the extent of the start.  Else it is the one that
moving to first children with the text leads to, so that its extent has the text and that of no child does. -/
theorem withText?_innermost (source : ByteArray) (text : List UInt8) (node : Node) :
    (node.withText? source text = none ↔ ¬ text <:+: (node.slice source).toList) ∧
    (text <:+: (node.slice source).toList → ∃ found, node.withText? source text = some found ∧
      (∀ last, LeadsTo source text node last ↔ last = found) ∧
      text <:+: (found.slice source).toList ∧
      ∀ child ∈ found.children, ¬ text <:+: (child.slice source).toList) := by
  refine ⟨withText?_eq_none_iff, ?_⟩
  intro has
  obtain ⟨found, leads⟩ := exists_leadsTo source text node
  have returned := leads.withText?_eq has
  refine ⟨found, returned, ?_, leads.hasText has, leads.bare_below⟩
  intro last
  constructor
  · intro other
    exact Option.some.inj ((other.withText?_eq has).symm.trans returned)
  · intro same
    exact same ▸ leads

def outgrown : Node :=
  .mk (labelled 0 "call" 0 4)
    [.mk (labelled 1 "identifier" 0 1) [],
      .mk (labelled 2 "arguments" 1 7) [.mk (labelled 3 "identifier" 2 3) [], .mk (labelled 4 "comment" 4 7) []],
      .mk (labelled 5 "error" 0 4) []]

/-- In `f(x)#x)` the first `x)` is in the call, and the search ends below its arguments. -/
theorem withText?_outgrown :
    [120, 41] <:+: (outgrown.slice "f(x)#x)".toUTF8).toList ∧
    ∃ found, outgrown.withText? "f(x)#x)".toUTF8 [120, 41] = some found ∧ found.id = 4 ∧
      [120, 41] <:+: (found.slice "f(x)#x)".toUTF8).toList := by
  have has : [120, 41] <:+: (outgrown.slice "f(x)#x)".toUTF8).toList := by decide +kernel
  obtain ⟨found, returned, -, inside, -⟩ := (withText?_innermost _ _ outgrown).2 has
  have number : (outgrown.withText? "f(x)#x)".toUTF8 [120, 41]).map id = some 4 := by decide +kernel
  rw [returned] at number
  exact ⟨has, found, returned, Option.some.inj number, inside⟩

end Arborist.Node
