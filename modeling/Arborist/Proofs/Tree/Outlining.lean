import Mathlib
import Arborist.Proofs.Tree.Walking
import Arborist.Tree.Outline

/-!
Outlines of trees in which no two nodes have the same extent.  The walk enters every node once, below its
parent, so that the entries can be told from the tree by recursion, and so can what is put together from
them.
-/

namespace Arborist

namespace Node

def extents (levels : Nat) (node : Node) : List Extent := (node.within levels).map extent

@[simp] theorem extents_zero (node : Node) : node.extents 0 = [node.extent] := rfl

@[simp] theorem extents_succ (levels : Nat) (node : Node) :
    node.extents (levels + 1) = node.extent :: node.children.flatMap (extents levels) := by
  rw [extents, within, List.map_cons, List.map_flatMap]
  rfl

section Recursion

variable (source : ByteArray) (includeText : Bool)

/-- The outline of a node with so many levels below it: a node with none left is cut off. -/
def unfolded : Nat → Node → Outline
  | 0, node =>
    .mk node.label (if includeText ∧ ¬ source.isEmpty then some (node.text source) else none)
      node.children.length .cut
  | levels + 1, node =>
    .mk node.label (if includeText ∧ ¬ source.isEmpty then some (node.text source) else none)
      node.children.length (.list (node.children.map (unfolded levels)))

def entry (node : Node) (below : Below Extent) : OutlineEntry :=
  { label := node.label
    text := node.shownText source includeText
    count := node.children.length
    below }

def extentsBelow : Nat → Node → Below Extent
  | 0, _ => .cut
  | _ + 1, node => .list (node.children.map extent)

def entriesWithin : Nat → Node → List (Extent × OutlineEntry)
  | 0, node => [(node.extent, node.entry source includeText (node.extentsBelow 0))]
  | levels + 1, node =>
    (node.extent, node.entry source includeText (node.extentsBelow (levels + 1))) ::
      node.children.flatMap (entriesWithin levels)

theorem shownText_eq (node : Node) : node.shownText source includeText =
    if includeText ∧ ¬ source.isEmpty then some (node.text source) else none := by
  simp [shownText]

theorem keys_entriesWithin (levels : Nat) (node : Node) :
    (node.entriesWithin source includeText levels).map Prod.fst = node.extents levels := by
  induction levels generalizing node with
  | zero => rfl
  | succ levels ih => simp [entriesWithin, List.map_flatMap, ih]

theorem mem_entriesWithin (levels : Nat) (node : Node) :
    (node.extent, node.entry source includeText (node.extentsBelow levels)) ∈
      node.entriesWithin source includeText levels := by
  cases levels <;> simp [entriesWithin]

end Recursion

end Node

namespace OutlineState

def keys (entries : List (Extent × OutlineEntry)) : List Extent := entries.map Prod.fst

def lookup (entries : List (Extent × OutlineEntry)) (extent : Extent) : Option OutlineEntry :=
  (entries.find? fun (other, _) => other = extent).map Prod.snd

theorem entry?_eq_lookup (state : OutlineState) (extent : Extent) :
    state.entry? extent = lookup state.entries extent := rfl

theorem lookup_eq_none_iff {entries : List (Extent × OutlineEntry)} {extent : Extent} :
    lookup entries extent = none ↔ extent ∉ keys entries := by
  simp only [lookup, Option.map_eq_none_iff, List.find?_eq_none, keys, List.mem_map, not_exists, not_and,
    decide_eq_true_eq]

theorem lookup_of_mem {entries : List (Extent × OutlineEntry)} (distinct : (keys entries).Nodup)
    {pair : Extent × OutlineEntry} (member : pair ∈ entries) : lookup entries pair.1 = some pair.2 := by
  rw [lookup, Option.map_eq_some_iff]
  refine ⟨pair, ?_, rfl⟩
  cases found : entries.find? (fun other => other.1 = pair.1) with
  | none => simpa using List.find?_eq_none.mp found pair member
  | some other =>
      have same : other.1 = pair.1 := by simpa using List.find?_some found
      exact congrArg some (List.inj_on_of_nodup_map distinct (List.mem_of_find?_eq_some found) member same)

section Attach

variable {entries others : List (Extent × OutlineEntry)} {parent child : Extent}

@[simp] theorem keys_attach : keys (attach entries parent child) = keys entries := by
  simp only [keys, attach, List.map_map]
  apply List.map_congr_left
  rintro ⟨extent, entry⟩ -
  grind

theorem attach_of_not_mem (apart : parent ∉ keys entries) : attach entries parent child = entries := by
  have same (pair : Extent × OutlineEntry) (member : pair ∈ entries) : pair.1 ≠ parent := by
    rintro rfl
    exact apart (List.mem_map_of_mem member)
  rw [attach]
  conv_rhs => rw [← List.map_id entries]
  apply List.map_congr_left
  intro pair member
  simp [same pair member]

theorem attach_append :
    attach (entries ++ others) parent child = attach entries parent child ++ attach others parent child :=
  List.map_append

theorem attach_singleton {entry : OutlineEntry} {items : List Extent} (listing : entry.below = .list items) :
    attach [(parent, entry)] parent child =
      [(parent, { entry with below := .list (items ++ [child]), count := items.length + 1 })] := by
  simp [attach, listing]

def attachAll (entries : List (Extent × OutlineEntry)) (parent : Extent) (children : List Extent) :
    List (Extent × OutlineEntry) :=
  children.foldl (attach · parent ·) entries

@[simp] theorem attachAll_nil : attachAll entries parent [] = entries := rfl

@[simp] theorem attachAll_cons (rest : List Extent) :
    attachAll entries parent (child :: rest) = attachAll (attach entries parent child) parent rest := rfl

theorem attachAll_of_not_mem (apart : parent ∉ keys entries) (children : List Extent) :
    attachAll entries parent children = entries := by
  induction children with
  | nil => rfl
  | cons child rest ih => rw [attachAll_cons, attach_of_not_mem apart, ih]

theorem attachAll_append (children : List Extent) :
    attachAll (entries ++ others) parent children =
      attachAll entries parent children ++ attachAll others parent children := by
  induction children generalizing entries others with
  | nil => rfl
  | cons child rest ih => rw [attachAll_cons, attach_append, ih, attachAll_cons, attachAll_cons]

theorem attachAll_singleton {entry : OutlineEntry} {items : List Extent} (listing : entry.below = .list items)
    (children : List Extent) : attachAll [(parent, entry)] parent children =
      [(parent, { entry with
        below := .list (items ++ children)
        count := if children = [] then entry.count else items.length + children.length })] := by
  induction children generalizing entry items with
  | nil => simp [← listing]
  | cons child rest ih =>
      have counted : (if rest = [] then items.length + 1 else (items ++ [child]).length + rest.length) =
          items.length + (child :: rest).length := by
        simp only [List.length_append, List.length_cons, List.length_nil]
        split
        next last => simp [last]
        next => omega
      rw [attachAll_cons, attach_singleton listing, ih rfl, List.append_assoc, List.singleton_append, counted,
        if_neg (List.cons_ne_nil child rest)]

theorem attachAll_entry (source : ByteArray) (includeText : Bool) (node : Node) :
    attachAll [(node.extent, node.entry source includeText (.list []))] node.extent
      (node.children.map Node.extent) =
      [(node.extent, node.entry source includeText (.list (node.children.map Node.extent)))] := by
  rw [attachAll_singleton rfl]
  cases children : node.children with
  | nil => simp [Node.entry, children]
  | cons first others => simp [Node.entry, children]

end Attach

end OutlineState

section Visits

variable (source : ByteArray) {options : OutlineOptions} {levels : Nat} {parent : Extent} {up : List Extent}
  {state : OutlineState}

open OutlineState

theorem outlineVisit_fst (options : OutlineOptions) (node : Node) (field : Option String) (depth : Nat)
    (state : OutlineState) :
    (outlineVisit source options node field depth state).1 = decide ((depth : Int) < options.maxDepth) := by
  rw [outlineVisit]
  dsimp only
  split
  · rfl
  · split <;> rfl

structure OutlineState.StandsBelow (options : OutlineOptions) (levels : Nat) (parent : Extent)
    (up : List Extent) (state : OutlineState) : Prop where
  spine : parent :: up <:+ state.spine
  limit : options.maxDepth = up.length + 1 + levels

theorem outlineVisit_fresh (stands : StandsBelow options levels parent up state) {node : Node}
    (fresh : node.extent ∉ keys state.entries) (field : Option String) :
    outlineVisit source options node field (up.length + 1) state = (decide (0 < levels),
      { entries := attach state.entries parent node.extent ++
          [(node.extent, node.entry source options.includeText (if 0 < levels then .list [] else .cut))]
        spine := node.extent :: parent :: up }) := by
  have ancestors : state.spine.drop (state.spine.length - (up.length + 1)) = parent :: up := by
    obtain ⟨above, spine⟩ := stands.spine
    have back : (above ++ parent :: up).length - (up.length + 1) = above.length := by simp
    rw [← spine, back, List.drop_left]
  have goes : ((up.length + 1 : Nat) : Int) < options.maxDepth ↔ 0 < levels := by
    have limit := stands.limit
    omega
  rw [outlineVisit]
  simp only [entry?_eq_lookup, lookup_eq_none_iff.mpr fresh, ancestors, goes]
  simp [Node.entry]

/-- A node that is visited with all that is below it is added below its parent, leaves its entries at the
end, and leaves the walk where it was. -/
def Node.Enters (source : ByteArray) (options : OutlineOptions) (levels : Nat) (node : Node) : Prop :=
  ∀ {parent : Extent} {up : List Extent} {state : OutlineState} (field : Option String),
    StandsBelow options levels parent up state → (node.extents levels).Nodup →
    List.Disjoint (keys state.entries) (node.extents levels) →
    (node.visitAll (outlineVisit source options) field (up.length + 1) state).entries =
      attach state.entries parent node.extent ++ node.entriesWithin source options.includeText levels ∧
    StandsBelow options levels parent up
      (node.visitAll (outlineVisit source options) field (up.length + 1) state)

theorem visitEach_fresh {children : List Node}
    (enters : ∀ child ∈ children, child.Enters source options levels)
    (stands : StandsBelow options levels parent up state)
    (distinct : (children.flatMap (Node.extents levels)).Nodup)
    (apart : List.Disjoint (keys state.entries) (children.flatMap (Node.extents levels)))
    (known : parent ∈ keys state.entries) :
    (Node.visitEach (outlineVisit source options) (up.length + 1) state children).entries =
      attachAll state.entries parent (children.map Node.extent) ++
        children.flatMap (Node.entriesWithin source options.includeText levels) ∧
    StandsBelow options levels parent up
      (Node.visitEach (outlineVisit source options) (up.length + 1) state children) := by
  induction children generalizing state with
  | nil => exact ⟨(List.append_nil _).symm, stands⟩
  | cons child rest ih =>
      rw [List.flatMap_cons] at distinct apart
      obtain ⟨first, later, between⟩ := List.nodup_append'.mp distinct
      obtain ⟨apartFirst, apartLater⟩ := List.disjoint_append_right.mp apart
      obtain ⟨entered, stillStands⟩ :=
        enters child List.mem_cons_self child.field stands first apartFirst
      have added : keys (child.visitAll (outlineVisit source options) child.field (up.length + 1)
          state).entries = keys state.entries ++ child.extents levels := by
        rw [entered, keys, List.map_append, Node.keys_entriesWithin]
        exact congrArg (· ++ _) keys_attach
      have outside : parent ∉ keys (child.entriesWithin source options.includeText levels) := by
        rw [keys, Node.keys_entriesWithin]
        exact fun inside => apartFirst known inside
      obtain ⟨done, stands⟩ := ih (fun other member => enters other (List.mem_cons_of_mem _ member))
        stillStands later (by rw [added]; exact List.disjoint_append_left.mpr ⟨apartLater, between⟩)
        (by rw [added]; exact List.mem_append_left _ known)
      refine ⟨?_, stands⟩
      -- what is added below the parent later passes by the entries of this child
      rw [Node.visitEach, done, entered, attachAll_append, attachAll_of_not_mem outside, List.map_cons,
        attachAll_cons, List.flatMap_cons, List.append_assoc]

theorem Node.enters (options : OutlineOptions) (levels : Nat) (node : Node) :
    node.Enters source options levels := by
  induction levels generalizing node with
  | zero =>
      intro parent up state field stands distinct apart
      have fresh : node.extent ∉ keys state.entries := fun known => apart known (by simp)
      have visited := outlineVisit_fresh source stands fresh field
      rw [Node.visitAll_of_stays (by simpa using visited)]
      exact ⟨rfl, List.suffix_cons _ _, stands.limit⟩
  | succ levels ih =>
      intro parent up state field stands distinct apart
      rw [Node.extents_succ] at distinct apart
      obtain ⟨own, below⟩ := List.nodup_cons.mp distinct
      obtain ⟨fresh, apart⟩ := List.disjoint_cons_right.mp apart
      have visited := outlineVisit_fresh source stands fresh field
      simp only [Nat.zero_lt_succ, decide_true, if_true] at visited
      rw [Node.visitAll_of_goes visited]
      have added : keys (attach state.entries parent node.extent ++
          [(node.extent, node.entry source options.includeText (.list []))]) =
          keys state.entries ++ [node.extent] := by
        rw [keys, List.map_append]
        exact congrArg (· ++ _) keys_attach
      have deeper : StandsBelow options levels node.extent (parent :: up)
          { entries := attach state.entries parent node.extent ++
              [(node.extent, node.entry source options.includeText (.list []))]
            spine := node.extent :: parent :: up } := by
        refine ⟨List.suffix_refl _, ?_⟩
        have limit := stands.limit
        simp only [List.length_cons]
        omega
      obtain ⟨done, stands'⟩ := visitEach_fresh source (fun child _ => ih child) deeper below
        (by rw [added]; exact List.disjoint_append_left.mpr ⟨apart, List.singleton_disjoint.mpr own⟩)
        (by rw [added]; simp)
      have outside : node.extent ∉ keys (attach state.entries parent node.extent) := by
        rw [keys_attach]
        exact fresh
      refine ⟨?_, (List.suffix_cons _ _).trans stands'.spine, stands.limit⟩
      refine done.trans ?_
      rw [attachAll_append, attachAll_of_not_mem outside, attachAll_entry, Node.entriesWithin,
        Node.extentsBelow, List.append_assoc, List.singleton_append]

end Visits

section Assembly

open OutlineState

variable {source : ByteArray} {includeText : Bool} {state : OutlineState}

theorem length_entriesWithin_lt (source : ByteArray) (includeText : Bool) (levels : Nat)
    {node child : Node} (member : child ∈ node.children) :
    (child.entriesWithin source includeText levels).length <
      (node.entriesWithin source includeText (levels + 1)).length := by
  rw [Node.entriesWithin, List.length_cons, List.length_flatMap]
  exact Nat.lt_succ_of_le (List.le_sum_of_mem (List.mem_map_of_mem member))

theorem assemble_entriesWithin {levels fuel : Nat} {node : Node}
    (known : ∀ pair ∈ node.entriesWithin source includeText levels, state.entry? pair.1 = some pair.2)
    (enough : (node.entriesWithin source includeText levels).length ≤ fuel) :
    state.assemble fuel (node.entry source includeText (node.extentsBelow levels)) =
      node.unfolded source includeText levels := by
  induction levels generalizing node fuel with
  | zero =>
      cases fuel with
      | zero => simp [Node.entriesWithin] at enough
      | succ fuel => simp [assemble, Node.entry, Node.extentsBelow, Node.unfolded, Node.shownText_eq]
  | succ levels ih =>
      cases fuel with
      | zero => simp [Node.entriesWithin] at enough
      | succ fuel =>
          have below (child : Node) (member : child ∈ node.children)
              (pair : Extent × OutlineEntry) (inside : pair ∈ child.entriesWithin source includeText levels) :
              state.entry? pair.1 = some pair.2 := by
            apply known
            rw [Node.entriesWithin]
            exact List.mem_cons_of_mem _ (List.mem_flatMap.mpr ⟨child, member, inside⟩)
          have found : (node.children.map Node.extent).filterMap state.entry? =
              node.children.map fun child =>
                child.entry source includeText (child.extentsBelow levels) := by
            rw [List.filterMap_map, ← List.filterMap_eq_map]
            apply List.filterMap_congr
            intro child member
            exact below child member _ (Node.mem_entriesWithin source includeText levels child)
          have parts : (node.children.map fun child => state.assemble fuel
              (child.entry source includeText (child.extentsBelow levels))) =
              node.children.map (Node.unfolded source includeText levels) := by
            apply List.map_congr_left
            intro child member
            apply ih (below child member)
            have smaller := length_entriesWithin_lt source includeText levels member
            omega
          simp only [assemble, Node.entry, Node.extentsBelow, Node.unfolded, Node.shownText_eq]
          rw [found, List.map_map]
          exact congrArg _ (congrArg _ parts)

end Assembly

namespace Node

open OutlineState

variable (node : Node) (source : ByteArray) (options : OutlineOptions)

/-- The outline by recursion: the node alone if no depth is asked for. -/
def recursiveOutline : Outline :=
  if options.maxDepth ≤ 0 then
    .mk node.label (if options.includeText ∧ ¬ source.isEmpty then some (node.text source) else none)
      node.children.length (.list [])
  else node.unfolded source options.includeText options.maxDepth.toNat

def begun : OutlineState :=
  { entries := [(node.extent, node.entry source options.includeText (.list []))]
    spine := [node.extent] }

theorem outlineVisit_root : outlineVisit source options node none 0 (node.begun source options) =
    (decide (0 < options.maxDepth), node.begun source options) := by
  simp [outlineVisit]

theorem outline_of_walk {entry : OutlineEntry} {state : OutlineState}
    (walked : node.visitAll (outlineVisit source options) none 0 (node.begun source options) = state)
    (known : state.entry? node.extent = some entry) :
    node.outline source options = state.assemble (state.entries.length + 1) entry := by
  rw [← walk_eq_visitAll] at walked
  simp only [begun, Node.entry] at walked
  simp only [outline, walked, known]

theorem outline_of_shallow (shallow : options.maxDepth ≤ 0) :
    node.outline source options = node.recursiveOutline source options := by
  have visited := node.outlineVisit_root source options
  rw [decide_eq_false (not_lt.mpr shallow)] at visited
  have known : OutlineState.entry? (node.begun source options) node.extent =
      some (node.entry source options.includeText (.list [])) := by
    simp [begun, entry?]
  rw [outline_of_walk node source options (visitAll_of_stays visited) known, recursiveOutline, if_pos shallow]
  simp [assemble, Node.entry, shownText_eq]

theorem outline_of_deep (deep : 0 < options.maxDepth)
    (distinct : (node.extents options.maxDepth.toNat).Nodup) :
    node.outline source options = node.unfolded source options.includeText options.maxDepth.toNat := by
  obtain ⟨levels, depth⟩ : ∃ levels, options.maxDepth.toNat = levels + 1 :=
    Nat.exists_eq_succ_of_ne_zero (by omega)
  rw [depth] at distinct ⊢
  obtain ⟨own, below⟩ := List.nodup_cons.mp (node.extents_succ levels ▸ distinct)
  have stands : StandsBelow options levels node.extent [] (node.begun source options) :=
    ⟨List.suffix_refl _, by simp only [List.length_nil]; omega⟩
  have visited := node.outlineVisit_root source options
  rw [decide_eq_true deep] at visited
  obtain ⟨done, -⟩ := visitEach_fresh source (fun child _ => child.enters source options levels) stands below
    (List.singleton_disjoint.mpr own) List.mem_cons_self
  -- the root is given its children as every other node is
  have entries : (node.visitAll (outlineVisit source options) none 0 (node.begun source options)).entries =
      node.entriesWithin source options.includeText (levels + 1) := by
    rw [visitAll_of_goes visited]
    refine done.trans ?_
    rw [begun, attachAll_entry, entriesWithin, extentsBelow, List.singleton_append]
  have known (pair : Extent × OutlineEntry)
      (member : pair ∈ node.entriesWithin source options.includeText (levels + 1)) :
      OutlineState.entry? (node.visitAll (outlineVisit source options) none 0 (node.begun source options))
        pair.1 = some pair.2 := by
    rw [entry?_eq_lookup, entries]
    apply lookup_of_mem _ member
    rw [keys, keys_entriesWithin]
    exact distinct
  rw [outline_of_walk node source options rfl (known _ (mem_entriesWithin source options.includeText _ node)),
    entries]
  exact assemble_entriesWithin known (Nat.le_succ _)

def negated : Node :=
  .mk (labelled 0 "module" 0 4) [.mk (labelled 1 "negation" 0 4) [.mk (labelled 2 "-" 0 1) [],
    .mk (labelled 3 "group" 1 4) [.mk (labelled 4 "(" 1 2) [], .mk (labelled 5 "name" 2 3) [],
      .mk (labelled 6 ")" 3 4) []]]]

end Node

end Arborist
