import Arborist.Proofs.Tree.Outlining

/-!
How much of a tree an outline shows.  A node that has the extent of an earlier one gets no entry of its own,
and what is below it goes to the earlier entry, or nowhere if that one is cut off.  Each entry is listed at
most once, so that an outline has no more parts than there are extents.
-/

namespace Arborist

namespace Outline

mutual

def parts : Outline → List Outline
  | .mk label text count below => .mk label text count below :: partsBelow below

def partsBelow : Below Outline → List Outline
  | .unasked => []
  | .cut => []
  | .list items => partsOf items

def partsOf : List Outline → List Outline
  | [] => []
  | item :: rest => item.parts ++ partsOf rest

end

theorem partsOf_eq_flatMap (items : List Outline) : partsOf items = items.flatMap parts := by
  induction items with
  | nil => rfl
  | cons item rest ih => rw [partsOf, ih, List.flatMap_cons]

/-- An outline that lists what is below it counts what it lists. -/
def Counted : Outline → Prop
  | .mk _ _ count (.list items) => count = items.length
  | .mk _ _ _ _ => True

end Outline

namespace Node

variable (source : ByteArray) (includeText : Bool)

theorem length_parts_unfolded (levels : Nat) (node : Node) :
    (node.unfolded source includeText levels).parts.length = (node.within levels).length := by
  induction levels generalizing node with
  | zero => rfl
  | succ levels ih =>
      rw [unfolded, Outline.parts, Outline.partsBelow, Outline.partsOf_eq_flatMap, List.flatMap_map, within,
        List.length_cons, List.length_cons, List.length_flatMap, List.length_flatMap]
      simp only [ih]

theorem counted_unfolded {levels : Nat} {node : Node} {part : Outline}
    (member : part ∈ (node.unfolded source includeText levels).parts) : part.Counted := by
  induction levels generalizing node with
  | zero =>
      obtain rfl := List.mem_singleton.mp member
      trivial
  | succ levels ih =>
      rw [unfolded, Outline.parts, Outline.partsBelow, Outline.partsOf_eq_flatMap, List.flatMap_map] at member
      rcases List.mem_cons.mp member with rfl | below
      · exact (List.length_map _).symm
      · obtain ⟨child, -, inside⟩ := List.mem_flatMap.mp below
        exact ih inside

end Node

def OutlineEntry.listed (entry : OutlineEntry) : List Extent :=
  match entry.below with
  | .list items => items
  | _ => []

def OutlineEntry.add (entry : OutlineEntry) (child : Extent) : OutlineEntry :=
  match entry.below with
  | .list items => { entry with below := .list (items ++ [child]), count := items.length + 1 }
  | _ => entry

theorem OutlineEntry.listed_add (entry : OutlineEntry) (child : Extent) :
    (entry.add child).listed = entry.listed ∨ (entry.add child).listed = entry.listed ++ [child] := by
  obtain ⟨label, text, count, below⟩ := entry
  cases below with
  | list items => exact .inr rfl
  | _ => exact .inl rfl

namespace OutlineState

variable {entries : List (Extent × OutlineEntry)}

def listedAt (entries : List (Extent × OutlineEntry)) (extent : Extent) : List Extent :=
  ((lookup entries extent).map OutlineEntry.listed).getD []

def trace (entries : List (Extent × OutlineEntry)) : Nat → Extent → List Extent
  | 0, extent => [extent]
  | fuel + 1, extent => extent :: (listedAt entries extent).flatMap (trace entries fuel)

theorem lookup_attach (parent child extent : Extent) :
    lookup (attach entries parent child) extent =
      (lookup entries extent).map fun entry => if extent = parent then entry.add child else entry := by
  have same : attach entries parent child =
      entries.map fun pair => (pair.1, if pair.1 = parent then pair.2.add child else pair.2) := by
    rw [attach]
    apply List.map_congr_left
    rintro ⟨other, entry⟩ -
    unfold OutlineEntry.add
    grind
  rw [same, lookup, lookup, List.find?_map, Option.map_map]
  change Option.map _ (entries.find? fun pair => pair.1 = extent) = _
  cases found : entries.find? (fun pair => pair.1 = extent) with
  | none => rfl
  | some pair =>
      have key : pair.1 = extent := by simpa using List.find?_some found
      simp [key]

theorem lookup_append_singleton {extent child : Extent} (other : extent ≠ child) (entry : OutlineEntry) :
    lookup (entries ++ [(child, entry)]) extent = lookup entries extent := by
  simp [lookup, List.find?_append, other.symm]

theorem lookup_append_new {child : Extent} (fresh : child ∉ keys entries) (entry : OutlineEntry) :
    lookup (entries ++ [(child, entry)]) child = some entry := by
  have absent : entries.find? (fun pair => pair.1 = child) = none := by
    have missing := lookup_eq_none_iff.mpr fresh
    rwa [lookup, Option.map_eq_none_iff] at missing
  simp [lookup, List.find?_append, absent]

/-- A new entry that lists nothing has come, and has been added at most below its parent. -/
structure Grown (before after : List (Extent × OutlineEntry)) (parent child : Extent) : Prop where
  keys_eq : keys after = keys before ++ [child]
  fresh : child ∉ keys before
  own : listedAt after child = []
  others : ∀ extent ≠ child, listedAt after extent = listedAt before extent ∨
    extent = parent ∧ listedAt after extent = listedAt before extent ++ [child]

theorem grown_attach {parent child : Extent} (fresh : child ∉ keys entries) {entry : OutlineEntry}
    (bare : entry.listed = []) :
    Grown entries (attach entries parent child ++ [(child, entry)]) parent child where
  keys_eq := by
    rw [keys, List.map_append]
    exact congrArg (· ++ [child]) keys_attach
  fresh := fresh
  own := by
    rw [listedAt, lookup_append_new (by rwa [keys_attach])]
    exact bare
  others := by
    intro extent other
    rw [listedAt, lookup_append_singleton other, lookup_attach, listedAt]
    cases lookup entries extent with
    | none => exact .inl rfl
    | some entry =>
        by_cases same : extent = parent
        · rcases entry.listed_add child with kept | added
          · exact .inl (by simpa [same] using kept)
          · exact .inr ⟨same, by simpa [same] using added⟩
        · exact .inl (by simp [same])

theorem grown_append {child : Extent} (fresh : child ∉ keys entries) {entry : OutlineEntry}
    (bare : entry.listed = []) : Grown entries (entries ++ [(child, entry)]) child child where
  keys_eq := List.map_append
  fresh := fresh
  own := by
    rw [listedAt, lookup_append_new fresh]
    exact bare
  others := by
    intro extent other
    rw [listedAt, lookup_append_singleton other]
    exact .inl rfl

section Growth

variable {before after : List (Extent × OutlineEntry)} {parent child : Extent}

theorem Grown.trace_child (grown : Grown before after parent child) (fuel : Nat) :
    trace after fuel child = [child] := by
  cases fuel with
  | zero => rfl
  | succ fuel => rw [trace, grown.own, List.flatMap_nil]

theorem Grown.count_trace_of_ne (grown : Grown before after parent child)
    (known : ∀ extent, listedAt before extent ⊆ keys before) {other : Extent} (differs : other ≠ child)
    {extent : Extent} (present : extent ∈ keys before) (fuel : Nat) :
    (trace after fuel extent).count other = (trace before fuel extent).count other := by
  induction fuel generalizing extent with
  | zero => rfl
  | succ fuel ih =>
      have below : ((listedAt before extent).flatMap (trace after fuel)).count other =
          ((listedAt before extent).flatMap (trace before fuel)).count other := by
        rw [List.count_flatMap, List.count_flatMap]
        congr 1
        apply List.map_congr_left
        intro listed member
        exact ih (known extent member)
      have apart : extent ≠ child := fun same => grown.fresh (same ▸ present)
      rw [trace, trace, List.count_cons, List.count_cons, ← below]
      rcases grown.others extent apart with kept | ⟨-, added⟩
      · rw [kept]
      · rw [added, List.flatMap_append, List.count_append, List.flatMap_singleton, grown.trace_child]
        simp [differs.symm]

theorem Grown.count_trace_child (grown : Grown before after parent child)
    (known : ∀ extent, listedAt before extent ⊆ keys before)
    {extent : Extent} (present : extent ∈ keys before) (fuel : Nat) :
    (trace after fuel extent).count child ≤ (trace before fuel extent).count parent := by
  induction fuel generalizing extent with
  | zero =>
      have apart : extent ≠ child := fun same => grown.fresh (same ▸ present)
      simp [trace, apart]
  | succ fuel ih =>
      have below : ((listedAt before extent).flatMap (trace after fuel)).count child ≤
          ((listedAt before extent).flatMap (trace before fuel)).count parent := by
        rw [List.count_flatMap, List.count_flatMap]
        apply List.sum_le_sum
        intro listed member
        exact ih (known extent member)
      have apart : extent ≠ child := fun same => grown.fresh (same ▸ present)
      rw [trace, trace, List.count_cons_of_ne apart]
      rcases grown.others extent apart with kept | ⟨rfl, added⟩
      · rw [kept]
        exact below.trans List.count_le_count_cons
      · rw [added, List.flatMap_append, List.count_append, List.flatMap_singleton, grown.trace_child,
          List.count_singleton_self, List.count_cons_self]
        exact Nat.succ_le_succ below

end Growth

/-- Entries whose extents are all among some, and of which each is met at most once from the root on. -/
structure Rooted (allowed : List Extent) (root : Extent) (entries : List (Extent × OutlineEntry)) : Prop where
  distinct : (keys entries).Nodup
  inside : keys entries ⊆ allowed
  present : root ∈ keys entries
  known : ∀ extent, listedAt entries extent ⊆ keys entries
  once : ∀ fuel, (trace entries fuel root).Nodup

section Rooted

variable {allowed : List Extent} {root : Extent}

theorem Rooted.grow {before after : List (Extent × OutlineEntry)} {parent child : Extent}
    (rooted : Rooted allowed root before) (grown : Grown before after parent child)
    (member : child ∈ allowed) : Rooted allowed root after where
  distinct := by
    rw [grown.keys_eq]
    exact List.nodup_append'.mpr ⟨rooted.distinct, List.nodup_singleton _,
      List.disjoint_singleton.mpr grown.fresh⟩
  inside := by
    rw [grown.keys_eq]
    exact List.append_subset.mpr ⟨rooted.inside, List.cons_subset.mpr ⟨member, List.nil_subset _⟩⟩
  present := by
    rw [grown.keys_eq]
    exact List.mem_append_left _ rooted.present
  known := by
    intro extent
    rw [grown.keys_eq]
    by_cases same : extent = child
    · rw [same, grown.own]
      exact List.nil_subset _
    · rcases grown.others extent same with kept | ⟨-, added⟩
      · rw [kept]
        exact List.subset_append_of_subset_left _ (rooted.known extent)
      · rw [added]
        exact List.append_subset.mpr ⟨List.subset_append_of_subset_left _ (rooted.known extent),
          List.subset_append_right _ _⟩
  once := by
    intro fuel
    rw [List.nodup_iff_count_le_one]
    intro extent
    by_cases same : extent = child
    · rw [same]
      exact (grown.count_trace_child rooted.known rooted.present fuel).trans
        (List.nodup_iff_count_le_one.mp (rooted.once fuel) parent)
    · rw [grown.count_trace_of_ne rooted.known same rooted.present fuel]
      exact List.nodup_iff_count_le_one.mp (rooted.once fuel) extent

theorem Rooted.visit {source : ByteArray} {options : OutlineOptions} {state : OutlineState}
    (rooted : Rooted allowed root state.entries) {node : Node} (member : node.extent ∈ allowed)
    (field : Option String) (depth : Nat) :
    Rooted allowed root (outlineVisit source options node field depth state).2.entries := by
  rw [outlineVisit]
  dsimp only
  split
  · exact rooted
  · split
    · exact rooted
    next absent =>
      have fresh := lookup_eq_none_iff.mp ((entry?_eq_lookup state node.extent).symm.trans absent)
      have bare (goDown : Bool) : OutlineEntry.listed
          { label := node.label
            text := node.shownText source options.includeText
            count := node.children.length
            below := if goDown then .list [] else .cut } = [] := by cases goDown <;> rfl
      split
      · exact rooted.grow (grown_attach fresh (bare _)) member
      · exact rooted.grow (grown_append fresh (bare _)) member

theorem Rooted.trace_subset {entries : List (Extent × OutlineEntry)} (rooted : Rooted allowed root entries)
    {extent : Extent} (present : extent ∈ keys entries) (fuel : Nat) :
    trace entries fuel extent ⊆ keys entries := by
  induction fuel generalizing extent with
  | zero => exact List.cons_subset.mpr ⟨present, List.nil_subset _⟩
  | succ fuel ih =>
      rw [trace]
      apply List.cons_subset.mpr ⟨present, _⟩
      intro met below
      obtain ⟨listed, member, inside⟩ := List.mem_flatMap.mp below
      exact ih (rooted.known extent member) inside

theorem Rooted.length_trace_le {entries : List (Extent × OutlineEntry)} (rooted : Rooted allowed root entries)
    (fuel : Nat) : (trace entries fuel root).length ≤ allowed.dedup.length := by
  apply ((rooted.once fuel).subperm _).length_le
  intro extent met
  exact List.mem_dedup.mpr (rooted.inside (rooted.trace_subset rooted.present fuel met))

end Rooted

theorem length_parts_assemble_le {state : OutlineState} {extent : Extent} {entry : OutlineEntry}
    (known : state.entry? extent = some entry) (fuel : Nat) :
    (state.assemble fuel entry).parts.length ≤ (trace state.entries fuel extent).length := by
  induction fuel generalizing extent entry with
  | zero => exact Nat.le_refl 1
  | succ fuel ih =>
      have listed : listedAt state.entries extent = entry.listed := by
        rw [listedAt, ← entry?_eq_lookup, known]
        rfl
      have below (items : List Extent) :
          (((items.filterMap state.entry?).map (state.assemble fuel)).flatMap Outline.parts).length ≤
            (items.flatMap (trace state.entries fuel)).length := by
        induction items with
        | nil => exact Nat.le_refl 0
        | cons item rest onRest =>
            cases found : state.entry? item with
            | none =>
                rw [List.filterMap_cons_none found, List.flatMap_cons, List.length_append]
                exact onRest.trans (Nat.le_add_left _ _)
            | some part =>
                rw [List.filterMap_cons_some found, List.map_cons, List.flatMap_cons, List.flatMap_cons,
                  List.length_append, List.length_append]
                exact Nat.add_le_add (ih found) onRest
      rw [trace, listed]
      obtain ⟨label, text, count, shown⟩ := entry
      cases shown with
      | list items =>
          simp only [assemble, Outline.parts, Outline.partsBelow, Outline.partsOf_eq_flatMap, List.length_cons]
          exact Nat.succ_le_succ (below items)
      | _ => exact Nat.le_refl 1

end OutlineState

namespace Node

open OutlineState

variable (node : Node) (source : ByteArray) (options : OutlineOptions)

theorem rooted_begun {allowed : List Extent} (member : node.extent ∈ allowed) :
    Rooted allowed node.extent (node.begun source options).entries := by
  have bare (extent : Extent) : listedAt (node.begun source options).entries extent = [] := by
    by_cases same : node.extent = extent
    · simp [listedAt, lookup, begun, same, Node.entry, OutlineEntry.listed]
    · simp [listedAt, lookup, begun, same]
  constructor
  case distinct => exact List.nodup_singleton _
  case inside => exact List.cons_subset.mpr ⟨member, List.nil_subset _⟩
  case present => exact List.mem_singleton_self _
  case known =>
    intro extent
    rw [bare]
    exact List.nil_subset _
  case once =>
    intro fuel
    cases fuel with
    | zero => exact List.nodup_singleton _
    | succ fuel =>
        rw [trace, bare, List.flatMap_nil]
        exact List.nodup_singleton _

theorem length_parts_outline_le (natural : 0 ≤ options.maxDepth) :
    (node.outline source options).parts.length ≤ (node.extents options.maxDepth.toNat).dedup.length := by
  have rooted : Rooted (node.extents options.maxDepth.toNat) node.extent
      (node.visitAll (outlineVisit source options) none 0 (node.begun source options)).entries := by
    have left : options.maxDepth = (0 : Nat) + (options.maxDepth.toNat : Int) := by omega
    refine holds_visitAll (fun state => Rooted _ _ state.entries) (outlineVisit_fst source options) left ?_ none ?_
    · intro place inside field depth state rooted
      exact rooted.visit (List.mem_map_of_mem inside) field depth
    · exact node.rooted_begun source options (List.mem_map_of_mem (mem_within_self _ node))
  obtain ⟨entry, known⟩ := Option.ne_none_iff_exists'.mp
    (mt lookup_eq_none_iff.mp (not_not.mpr rooted.present))
  rw [outline_of_walk node source options rfl known]
  exact (length_parts_assemble_le known _).trans (rooted.length_trace_le _)

/-- The tree of `((x`, in which both closing brackets are missing: two nodes of no width at the end. -/
def unclosed : Node :=
  .mk (labelled 0 "module" 0 3) [.mk (labelled 1 "group" 0 3) [.mk (labelled 2 "(" 0 1) [],
    .mk (labelled 3 "group" 1 3) [.mk (labelled 4 "(" 1 2) [], .mk (labelled 5 "name" 2 3) [],
      .mk (labelled 6 ")" 3 3) []],
    .mk (labelled 7 ")" 3 3) []]]

end Node

end Arborist
