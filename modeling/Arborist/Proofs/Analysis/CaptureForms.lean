import Mathlib.Data.List.Perm.Basic
import Arborist.Proofs.Data.Grouping

/-!
Captures in their several forms.  A list of pairs can be spelled with objects or mappings in the place of
pairs and with entries of an unknown form in between, and it can be catalogued: a dictionary then tells
the nodes of each name.  The first changes nothing of what is told, the second at most its order.
-/

namespace Arborist.Captures

variable {pairs : List (Node × String)} {left right : Captures}

open Grouping

def nodesOf (captures : Captures) (name : String) : List Node :=
  captures.told.filterMap fun captured => if captured.2 = name then captured.1 else none

def ofPairs (pairs : List (Node × String)) : Captures :=
  .list (pairs.map fun pair => { node := some pair.1, name := pair.2 })

theorem told_ofPairs (pairs : List (Node × String)) :
    (ofPairs pairs).told = pairs.map fun pair => (some pair.1, pair.2) := by
  unfold ofPairs told listed
  dsimp only
  rw [List.filter_eq_self.mpr, List.map_map]
  · rfl
  · intro item member
    obtain ⟨pair, -, rfl⟩ := List.mem_map.mp member
    rfl

theorem isSome_of_mem_ofPairs :
    ∀ captured ∈ (ofPairs pairs).told, captured.1.isSome = true := by
  intro captured member
  rw [told_ofPairs] at member
  obtain ⟨pair, -, rfl⟩ := List.mem_map.mp member
  rfl

/-! Other forms of list entries. -/

/-- The entries of a list that spells pairs in any of the known forms; others may stand between them. -/
inductive Spells : List (Node × String) → List Capture → Prop where
  | nil : Spells [] []
  | known {pairs : List (Node × String)} {items : List Capture} (node : Node) (name : String)
      {form : CaptureForm} (known : form.isKnown = true) (rest : Spells pairs items) :
      Spells ((node, name) :: pairs) (⟨some node, name, form⟩ :: items)
  | unknown {pairs : List (Node × String)} {items : List Capture} {item : Capture}
      (unknown : item.form.isKnown = false) (rest : Spells pairs items) : Spells pairs (item :: items)

theorem Spells.listed_eq {items : List Capture} (spells : Spells pairs items) :
    (Captures.list items).listed = (ofPairs pairs).told := by
  rw [told_ofPairs]
  induction spells with
  | nil => rfl
  | known node name known rest ih =>
      rw [List.map_cons, ← ih]
      simp [listed, known]
  | unknown unknown rest ih =>
      rw [← ih]
      simp [listed, unknown]

def Respelled (left right : Captures) : Prop :=
  ∃ pairs items, left = ofPairs pairs ∧ right = .list items ∧ Spells pairs items

theorem Respelled.listed_eq (respelled : Respelled left right) :
    right.listed = left.listed := by
  obtain ⟨pairs, items, rfl, rfl, spells⟩ := respelled
  exact spells.listed_eq

theorem Respelled.told_eq (respelled : Respelled left right) :
    right.told = left.told := by
  obtain ⟨pairs, items, rfl, rfl, spells⟩ := respelled
  exact spells.listed_eq

/-! Dictionaries. -/

/-- A dictionary has each name once, and under it the nodes captured under that name. -/
structure Catalogue (pairs : List (Node × String)) (entries : List (String × List (Option Node))) : Prop where
  distinct : (names entries).Nodup
  under_eq : ∀ name, under entries name = (pairs.filter fun pair => pair.2 = name).map fun pair => some pair.1

theorem Catalogue.rest {first : String} {nodes : List (Option Node)} {entries : List (String × List (Option Node))}
    (catalogue : Catalogue pairs ((first, nodes) :: entries)) :
    Catalogue (pairs.filter fun pair => !decide (pair.2 = first)) entries := by
  obtain ⟨fresh, distinct⟩ := List.nodup_cons.mp catalogue.distinct
  refine ⟨distinct, fun name => ?_⟩
  rw [List.filter_filter]
  by_cases same : name = first
  · have absent : entries.lookup name = none := by
      rw [← Option.not_isSome_iff_eq_none, lookup_isSome_iff, same]
      exact fresh
    have nothing : pairs.filter (fun pair => decide (pair.2 = name) && !decide (pair.2 = first)) = [] := by
      rw [List.filter_eq_nil_iff]
      intro pair _
      simp [same]
    rw [under, absent, nothing]
    rfl
  · have here := catalogue.under_eq name
    have skipped : under ((first, nodes) :: entries) name = under entries name := by
      simp [under, List.lookup_cons, beq_eq_false_iff_ne.mpr same]
    rw [skipped] at here
    rw [here]
    refine congrArg _ (List.filter_congr fun pair _ => ?_)
    by_cases isName : pair.2 = name
    · simp [isName, same]
    · simp [isName]

theorem Catalogue.told_perm {entries : List (String × List (Option Node))} (catalogue : Catalogue pairs entries) :
    (Captures.byName entries).told.Perm (ofPairs pairs).told := by
  rw [told_ofPairs]
  induction entries generalizing pairs with
  | nil =>
      have empty : pairs = [] := by
        rw [List.eq_nil_iff_forall_not_mem]
        intro pair member
        have here := catalogue.under_eq pair.2
        have among : some pair.1 ∈ (pairs.filter fun other => other.2 = pair.2).map fun other => some other.1 :=
          List.mem_map.mpr ⟨pair, List.mem_filter.mpr ⟨member, by simp⟩, rfl⟩
        rw [← here] at among
        cases among
      rw [empty]
      exact .nil
  | cons entry entries ih =>
      obtain ⟨first, nodes⟩ := entry
      -- The pairs fall into those of the first name and the others, which the rest of the dictionary tells.
      have nodes_eq : nodes = (pairs.filter fun pair => pair.2 = first).map fun pair => some pair.1 := by
        have here := catalogue.under_eq first
        rwa [under, List.lookup_cons_self] at here
      have firstTold : (nodes.map fun node => (node, first)) =
          (pairs.filter fun pair => pair.2 = first).map fun pair => (some pair.1, pair.2) := by
        rw [nodes_eq, List.map_map]
        refine List.map_congr_left fun pair member => ?_
        have named : pair.2 = first := by simpa using (List.mem_filter.mp member).2
        simp [← named]
      have parts := (List.filter_append_perm (fun pair : Node × String => decide (pair.2 = first)) pairs).map
        fun pair => (some pair.1, pair.2)
      rw [List.map_append] at parts
      refine .trans ?_ parts
      change ((nodes.map fun node => (node, first)) ++ (Captures.byName entries).told).Perm _
      rw [firstTold]
      exact .append_left _ (ih catalogue.rest)

theorem Catalogue.of_distinct (distinct : (pairs.map Prod.snd).Nodup) :
    Catalogue pairs (pairs.map fun pair => (pair.2, [some pair.1])) := by
  refine ⟨by simpa [names, Function.comp_def] using distinct, fun name => ?_⟩
  induction pairs with
  | nil => rfl
  | cons pair rest ih =>
      obtain ⟨fresh, restDistinct⟩ := List.nodup_cons.mp distinct
      rw [List.map_cons, under, List.lookup_cons]
      by_cases here : name = pair.2
      · have others : rest.filter (fun other => other.2 = name) = [] := by
          rw [List.filter_eq_nil_iff]
          intro other member same
          rw [decide_eq_true_eq, here] at same
          exact fresh (List.mem_map.mpr ⟨other, member, same⟩)
        rw [List.filter_cons_of_pos (by simp [here]), others]
        simp [here]
      · rw [beq_eq_false_iff_ne.mpr here, List.filter_cons_of_neg (by simpa using Ne.symm here)]
        exact ih restDistinct

/-- A list of pairs, and the same captures by name; in the place of an empty dictionary there may be an
empty list. -/
def Catalogued (left right : Captures) : Prop :=
  ∃ pairs, left = ofPairs pairs ∧
    ((∃ entries, right = .byName entries ∧ Catalogue pairs entries) ∨ pairs = [] ∧ right = .list [])

theorem Catalogued.told_perm (catalogued : Catalogued left right) :
    right.told.Perm left.told := by
  obtain ⟨pairs, rfl, ⟨entries, rfl, catalogue⟩ | ⟨rfl, rfl⟩⟩ := catalogued
  · exact catalogue.told_perm
  · exact .nil

theorem Catalogued.listed_eq (catalogued : Catalogued left right) :
    right.listed = [] := by
  obtain ⟨pairs, -, ⟨entries, rfl, -⟩ | ⟨-, rfl⟩⟩ := catalogued
  · rfl
  · rfl

theorem Catalogued.isSome_left (catalogued : Catalogued left right) :
    ∀ captured ∈ left.told, captured.1.isSome = true := by
  obtain ⟨pairs, rfl, -⟩ := catalogued
  exact isSome_of_mem_ofPairs

end Arborist.Captures
