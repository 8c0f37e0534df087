import Mathlib.Data.Set.Card
import Mathlib.Data.String.Basic
import Arborist.Language.Registry
import Arborist.Proofs.Data.Grouping

/-!
Lists that tell all that has some property, each of them once: how many there are, and that sorting such lists of
texts leaves nothing but the property to compare.
-/

namespace Arborist

open Grouping

structure Enumerates (items : List α) (holds : α → Prop) : Prop where
  nodup : items.Nodup
  mem_iff : ∀ item, item ∈ items ↔ holds item

namespace Enumerates

variable {α β : Type} {items : List α} {holds : α → Prop}

theorem filter (told : Enumerates items holds) (test : α → Bool) :
    Enumerates (items.filter test) fun item => holds item ∧ test item = true where
  nodup := told.nodup.filter test
  mem_iff item := by rw [List.mem_filter, told.mem_iff]

theorem coe_toFinset [DecidableEq α] (told : Enumerates items holds) :
    (items.toFinset : Set α) = {item | holds item} := by
  ext item
  simp [told.mem_iff]

theorem finite (told : Enumerates items holds) : {item | holds item}.Finite := by
  classical
  rw [← told.coe_toFinset]
  exact items.toFinset.finite_toSet

theorem ncard_eq (told : Enumerates items holds) : {item | holds item}.ncard = items.length := by
  classical
  rw [← told.coe_toFinset, Set.ncard_coe_finset, List.toFinset_card_of_nodup told.nodup]

end Enumerates

/-! Sorted texts. -/

theorem mem_sortedTexts {text : String} {texts : List String} : text ∈ sortedTexts texts ↔ text ∈ texts := by
  unfold sortedTexts
  rw [List.mem_mergeSort, List.mem_eraseDups]

theorem pairwise_mergeSort_texts (texts : List String) :
    (texts.mergeSort fun left right => left ≤ right).Pairwise
      fun first second => decide (first ≤ second) = true := by
  have trans : ∀ first second third : String, decide (first ≤ second) = true →
      decide (second ≤ third) = true → decide (first ≤ third) = true := by
    intro first second third below above
    rw [decide_eq_true_eq] at *
    exact below.trans above
  have total : ∀ first second : String, (decide (first ≤ second) || decide (second ≤ first)) = true := by
    intro first second
    rw [Bool.or_eq_true, decide_eq_true_eq, decide_eq_true_eq]
    exact le_total first second
  exact List.pairwise_mergeSort trans total texts

theorem nodup_sortedTexts (texts : List String) : (sortedTexts texts).Nodup :=
  (List.mergeSort_perm _ _).nodup_iff.mpr (nodup_eraseDups texts)

theorem eq_of_sorted {texts others : List String} (textsDistinct : texts.Nodup) (othersDistinct : others.Nodup)
    (textsSorted : texts.Pairwise fun first second => decide (first ≤ second) = true)
    (othersSorted : others.Pairwise fun first second => decide (first ≤ second) = true)
    (same : ∀ text, text ∈ texts ↔ text ∈ others) : texts = others := by
  have perm := (List.perm_ext_iff_of_nodup textsDistinct othersDistinct).mpr same
  refine perm.eq_of_pairwise ?_ textsSorted othersSorted
  intro first second _ _ below above
  exact le_antisymm (of_decide_eq_true below) (of_decide_eq_true above)

theorem sortedTexts_congr {texts others : List String} (same : ∀ text, text ∈ texts ↔ text ∈ others) :
    sortedTexts texts = sortedTexts others := by
  apply eq_of_sorted (nodup_sortedTexts texts) (nodup_sortedTexts others) (pairwise_mergeSort_texts _)
    (pairwise_mergeSort_texts _)
  intro text
  rw [mem_sortedTexts, mem_sortedTexts, same]

theorem sortedTexts_eq_iff {texts others : List String} :
    sortedTexts texts = sortedTexts others ↔ ∀ text, text ∈ texts ↔ text ∈ others := by
  constructor
  · intro same text
    rw [← mem_sortedTexts, same, mem_sortedTexts]
  · exact sortedTexts_congr

end Arborist
