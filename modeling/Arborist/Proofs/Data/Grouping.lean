import Mathlib.Data.List.Nodup
import Mathlib.Data.List.Perm.Basic
import Arborist.Analysis.Import

/-!
Lists of values by name.  Symbols by kind and imported texts by category are both made by entering values
under names, and what stands under a name in the end does not depend on what was entered under others.
-/

namespace Arborist.Grouping

variable {α β : Type}

theorem nodup_eraseDups [BEq α] [LawfulBEq α] : ∀ items : List α, items.eraseDups.Nodup
  | [] => by simp
  | first :: rest => by
      rw [List.eraseDups_cons, List.nodup_cons]
      exact ⟨by simp, nodup_eraseDups (rest.filter fun item => !item == first)⟩
termination_by items => items.length
decreasing_by exact Nat.lt_succ_of_le (List.length_filter_le _ _)

def enter (name : String) (values : List α) : List (String × List α) → List (String × List α)
  | [] => [(name, values)]
  | (other, found) :: rest =>
    if other = name then (other, found ++ values) :: rest else (other, found) :: enter name values rest

def names (table : List (String × β)) : List String := table.map Prod.fst

def under (table : List (String × List α)) (name : String) : List α := (table.lookup name).getD []

theorem addSymbols_eq_enter (kind : String) (symbols : List Symbol) (table : SymbolTable) :
    table.add kind symbols = enter kind symbols table := by
  induction table with
  | nil => rfl
  | cons entry rest ih => simp [SymbolTable.add, enter, ih]

theorem addText_eq_enter (category text : String) (table : ImportTable) :
    table.add category text = enter category [text] table := by
  induction table with
  | nil => rfl
  | cons entry rest ih => simp [ImportTable.add, enter, ih]

theorem lookup_isSome_iff {table : List (String × β)} {name : String} :
    (table.lookup name).isSome = true ↔ name ∈ names table := by
  induction table with
  | nil => simp [names]
  | cons entry rest ih =>
      obtain ⟨first, values⟩ := entry
      by_cases same : name = first
      · simp [names, same]
      · have different : (name == first) = false := beq_eq_false_iff_ne.mpr same
        simp only [List.lookup_cons, different, ih]
        simp [names, same]

theorem mem_of_lookup {table : List (String × β)} {name : String} {value : β}
    (found : table.lookup name = some value) : (name, value) ∈ table := by
  obtain ⟨before, after, parts, -⟩ := List.lookup_eq_some_iff.mp found
  simp [parts]

theorem lookup_enter (name : String) (values : List α) (table : List (String × List α)) (other : String) :
    (enter name values table).lookup other =
      if other = name then some (under table name ++ values) else table.lookup other := by
  induction table with
  | nil =>
      by_cases same : other = name
      · simp [enter, under, same]
      · simp [enter, List.lookup_cons, same, beq_eq_false_iff_ne.mpr same]
  | cons entry rest ih =>
      obtain ⟨first, found⟩ := entry
      by_cases here : first = name
      · by_cases same : other = name
        · simp [enter, under, here, same]
        · simp [enter, List.lookup_cons, here, same, beq_eq_false_iff_ne.mpr same]
      · have notFirst : (name == first) = false := beq_eq_false_iff_ne.mpr (Ne.symm here)
        by_cases same : other = first
        · simp [enter, here, same]
        · have different : (other == first) = false := beq_eq_false_iff_ne.mpr same
          simp only [enter, here, if_false, under, List.lookup_cons, different, notFirst, ih]

theorem names_enter (name : String) (values : List α) (table : List (String × List α)) :
    names (enter name values table) =
      if name ∈ names table then names table else names table ++ [name] := by
  induction table with
  | nil => rfl
  | cons entry rest ih =>
      by_cases here : entry.1 = name
      · simp [enter, names, here]
      · unfold names at ih ⊢
        by_cases later : name ∈ rest.map Prod.fst
        · simp [enter, here, ih, later]
        · simp [enter, here, ih, later, Ne.symm here]

theorem nodup_enter {name : String} {values : List α} {table : List (String × List α)}
    (distinct : (names table).Nodup) : (names (enter name values table)).Nodup := by
  rw [names_enter]
  split
  next => exact distinct
  next fresh => simpa using List.Nodup.concat fresh distinct

/-! Tables that differ in the order of their names, and under each name in the order of the values. -/

structure Rearranged (left right : List (String × List α)) : Prop where
  names_perm : (names left).Perm (names right)
  under_perm : ∀ name, (under left name).Perm (under right name)

theorem names_perm_of_lookup {left right : List (String × β)} (leftDistinct : (names left).Nodup)
    (rightDistinct : (names right).Nodup)
    (same : ∀ name, (left.lookup name).isSome = (right.lookup name).isSome) :
    (names left).Perm (names right) := by
  rw [List.perm_ext_iff_of_nodup leftDistinct rightDistinct]
  intro name
  rw [← lookup_isSome_iff, ← lookup_isSome_iff, same]

end Arborist.Grouping
