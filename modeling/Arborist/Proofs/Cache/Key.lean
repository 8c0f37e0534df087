import Arborist.Cache.Basic
import Arborist.Proofs.Number.ShortestText

/-!
The keys of a cache.  A key is made of a language, a path and a time with colons between them.  The
path may have colons of its own; since neither a language nor the text of a time has one, the key
still tells all three.
-/

namespace Arborist.TreeCache

theorem front_unique {mark : Char} {front other rest others : List Char} (clear : mark ∉ front)
    (otherClear : mark ∉ other) (same : front ++ mark :: rest = other ++ mark :: others) :
    front = other ∧ rest = others := by
  induction front generalizing other with
  | nil =>
      cases other with
      | nil => simpa using same
      | cons first _ =>
          obtain ⟨rfl, -⟩ := List.cons.inj same
          simp at otherClear
  | cons first front ih =>
      cases other with
      | nil =>
          obtain ⟨rfl, -⟩ := List.cons.inj same
          simp at clear
      | cons second other =>
          obtain ⟨rfl, tails⟩ := List.cons.inj same
          simp only [List.mem_cons, not_or] at clear otherClear
          obtain ⟨rfl, rfl⟩ := ih clear.2 otherClear.2 tails
          exact ⟨rfl, rfl⟩

theorem back_unique {mark : Char} {front other rest others : List Char} (clear : mark ∉ rest)
    (otherClear : mark ∉ others) (same : front ++ mark :: rest = other ++ mark :: others) :
    front = other ∧ rest = others := by
  have reversed := congrArg List.reverse same
  simp only [List.reverse_append, List.reverse_cons, List.append_assoc, List.singleton_append] at reversed
  obtain ⟨backs, fronts⟩ := front_unique (by simpa using clear) (by simpa using otherClear) reversed
  exact ⟨List.reverse_injective fronts, List.reverse_injective backs⟩

theorem keyOf_toList (language path : String) (modified : Binary64) :
    (keyOf language path modified).toList =
      language.toList ++ ':' :: (path.toList ++ ':' :: modified.shortestText.toList) := by
  simp [keyOf]

theorem colon_not_mem_shortestText {time : Binary64} (representable : time.Representable) :
    ':' ∉ time.shortestText.toList := by
  intro member
  have decimal := Binary64.isDecimalChar_of_mem_shortestText representable ':' member
  simp [Decimal.isDecimalChar] at decimal

theorem keyOf_injective {language other path place : String} {modified time : Binary64}
    (plain : ':' ∉ language.toList) (otherPlain : ':' ∉ other.toList)
    (representable : modified.Representable) (otherRepresentable : time.Representable)
    (same : keyOf language path modified = keyOf other place time) :
    language = other ∧ path = place ∧ modified = time := by
  have chars := congrArg String.toList same
  rw [keyOf_toList, keyOf_toList] at chars
  obtain ⟨languages, rest⟩ := front_unique plain otherPlain chars
  obtain ⟨paths, times⟩ := back_unique (colon_not_mem_shortestText representable)
    (colon_not_mem_shortestText otherRepresentable) rest
  exact ⟨String.toList_injective languages, String.toList_injective paths,
    Binary64.shortestText_injective representable otherRepresentable (String.toList_injective times)⟩

end Arborist.TreeCache
