import Arborist.Proofs.Search.Text
import Arborist.Proofs.Text.Lowering

/-!
Searching for a text as it stands.  A line is tested twice, as it is and without the blanks at its ends,
and the second test decides: the blanks at the ends of what is looked for do not matter.
-/

namespace Arborist.Search

theorem holdsPlainly_iff {pattern line : List Char} :
    holdsPlainly pattern line = true ↔ Text.strip pattern <:+: Text.strip line := by
  simp only [holdsPlainly, Bool.or_eq_true, Text.occursIn_iff_infix]
  exact or_iff_right_of_imp Text.strip_infix_strip

namespace TextQuery

def plain (query : TextQuery) (pattern : String) : TextQuery :=
  { query with pattern, wholeWord := false, useRegex := false }

/-- A text as it is compared, in lower case unless case matters. -/
def folded (query : TextQuery) (text : List Char) : List Char :=
  if query.caseSensitive then text else Text.lower text

theorem strip_folded (query : TextQuery) (text : List Char) :
    Text.strip (query.folded text) = query.folded (Text.strip text) := by
  unfold folded
  split
  · rfl
  · exact Text.strip_lower text

theorem test_plain (query : TextQuery) (pattern : String) :
    (query.plain pattern).test =
      .ok fun line => holdsPlainly (query.folded pattern.toList) (query.folded line) := by
  unfold test plain folded
  cases query.caseSensitive <;> rfl

theorem holdsPlainly_folded_iff (query : TextQuery) {pattern line : List Char} :
    holdsPlainly (query.folded pattern) (query.folded line) = true ↔
      query.folded (Text.strip pattern) <:+: query.folded (Text.strip line) := by
  rw [holdsPlainly_iff, strip_folded, strip_folded]

end TextQuery

/-- Two texts that are the same without the blanks at their ends have the same lines as matches, and so the
same answer whatever the limit.  These lines are the ones in which the text without those blanks occurs
when they are left out of the line, too. -/
theorem searchText_ignores_outer_blanks (store : Store) (settings : Settings) (project : Project)
    (query : TextQuery) (pattern other : String)
    (same : Text.strip pattern.toList = Text.strip other.toList) :
    searchText store settings project (query.plain pattern) =
        searchText store settings project (query.plain other) ∧
      ∃ test, (query.plain pattern).test = .ok test ∧ ∀ line, test line = true ↔
        query.folded (Text.strip pattern.toList) <:+: query.folded (Text.strip line) := by
  constructor
  · have alike : (query.plain pattern).test = (query.plain other).test := by
      rw [TextQuery.test_plain, TextQuery.test_plain]
      refine congrArg Except.ok (funext fun line => Bool.eq_iff_iff.mpr ?_)
      rw [TextQuery.holdsPlainly_folded_iff, TextQuery.holdsPlainly_folded_iff, same]
    unfold searchText
    rw [alike]
    rfl
  · exact ⟨_, TextQuery.test_plain query pattern, fun line => query.holdsPlainly_folded_iff⟩

def oneCapital : Store := { root := [("p", .directory [("a", .file ⟨#[75, 10]⟩ (.finite 0))])] }

/-- A letter between blanks has the same answer as the letter alone, and stands in a line that has it as a
capital. -/
theorem padded_letter_found_alike :
    Text.strip "\tk \n".toList = Text.strip "k".toList ∧
      searchText oneCapital {} { name := "p", root := .absolute ["p"] }
          (TextQuery.plain { pattern := "" } "\tk \n") =
        searchText oneCapital {} { name := "p", root := .absolute ["p"] }
          (TextQuery.plain { pattern := "" } "k") ∧
      ∃ test, (TextQuery.plain { pattern := "" } "\tk \n").test = .ok test ∧
        test "K\n".toList = true ∧ test "\n".toList = false := by
  have stripped : Text.strip "\tk \n".toList = Text.strip "k".toList := by decide
  obtain ⟨alike, test, tested, accepts⟩ := searchText_ignores_outer_blanks oneCapital {}
    { name := "p", root := .absolute ["p"] } { pattern := "" } "\tk \n" "k" stripped
  refine ⟨stripped, alike, test, tested, (accepts _).mpr ?_, ?_⟩
  · exact Text.occursIn_iff_infix.mp (by decide)
  · rw [← Bool.not_eq_true, accepts, ← Text.occursIn_iff_infix]
    decide

end Arborist.Search
