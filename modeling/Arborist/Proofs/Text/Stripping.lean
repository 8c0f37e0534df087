import Mathlib.Data.List.Infix
import Mathlib.Data.List.TakeWhile
import Arborist.Text.Blank
import Arborist.Text.Find

/-!
Texts without the blanks at their ends.  A text is its stripped text between two runs of blanks.  What
is stripped neither begins nor ends with a blank, so a text that occurs in another one still does when
both are stripped.
-/

namespace Arborist.Text

theorem occursIn_iff_infix [BEq α] [LawfulBEq α] {needle text : List α} :
    Text.occursIn needle text = true ↔ needle <:+: text := by
  induction text with
  | nil => simp [occursIn]
  | cons first rest ih => simp [occursIn, ih, List.infix_cons_iff]

def AllBlank (text : List Char) : Prop := ∀ c ∈ text, isBlank c = true

theorem AllBlank.reverse {text : List Char} (blank : AllBlank text) : AllBlank text.reverse :=
  fun c member => blank c (List.mem_reverse.mp member)

structure Trimmed (text : List Char) : Prop where
  head : ∀ c, text.head? = some c → isBlank c = false
  last : ∀ c, text.getLast? = some c → isBlank c = false

theorem Trimmed.reverse {text : List Char} (trimmed : Trimmed text) : Trimmed text.reverse where
  head c first := trimmed.last c (by simpa using first)
  last c final := trimmed.head c (by simpa using final)

theorem dropWhile_isBlank_append {front core : List Char} (blank : AllBlank front)
    (starts : ∀ c, core.head? = some c → isBlank c = false) :
    (front ++ core).dropWhile isBlank = core := by
  rw [List.dropWhile_append_of_pos blank]
  cases core with
  | nil => rfl
  | cons c rest => simp [starts c rfl]

theorem strip_of_trimmed {front core back : List Char} (blankFront : AllBlank front)
    (blankBack : AllBlank back) (trimmed : Trimmed core) : strip (front ++ core ++ back) = core := by
  cases core with
  | nil =>
      have blank : AllBlank (front ++ [] ++ back) := by
        intro c member
        rw [List.append_nil, List.mem_append] at member
        exact member.elim (blankFront c) (blankBack c)
      have gone : stripLeft (front ++ [] ++ back) = [] := List.dropWhile_eq_nil_iff.mpr blank
      rw [strip, gone]
      rfl
  | cons first rest =>
      have left : stripLeft (front ++ first :: rest ++ back) = first :: rest ++ back := by
        rw [stripLeft, List.append_assoc]
        exact dropWhile_isBlank_append blankFront fun c starts => trimmed.head c (by simpa using starts)
      rw [strip, left, stripRight, List.reverse_append,
        dropWhile_isBlank_append blankBack.reverse trimmed.reverse.head, List.reverse_reverse]

theorem exists_strip (text : List Char) :
    ∃ front back, text = front ++ strip text ++ back ∧ AllBlank front ∧ AllBlank back := by
  have ends : stripLeft text = strip text ++ ((stripLeft text).reverse.takeWhile isBlank).reverse := by
    rw [strip, stripRight, ← List.reverse_append, List.takeWhile_append_dropWhile, List.reverse_reverse]
  refine ⟨text.takeWhile isBlank, ((stripLeft text).reverse.takeWhile isBlank).reverse, ?_, ?_, ?_⟩
  · rw [List.append_assoc, ← ends, stripLeft, List.takeWhile_append_dropWhile]
  · exact fun c member => List.mem_takeWhile_imp member
  · exact AllBlank.reverse fun c member => List.mem_takeWhile_imp member

theorem trimmed_strip (text : List Char) : Trimmed (strip text) := by
  have stops : ∀ (items : List Char) c, (items.dropWhile isBlank).head? = some c → isBlank c = false := by
    intro items c first
    have kept := List.head?_dropWhile_not isBlank items
    rw [first] at kept
    exact kept
  constructor
  · intro c first
    -- the stripped text is the front of what has lost its blanks on the left
    have front : strip text <+: stripLeft text := by
      rw [strip, stripRight, ← List.reverse_suffix, List.reverse_reverse]
      exact List.dropWhile_suffix isBlank
    refine stops text c ?_
    obtain ⟨rest, parts⟩ := front
    rw [← stripLeft, ← parts, List.head?_append, first]
    rfl
  · intro c final
    refine stops (stripLeft text).reverse c ?_
    simpa [strip, stripRight] using final

theorem strip_eq_iff {text core : List Char} :
    strip text = core ↔
      Trimmed core ∧ ∃ front back, text = front ++ core ++ back ∧ AllBlank front ∧ AllBlank back := by
  constructor
  · rintro rfl
    exact ⟨trimmed_strip text, exists_strip text⟩
  · rintro ⟨trimmed, front, back, rfl, blankFront, blankBack⟩
    exact strip_of_trimmed blankFront blankBack trimmed

theorem strip_strip (text : List Char) : strip (strip text) = strip text :=
  strip_eq_iff.mpr ⟨trimmed_strip text, [], [], by simp, by simp [AllBlank], by simp [AllBlank]⟩

theorem strip_infix_self (text : List Char) : strip text <:+: text := by
  obtain ⟨front, back, parts, -, -⟩ := exists_strip text
  exact ⟨front, back, parts.symm⟩

theorem infix_of_infix_blank_append {core front rest : List Char} (blank : AllBlank front)
    (starts : ∀ c, core.head? = some c → isBlank c = false) (inside : core <:+: front ++ rest) :
    core <:+: rest := by
  induction front with
  | nil => exact inside
  | cons c others ih =>
      have onOthers := ih fun d member => blank d (List.mem_cons_of_mem c member)
      rcases List.infix_cons_iff.mp inside with first | later
      · cases core with
        | nil => exact List.nil_infix
        | cons d more =>
            obtain ⟨same, -⟩ := List.cons_prefix_cons.mp first
            have notBlank := starts d rfl
            rw [same, blank c List.mem_cons_self] at notBlank
            cases notBlank
      · exact onOthers later

theorem Trimmed.infix_of_infix_between {core front text back : List Char} (trimmed : Trimmed core)
    (blankFront : AllBlank front) (blankBack : AllBlank back) (inside : core <:+: front ++ text ++ back) :
    core <:+: text := by
  rw [List.append_assoc] at inside
  have behind := infix_of_infix_blank_append blankFront trimmed.head inside
  have turned : core.reverse <:+: back.reverse ++ text.reverse := by
    rw [← List.reverse_append]
    exact List.reverse_infix.mpr behind
  exact List.reverse_infix.mp (infix_of_infix_blank_append blankBack.reverse trimmed.reverse.head turned)

theorem Trimmed.infix_strip_iff {core text : List Char} (trimmed : Trimmed core) :
    core <:+: strip text ↔ core <:+: text := by
  constructor
  · exact fun inside => inside.trans (strip_infix_self text)
  · intro inside
    obtain ⟨front, back, parts, blankFront, blankBack⟩ := exists_strip text
    rw [parts] at inside
    exact trimmed.infix_of_infix_between blankFront blankBack inside

theorem strip_infix_strip {pattern text : List Char} (inside : pattern <:+: text) :
    strip pattern <:+: strip text :=
  (trimmed_strip pattern).infix_strip_iff.mpr ((strip_infix_self pattern).trans inside)

end Arborist.Text
