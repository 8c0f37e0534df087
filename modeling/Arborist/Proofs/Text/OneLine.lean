import Arborist.Proofs.Text.Lines
import Arborist.Proofs.Text.Lowering

/-!
Texts that stand on one line.  A text without line breaks that occurs in a file occurs in one of its lines;
a text with a line break between other characters is in no line.
-/

namespace Arborist.Text

def Unbroken (text : List Char) : Prop := '\n' ∉ text ∧ '\r' ∉ text

instance (text : List Char) : Decidable (Unbroken text) :=
  inferInstanceAs (Decidable ('\n' ∉ text ∧ '\r' ∉ text))

theorem unbroken_cons_iff {c : Char} {text : List Char} :
    Unbroken (c :: text) ↔ (c ≠ '\n' ∧ c ≠ '\r') ∧ Unbroken text := by
  simp only [Unbroken, List.mem_cons, not_or, ne_comm (a := c)]
  exact and_and_and_comm

/-! Line ends made alike. -/

theorem unifyNewlines_cons (c : Char) (rest : List Char) :
    unifyNewlines (c :: rest) =
      if c ≠ '\r' then c :: unifyNewlines rest
      else if rest.head? = some '\n' then unifyNewlines rest
      else '\n' :: unifyNewlines rest := by
  have seen : ∀ text : List Char, (text.foldr
      (fun c (state : Option Char × List Char) =>
        if c = '\r' then
          (some c, if state.1 = some '\n' then state.2 else '\n' :: state.2)
        else (some c, c :: state.2))
      (none, [])).1 = text.head? := by
    intro text
    cases text with
    | nil => rfl
    | cons d others =>
        rw [List.foldr_cons]
        split <;> rfl
  unfold unifyNewlines
  rw [List.foldr_cons, seen]
  by_cases isReturn : c = '\r'
  · simp only [isReturn, if_true, ne_eq, not_true_eq_false, if_false]
  · simp only [isReturn, if_false, ne_eq, not_false_eq_true, if_true]

theorem return_not_mem_unifyNewlines (text : List Char) : '\r' ∉ unifyNewlines text := by
  induction text with
  | nil => simp [unifyNewlines]
  | cons c rest ih =>
      rw [unifyNewlines_cons]
      split
      next notReturn => simp [ih, notReturn.symm]
      next =>
        split
        · exact ih
        · simp [ih]

theorem Unbroken.prefix_unifyNewlines {core text : List Char} (unbroken : Unbroken core)
    (starts : core <+: text) : core <+: unifyNewlines text := by
  induction core generalizing text with
  | nil => exact List.nil_prefix
  | cons c others ih =>
      obtain ⟨⟨-, notReturn⟩, later⟩ := unbroken_cons_iff.mp unbroken
      obtain ⟨rest, rfl, onward⟩ : ∃ rest, text = c :: rest ∧ others <+: rest := by
        obtain ⟨back, rfl⟩ := starts
        exact ⟨others ++ back, rfl, List.prefix_append others back⟩
      rw [unifyNewlines_cons, if_pos notReturn]
      exact List.cons_prefix_cons.mpr ⟨rfl, ih later onward⟩

theorem Unbroken.infix_unifyNewlines {core text : List Char} (unbroken : Unbroken core)
    (inside : core <:+: text) : core <:+: unifyNewlines text := by
  induction text with
  | nil => simpa [unifyNewlines] using inside
  | cons c rest ih =>
      rcases List.infix_cons_iff.mp inside with first | later
      · exact (unbroken.prefix_unifyNewlines first).isInfix
      · have onRest := ih later
        rw [unifyNewlines_cons]
        split
        · exact onRest.trans (List.suffix_cons c _).isInfix
        · split
          · exact onRest
          · exact onRest.trans (List.suffix_cons '\n' _).isInfix

/-! Lines. -/

theorem flatten_feedLines (text : List Char) : (feedLines text).flatten = text :=
  flatten_linesWhere (· == '\n') text

theorem exists_prefix_of_feedLines {core text : List Char} (nonempty : core ≠ []) (noFeed : '\n' ∉ core)
    (starts : core <+: text) : ∃ line others, feedLines text = line :: others ∧ core <+: line := by
  induction core generalizing text with
  | nil => exact absurd rfl nonempty
  | cons c later ih =>
      obtain ⟨rest, rfl, onward⟩ : ∃ rest, text = c :: rest ∧ later <+: rest := by
        obtain ⟨back, rfl⟩ := starts
        exact ⟨later ++ back, rfl, List.prefix_append later back⟩
      have notFeed : c ≠ '\n' := fun same => noFeed (by simp [same])
      rw [feedLines_cons, if_neg notFeed]
      by_cases atEnd : later = []
      · subst atEnd
        cases feedLines rest with
        | nil => exact ⟨[c], [], rfl, List.prefix_rfl⟩
        | cons line others => exact ⟨c :: line, others, rfl, List.prefix_append [c] line⟩
      · obtain ⟨line, others, lines, front⟩ :=
          ih atEnd (fun member => noFeed (List.mem_cons_of_mem c member)) onward
        rw [lines]
        exact ⟨c :: line, others, rfl, List.cons_prefix_cons.mpr ⟨rfl, front⟩⟩

theorem exists_line_of_infix {core text : List Char} (nonempty : core ≠ []) (noFeed : '\n' ∉ core)
    (inside : core <:+: text) : ∃ line ∈ feedLines text, core <:+: line := by
  induction text with
  | nil => exact absurd (List.infix_nil.mp inside) nonempty
  | cons c rest ih =>
      rcases List.infix_cons_iff.mp inside with first | later
      · obtain ⟨line, others, lines, front⟩ := exists_prefix_of_feedLines nonempty noFeed first
        exact ⟨line, by simp [lines], front.isInfix⟩
      · obtain ⟨line, member, holds⟩ := ih later
        rw [feedLines_cons]
        split
        · exact ⟨line, List.mem_cons_of_mem [c] member, holds⟩
        · -- the first of the other lines gets one more character, and the rest stay
          cases lines : feedLines rest with
          | nil => simp [lines] at member
          | cons top others =>
              rw [lines] at member
              rcases List.mem_cons.mp member with rfl | below
              · exact ⟨c :: line, by simp [extendFirst], holds.trans (List.suffix_cons c line).isInfix⟩
              · exact ⟨line, by simp [extendFirst, below], holds⟩

theorem exists_body_of_mem_feedLines {text line : List Char} (member : line ∈ feedLines text) :
    ∃ body, '\n' ∉ body ∧ (line = body ∨ line = body ++ ['\n']) := by
  induction text generalizing line with
  | nil => simp [feedLines, linesWhere] at member
  | cons c rest ih =>
      rw [feedLines_cons] at member
      split at member
      next isFeed =>
        rcases List.mem_cons.mp member with rfl | later
        · exact ⟨[], by simp, .inr (by simp [isFeed])⟩
        · exact ih later
      next notFeed =>
        cases lines : feedLines rest with
        | nil =>
            rw [lines, extendFirst, List.mem_singleton] at member
            exact ⟨[c], by simpa using Ne.symm notFeed, .inl member⟩
        | cons top others =>
            rw [lines, extendFirst] at member
            rcases List.mem_cons.mp member with rfl | below
            · obtain ⟨body, noFeed, ends⟩ := @ih top (by simp [lines])
              refine ⟨c :: body, by simp [noFeed, Ne.symm notFeed], ?_⟩
              rcases ends with rfl | rfl
              · exact .inl rfl
              · exact .inr rfl
            · exact ih (by simp [lines, below])

theorem unbroken_strip_line {text line : List Char} (member : line ∈ feedLines (unifyNewlines text)) :
    Unbroken (strip line) := by
  have noReturn : '\r' ∉ line := by
    intro inLine
    have inText : '\r' ∈ (feedLines (unifyNewlines text)).flatten := List.mem_flatten.mpr ⟨line, member, inLine⟩
    rw [flatten_feedLines] at inText
    exact return_not_mem_unifyNewlines text inText
  refine ⟨?_, fun inside => noReturn ((strip_infix_self line).subset inside)⟩
  obtain ⟨body, noFeed, rfl | rfl⟩ := exists_body_of_mem_feedLines member
  · exact fun inside => noFeed ((strip_infix_self line).subset inside)
  · have onBody : strip (body ++ ['\n']) = strip body := by
      obtain ⟨front, back, parts, blankFront, blankBack⟩ := exists_strip body
      rw [strip_eq_iff]
      refine ⟨trimmed_strip body, front, back ++ ['\n'], ?_, blankFront, ?_⟩
      · rw [← List.append_assoc, ← parts]
      · intro c inBack
        rcases List.mem_append.mp inBack with early | final
        · exact blankBack c early
        · rw [List.mem_singleton.mp final]
          decide
    rw [onBody]
    exact fun inside => noFeed ((strip_infix_self body).subset inside)

theorem Unbroken.of_lower_inside {core text : List Char} (unbroken : Unbroken text)
    (inside : lower core <:+: lower text) : Unbroken core := by
  have feedBlank : isBlank '\n' = true := by decide
  have returnBlank : isBlank '\r' = true := by decide
  constructor
  · intro member
    have inText := inside.subset ((mem_lower_iff_of_isBlank feedBlank).mpr member)
    exact unbroken.1 ((mem_lower_iff_of_isBlank feedBlank).mp inText)
  · intro member
    have inText := inside.subset ((mem_lower_iff_of_isBlank returnBlank).mpr member)
    exact unbroken.2 ((mem_lower_iff_of_isBlank returnBlank).mp inText)

end Arborist.Text
