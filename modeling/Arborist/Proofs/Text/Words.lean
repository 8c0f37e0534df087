import Mathlib
import Arborist.Proofs.File.PathText
import Arborist.Proofs.Text.Stripping

/-!
Words, and what stands before and after an occurrence.  Joined by single blanks, the words of two texts that lie
side by side are those of the one and those of the other; and an occurrence does not lie across a character that
it does not have.
-/

namespace Arborist.Text

variable {c : Char} {text : List Char} {gap : List Char} {word : List Char} {separator : Char}

/-! Words. -/

theorem words_append_cons (blank : isBlank c = true) (text rest : List Char) :
    words (text ++ c :: rest) = words text ++ words rest := by
  simp only [words, splitWhere_eq_splitOnP]
  rw [List.splitOnP_append_cons text rest blank, List.filter_append]

theorem words_cons_of_blank (blank : isBlank c = true) (text : List Char) :
    words (c :: text) = words text :=
  words_append_cons blank [] text

theorem words_blank_append (blank : AllBlank gap) (text : List Char) :
    words (gap ++ text) = words text := by
  induction gap with
  | nil => rfl
  | cons c rest ih =>
      rw [List.cons_append, words_cons_of_blank (blank c List.mem_cons_self),
        ih fun d member => blank d (List.mem_cons_of_mem c member)]

structure IsGap (gap : List Char) : Prop where
  blank : AllBlank gap
  nonempty : gap ≠ []

theorem words_append (isGap : IsGap gap) (text rest : List Char) :
    words (text ++ gap ++ rest) = words text ++ words rest := by
  obtain ⟨c, others, rfl⟩ := List.exists_cons_of_ne_nil isGap.nonempty
  rw [List.append_assoc, List.cons_append, words_append_cons (isGap.blank c List.mem_cons_self),
    words_blank_append fun d member => isGap.blank d (List.mem_cons_of_mem c member)]

theorem words_strip (text : List Char) : words (strip text) = words text := by
  obtain ⟨front, back, parts, blankFront, blankBack⟩ := exists_strip text
  conv_rhs => rw [parts, List.append_assoc, words_blank_append blankFront]
  cases back with
  | nil => rw [List.append_nil]
  | cons c rest =>
      have noWords : words rest = [] := by
        rw [← List.append_nil rest, words_blank_append fun d member => blankBack d (List.mem_cons_of_mem c member)]
        rfl
      rw [words_append_cons (blankBack c List.mem_cons_self), noWords, List.append_nil]

structure IsWord (word : List Char) : Prop where
  nonempty : word ≠ []
  solid : ∀ c ∈ word, isBlank c = false

theorem words_of_isWord (isWord : IsWord word) : words word = [word] := by
  have whole : splitWhere isBlank word = [word] := by
    rw [splitWhere_eq_splitOnP]
    exact List.splitOnP_eq_singleton fun c member => by simp [isWord.solid c member]
  rw [words, whole, List.filter_cons_of_pos (by simpa using isWord.nonempty), List.filter_nil]

theorem exists_words_cons (solid : isBlank c = false) (text : List Char) :
    ∃ word others, words (c :: text) = (c :: word) :: others ∧
      ∀ d, isBlank d = false → words (d :: c :: text) = (d :: c :: word) :: others := by
  obtain ⟨piece, pieces, parts⟩ : ∃ piece pieces, splitWhere isBlank text = piece :: pieces := by
    rw [splitWhere_eq_splitOnP]
    exact List.exists_cons_of_ne_nil (List.splitOnP_ne_nil isBlank text)
  refine ⟨piece, pieces.filter fun word => !word.isEmpty, ?_, fun d alsoSolid => ?_⟩
  · simp [words, splitWhere_cons, solid, parts]
  · simp [words, splitWhere_cons, solid, alsoSolid, parts]

theorem words_ne_nil_of_mem (member : c ∈ text) (solid : isBlank c = false) :
    words text ≠ [] := by
  induction text with
  | nil => cases member
  | cons d rest ih =>
      cases blank : isBlank d with
      | true =>
          rw [words_cons_of_blank blank]
          refine ih ((List.mem_cons.mp member).resolve_left ?_)
          rintro rfl
          rw [solid] at blank
          cases blank
      | false =>
          obtain ⟨word, others, here, -⟩ := exists_words_cons blank rest
          rw [here]
          exact List.cons_ne_nil _ _

theorem Trimmed.strip_eq (trimmed : Trimmed text) : strip text = text :=
  strip_eq_iff.mpr ⟨trimmed, [], [], by simp, nofun, nofun⟩

/-! Words joined by single blanks. -/

def spaced (text : List Char) : List Char := [' '].intercalate (words text)

theorem spaced_of_isWord (isWord : IsWord word) : spaced word = word := by
  rw [spaced, words_of_isWord isWord, List.intercalate_singleton]

theorem spaced_cons_of_blank (blank : isBlank c = true) (text : List Char) :
    spaced (c :: text) = spaced text := by
  rw [spaced, words_cons_of_blank blank, spaced]

theorem spaced_cons_cons {c d : Char} (solid : isBlank c = false) (alsoSolid : isBlank d = false)
    (text : List Char) : spaced (c :: d :: text) = c :: spaced (d :: text) := by
  obtain ⟨word, others, here, longer⟩ := exists_words_cons alsoSolid text
  rw [spaced, spaced, here, longer c solid]
  cases others with
  | nil => simp
  | cons second more => simp [List.intercalate_cons_cons]

theorem spaced_cons_gap (solid : isBlank c = false) {gap text : List Char} (isGap : IsGap gap)
    (more : words text ≠ []) : spaced (c :: (gap ++ text)) = c :: ' ' :: spaced text := by
  have parts : words (c :: (gap ++ text)) = words [c] ++ words text := words_append isGap [c] text
  obtain ⟨word, others, rest⟩ := List.exists_cons_of_ne_nil more
  rw [spaced, spaced, parts, words_of_isWord ⟨List.cons_ne_nil c [], by simpa using solid⟩, rest,
    List.singleton_append, List.intercalate_cons_cons]
  rfl

theorem spaced_cons_blank_cons {c d : Char} (solid : isBlank c = false) (blank : isBlank d = true)
    (more : words (d :: text) ≠ []) :
    spaced (c :: d :: text) = c :: ' ' :: spaced (d :: text) := by
  rw [words_cons_of_blank blank] at more
  rw [spaced_cons_of_blank blank]
  exact spaced_cons_gap solid ⟨by simpa [AllBlank] using blank, List.cons_ne_nil d []⟩ more

/-- Neither empty nor with a blank at an end. -/
structure Solid (text : List Char) : Prop extends Trimmed text where
  nonempty : text ≠ []

theorem IsWord.toSolid (isWord : IsWord word) : Solid word where
  head c first := isWord.solid c (List.mem_of_head? first)
  last c final := isWord.solid c (List.mem_of_getLast? final)
  nonempty := isWord.nonempty

theorem Solid.words_ne_nil (solid : Solid text) : words text ≠ [] := by
  obtain ⟨c, rest, rfl⟩ := List.exists_cons_of_ne_nil solid.nonempty
  exact words_ne_nil_of_mem List.mem_cons_self (solid.head c rfl)

theorem Solid.append {text rest : List Char} (first : Solid text) (second : Solid rest) (gap : List Char) :
    Solid (text ++ gap ++ rest) where
  head c starts := first.head c (by
    rwa [List.append_assoc, List.head?_append_of_ne_nil _ first.nonempty] at starts)
  last c ends := second.last c (by rwa [List.getLast?_append_of_ne_nil _ second.nonempty] at ends)
  nonempty := by simp [first.nonempty]

def narrowed (gap : List Char) : List Char := if gap = [] then [] else [' ']

theorem spaced_append_of_last {text gap rest : List Char} (ends : ∀ c, text.getLast? = some c → isBlank c = false)
    (nonempty : text ≠ []) (blank : AllBlank gap) (second : Solid rest) :
    spaced (text ++ gap ++ rest) = spaced text ++ narrowed gap ++ spaced rest := by
  -- from the end of the first text on, a character at a time
  induction text with
  | nil => exact absurd rfl nonempty
  | cons c others ih =>
      cases others with
      | nil =>
          have solid := ends c rfl
          rw [spaced_of_isWord ⟨List.cons_ne_nil c [], by simpa using solid⟩, narrowed]
          split
          next none =>
            subst none
            obtain ⟨d, later, rfl⟩ := List.exists_cons_of_ne_nil second.nonempty
            exact spaced_cons_cons solid (second.head d rfl) later
          next some => exact spaced_cons_gap solid ⟨blank, some⟩ second.words_ne_nil
      | cons d more =>
          have later := ih (fun e final => ends e (by simpa using final)) (List.cons_ne_nil d more)
          simp only [List.cons_append] at later ⊢
          cases blankC : isBlank c with
          | true => rw [spaced_cons_of_blank blankC, spaced_cons_of_blank blankC, later]
          | false =>
              cases blankD : isBlank d with
              | false =>
                  rw [spaced_cons_cons blankC blankD, spaced_cons_cons blankC blankD, later]
                  rfl
              | true =>
                  obtain ⟨final, isFinal⟩ := Option.ne_none_iff_exists'.mp
                    (mt List.getLast?_eq_none_iff.mp (List.cons_ne_nil d more))
                  have inFirst : words (d :: more) ≠ [] :=
                    words_ne_nil_of_mem (List.mem_of_getLast? isFinal) (ends final (by simpa using isFinal))
                  obtain ⟨e, after, rfl⟩ := List.exists_cons_of_ne_nil second.nonempty
                  have inAll : words (d :: (more ++ gap ++ e :: after)) ≠ [] :=
                    words_ne_nil_of_mem (by simp) (second.head e rfl)
                  rw [spaced_cons_blank_cons blankC blankD inFirst, spaced_cons_blank_cons blankC blankD inAll, later]
                  rfl

theorem narrowed_blank (gap : List Char) : AllBlank (narrowed gap) := by
  unfold narrowed
  split
  · exact nofun
  · intro c member
    rw [List.mem_singleton.mp member]
    rfl

theorem IsGap.narrowed_eq (isGap : IsGap gap) : narrowed gap = [' '] := if_neg isGap.nonempty

/-- Of a gap between two texts a single blank is left. -/
theorem Solid.spaced_append {text rest : List Char} (first : Solid text) (second : Solid rest) (blank : AllBlank gap) :
    spaced (text ++ gap ++ rest) = spaced text ++ narrowed gap ++ spaced rest :=
  spaced_append_of_last first.last first.nonempty blank second

/-! Pieces between single characters. -/

theorem piecesFrom_singleton (separator : Char) (text : List Char) :
    piecesFrom [separator] 0 text = splitWhere (· == separator) text := by
  induction text with
  | nil => rfl
  | cons c rest ih =>
      have starts : [separator].isPrefixOf (c :: rest) = (c == separator) := by
        simp [List.isPrefixOf, Bool.beq_comm]
      rw [piecesFrom, splitWhere_cons, starts, List.length_singleton, ih]
      split
      · rfl
      · rw [splitWhere_eq_splitOnP]
        obtain ⟨piece, pieces, parts⟩ := List.exists_cons_of_ne_nil (List.splitOnP_ne_nil (· == separator) rest)
        rw [parts]
        rfl

theorem piecesFrom_of_not_mem (absent : separator ∉ text) :
    piecesFrom [separator] 0 text = [text] := by
  rw [piecesFrom_singleton, splitWhere_eq_splitOnP]
  refine List.splitOnP_eq_singleton fun c member => ?_
  rw [beq_eq_false_iff_ne]
  rintro rfl
  exact absent member

theorem piecesFrom_append (absent : separator ∉ text) (rest : List Char) :
    piecesFrom [separator] 0 (text ++ separator :: rest) = text :: piecesFrom [separator] 0 rest := by
  have alone := piecesFrom_of_not_mem absent
  simp only [piecesFrom_singleton, splitWhere_eq_splitOnP] at alone ⊢
  have parts := @List.splitOnP_append_cons _ (· == separator) text rest separator (beq_self_eq_true separator)
  rw [parts, alone, List.singleton_append]

theorem map_strip_piecesFrom_narrowed (solid : isBlank separator = false) (gap text : List Char) :
    (piecesFrom [separator] 0 (narrowed gap ++ text)).map strip = (piecesFrom [separator] 0 text).map strip := by
  unfold narrowed
  split
  · rfl
  · have other : (' ' == separator) = false := by
      rw [beq_eq_false_iff_ne]
      rintro rfl
      cases solid
    rw [piecesFrom_singleton, piecesFrom_singleton, List.singleton_append, splitWhere_cons, other,
      if_neg Bool.false_ne_true, splitWhere_eq_splitOnP]
    obtain ⟨piece, pieces, parts⟩ := List.exists_cons_of_ne_nil (List.splitOnP_ne_nil (· == separator) text)
    have stripped : strip (' ' :: piece) = strip piece := by
      rw [strip, strip, stripLeft, List.dropWhile_cons_of_pos rfl, stripLeft]
    rw [parts, List.modifyHead_cons, List.map_cons, List.map_cons, stripped]

/-! First occurrences. -/

section

variable {before after : List Char} {joint : List Char}

variable {needle : List Char} {c : Char} {text rest : List Char}

theorem cutAt?_cons_of_starts (starts : needle <+: c :: rest) :
    cutAt? needle (c :: rest) = some ([], (c :: rest).drop needle.length) := by
  rw [cutAt?, if_pos (List.isPrefixOf_iff_prefix.mpr starts)]

theorem cutAt?_cons_of_not_starts (notHere : ¬ needle <+: c :: rest) :
    cutAt? needle (c :: rest) = (cutAt? needle rest).map fun (before, after) => (c :: before, after) := by
  rw [cutAt?, if_neg (mt List.isPrefixOf_iff_prefix.mp notHere)]

theorem cutAt?_eq_none_iff : cutAt? needle text = none ↔ ¬ needle <:+: text := by
  induction text with
  | nil => simp [cutAt?]
  | cons c rest ih =>
      rw [List.infix_cons_iff, not_or]
      by_cases starts : needle <+: c :: rest
      · simp [cutAt?_cons_of_starts starts, starts]
      · rw [cutAt?_cons_of_not_starts starts, Option.map_eq_none_iff, ih]
        simp only [starts, not_false_eq_true, true_and]

theorem eq_of_cutAt? (cut : cutAt? needle text = some (before, after)) :
    text = before ++ needle ++ after := by
  induction text generalizing before with
  | nil =>
      simp only [cutAt?, List.isEmpty_iff, Option.ite_none_right_eq_some, Option.some.injEq, Prod.mk.injEq] at cut
      obtain ⟨rfl, rfl, rfl⟩ := cut
      rfl
  | cons c rest ih =>
      by_cases starts : needle <+: c :: rest
      · rw [cutAt?_cons_of_starts starts] at cut
        obtain ⟨rfl, rfl⟩ := Prod.mk.inj (Option.some.inj cut)
        obtain ⟨more, parts⟩ := starts
        rw [← parts, List.drop_left, List.nil_append]
      · rw [cutAt?_cons_of_not_starts starts] at cut
        obtain ⟨⟨front, back⟩, found, same⟩ := Option.map_eq_some_iff.mp cut
        obtain ⟨rfl, rfl⟩ := Prod.mk.inj same
        rw [ih found]
        rfl

theorem subset_of_cutAt? (cut : cutAt? needle text = some (before, after)) :
    after ⊆ text := by
  rw [eq_of_cutAt? cut]
  exact List.subset_append_right _ _

theorem cutAt?_append (cut : cutAt? needle text = some (before, after)) (rest : List Char) :
    cutAt? needle (text ++ rest) = some (before, after ++ rest) := by
  induction text generalizing before with
  | nil =>
      simp only [cutAt?, List.isEmpty_iff, Option.ite_none_right_eq_some, Option.some.injEq, Prod.mk.injEq] at cut
      obtain ⟨rfl, rfl, rfl⟩ := cut
      cases rest with
      | nil => rfl
      | cons c more => exact cutAt?_cons_of_starts List.nil_prefix
  | cons c others ih =>
      rw [List.cons_append]
      by_cases starts : needle <+: c :: others
      · rw [cutAt?_cons_of_starts starts] at cut
        obtain ⟨rfl, rfl⟩ := Prod.mk.inj (Option.some.inj cut)
        have longer : needle <+: c :: (others ++ rest) := starts.trans (List.prefix_append (c :: others) rest)
        rw [cutAt?_cons_of_starts longer, ← List.cons_append, List.drop_append_of_le_length starts.length_le]
      · rw [cutAt?_cons_of_not_starts starts] at cut
        obtain ⟨⟨front, back⟩, found, same⟩ := Option.map_eq_some_iff.mp cut
        obtain ⟨rfl, rfl⟩ := Prod.mk.inj same
        -- an occurrence that begins here would end before the one that is in the text
        have fits : needle.length ≤ (c :: others).length := by
          rw [eq_of_cutAt? found]
          simp only [List.length_cons, List.length_append]
          omega
        have notHere : ¬ needle <+: c :: (others ++ rest) := fun longer =>
          starts (List.prefix_of_prefix_length_le longer (List.prefix_append (c :: others) rest) fits)
        rw [cutAt?_cons_of_not_starts notHere, ih found]
        rfl

theorem cutAt?_skip (nonempty : needle ≠ []) {front : List Char} (skips : ∀ c ∈ front, needle.head? ≠ some c)
    (text : List Char) :
    cutAt? needle (front ++ text) = (cutAt? needle text).map fun (before, after) => (front ++ before, after) := by
  induction front with
  | nil => simp
  | cons c others ih =>
      have notHere : ¬ needle <+: c :: (others ++ text) := by
        obtain ⟨d, more, rfl⟩ := List.exists_cons_of_ne_nil nonempty
        intro starts
        obtain ⟨rfl, -⟩ := List.cons_prefix_cons.mp starts
        exact skips d List.mem_cons_self rfl
      rw [List.cons_append, cutAt?_cons_of_not_starts notHere,
        ih fun d member => skips d (List.mem_cons_of_mem c member), Option.map_map]
      rfl

theorem cutAt?_append_of_absent (nonempty : needle ≠ []) (absent : ¬ needle <:+: text)
    (stops : ∀ c, rest.head? = some c → c ∉ needle) :
    cutAt? needle (text ++ rest) = (cutAt? needle rest).map fun (before, after) => (text ++ before, after) := by
  induction text with
  | nil => simp
  | cons c others ih =>
      rw [List.infix_cons_iff, not_or] at absent
      have notHere : ¬ needle <+: c :: (others ++ rest) := by
        intro starts
        rcases List.prefix_or_prefix_of_prefix starts (List.prefix_append (c :: others) rest) with inside | ⟨tail, rfl⟩
        · exact absent.1 inside
        · cases tail with
          | nil => exact absent.1 (by rw [List.append_nil])
          | cons d more =>
              have goesOn : d :: more <+: rest := (List.prefix_append_right_inj (c :: others)).mp starts
              obtain ⟨after, rfl⟩ := goesOn
              exact stops d rfl (by simp)
      rw [List.cons_append, cutAt?_cons_of_not_starts notHere, ih absent.2, Option.map_map]
      rfl

theorem exists_cutAt? (inside : needle <:+: text) : ∃ before after, cutAt? needle text = some (before, after) := by
  cases cut : cutAt? needle text with
  | none => exact absurd inside (cutAt?_eq_none_iff.mp cut)
  | some parts => exact ⟨parts.1, parts.2, rfl⟩

theorem beforeFirst_of_cutAt? (cut : cutAt? needle text = some (before, after)) :
    beforeFirst needle text = before := by
  rw [beforeFirst, cut]

theorem beforeFirst_of_absent (absent : ¬ needle <:+: text) : beforeFirst needle text = text := by
  rw [beforeFirst, cutAt?_eq_none_iff.mpr absent]

theorem beforeFirst_isPrefix (needle text : List Char) : beforeFirst needle text <+: text := by
  by_cases inside : needle <:+: text
  · obtain ⟨before, after, cut⟩ := exists_cutAt? inside
    rw [beforeFirst_of_cutAt? cut, eq_of_cutAt? cut, List.append_assoc]
    exact List.prefix_append before _
  · rw [beforeFirst_of_absent inside]

theorem beforeFirst_append (inside : needle <:+: text) (rest : List Char) :
    beforeFirst needle (text ++ rest) = beforeFirst needle text := by
  obtain ⟨before, after, cut⟩ := exists_cutAt? inside
  rw [beforeFirst_of_cutAt? cut, beforeFirst_of_cutAt? (cutAt?_append cut rest)]

theorem cutAt?_across (nonempty : needle ≠ []) (absent : ¬ needle <:+: text) (jointed : joint ≠ [])
    (apart : ∀ c ∈ joint, c ∉ needle) (rest : List Char) :
    cutAt? needle (text ++ joint ++ rest) =
      (cutAt? needle rest).map fun (before, after) => (text ++ joint ++ before, after) := by
  have stops : ∀ c, (joint ++ rest).head? = some c → c ∉ needle := by
    intro c first
    rw [List.head?_append_of_ne_nil _ jointed] at first
    exact apart c (List.mem_of_head? first)
  have skips : ∀ c ∈ joint, needle.head? ≠ some c := fun c member first =>
    apart c member (List.mem_of_head? first)
  rw [List.append_assoc, cutAt?_append_of_absent nonempty absent stops, cutAt?_skip nonempty skips,
    Option.map_map]
  refine Option.map_congr ?_
  rintro ⟨before, after⟩ -
  exact congrArg (·, after) (List.append_assoc text joint before).symm

theorem beforeFirst_across (nonempty : needle ≠ []) (absent : ¬ needle <:+: text) (jointed : joint ≠ [])
    (apart : ∀ c ∈ joint, c ∉ needle) (rest : List Char) :
    beforeFirst needle (text ++ joint ++ rest) = text ++ joint ++ beforeFirst needle rest := by
  rw [beforeFirst, cutAt?_across nonempty absent jointed apart, beforeFirst]
  cases cutAt? needle rest with
  | none => rfl
  | some parts => rfl

theorem infix_across_iff (nonempty : needle ≠ []) (jointed : joint ≠ []) (apart : ∀ c ∈ joint, c ∉ needle) :
    needle <:+: text ++ joint ++ rest ↔ needle <:+: text ∨ needle <:+: rest := by
  by_cases inside : needle <:+: text
  · have within : text <:+: text ++ joint ++ rest := ⟨[], joint ++ rest, by simp⟩
    exact iff_of_true (inside.trans within) (.inl inside)
  · rw [← not_iff_not, not_or, ← cutAt?_eq_none_iff, cutAt?_across nonempty inside jointed apart,
      Option.map_eq_none_iff, cutAt?_eq_none_iff]
    simp only [inside, not_false_eq_true, true_and]

end

end Arborist.Text
