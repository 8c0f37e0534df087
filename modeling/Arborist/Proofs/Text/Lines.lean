import Mathlib.Data.List.TakeWhile
import Mathlib.Order.Basic
import Arborist.Text.Lines

/-!
The lines of a sequence, laid end to end, are the sequence, and none of them is empty.  The lines of a text
go with its pieces between line feeds: a line without the feed at its end is the piece with its number, and
there is one piece more than lines if the text is empty or ends in a feed.
-/

namespace Arborist.Text

section

variable (isEnd : α → Bool)

theorem linesWhere_cons (item : α) (rest : List α) :
    linesWhere isEnd (item :: rest) =
      if isEnd item then [item] :: linesWhere isEnd rest else extendFirst item (linesWhere isEnd rest) := rfl

theorem flatten_linesWhere (items : List α) : (linesWhere isEnd items).flatten = items := by
  induction items with
  | nil => rfl
  | cons item rest ih =>
      rw [linesWhere_cons]
      split
      · rw [List.flatten_cons, ih, List.singleton_append]
      · have extended : ∀ lines, (extendFirst item lines).flatten = item :: lines.flatten := by
          intro lines
          cases lines <;> rfl
        rw [extended, ih]

theorem ne_nil_of_mem_linesWhere {items line : List α} (member : line ∈ linesWhere isEnd items) :
    line ≠ [] := by
  induction items generalizing line with
  | nil => cases member
  | cons item rest ih =>
      rw [linesWhere_cons] at member
      split at member
      · rcases List.mem_cons.mp member with rfl | later
        · exact List.cons_ne_nil item []
        · exact ih later
      · cases lines : linesWhere isEnd rest with
        | nil =>
            rw [lines, extendFirst, List.mem_singleton] at member
            exact member ▸ List.cons_ne_nil item []
        | cons first others =>
            rw [lines, extendFirst] at member
            rcases List.mem_cons.mp member with rfl | later
            · exact List.cons_ne_nil item first
            · exact ih (lines ▸ List.mem_cons_of_mem first later)

variable {isEnd}

theorem linesWhere_append {front : List α} (inside : ∀ item ∈ front, isEnd item = false) {final : α}
    (ends : isEnd final = true) (back : List α) :
    linesWhere isEnd (front ++ final :: back) = (front ++ [final]) :: linesWhere isEnd back := by
  induction front with
  | nil => rw [List.nil_append, linesWhere_cons, if_pos ends, List.nil_append]
  | cons item rest ih =>
      have onRest := ih fun later member => inside later (List.mem_cons_of_mem item member)
      rw [List.cons_append, linesWhere_cons, inside item List.mem_cons_self, onRest]
      rfl

theorem linesWhere_of_unended {front : List α} (nonempty : front ≠ [])
    (inside : ∀ item ∈ front, isEnd item = false) : linesWhere isEnd front = [front] := by
  induction front with
  | nil => exact absurd rfl nonempty
  | cons item rest ih =>
      rw [linesWhere_cons, inside item List.mem_cons_self]
      cases rest with
      | nil => rfl
      | cons next others =>
          rw [ih (List.cons_ne_nil next others) fun later member => inside later (List.mem_cons_of_mem item member)]
          rfl

/-- Induction on a sequence line by line. -/
theorem line_induction {motive : List α → Prop} (nil : motive [])
    (unended : ∀ front, front ≠ [] → (∀ item ∈ front, isEnd item = false) → motive front)
    (line : ∀ front final back, (∀ item ∈ front, isEnd item = false) → isEnd final = true → motive back →
      motive (front ++ final :: back))
    (items : List α) : motive items := by
  induction size : items.length using Nat.strong_induction_on generalizing items with
  | _ size ih =>
    have parts := List.takeWhile_append_dropWhile (p := fun item => !isEnd item) (l := items)
    have inside : ∀ item ∈ items.takeWhile (fun item => !isEnd item), isEnd item = false := by
      intro item member
      simpa using List.mem_takeWhile_imp member
    cases rest : items.dropWhile (fun item => !isEnd item) with
    | nil =>
        rw [rest, List.append_nil] at parts
        by_cases empty : items = []
        · rw [empty]
          exact nil
        · exact unended items empty (parts ▸ inside)
    | cons final back =>
        have ends : isEnd final = true := by
          have stops := List.head?_dropWhile_not (fun item => !isEnd item) items
          rw [rest] at stops
          simpa using stops
        rw [rest] at parts
        rw [← parts]
        refine line _ final back inside ends (ih back.length ?_ back rfl)
        have lengths := congrArg List.length parts
        rw [List.length_append, List.length_cons] at lengths
        omega

end

theorem feedLines_cons (c : Char) (rest : List Char) :
    feedLines (c :: rest) =
      if c = '\n' then [c] :: feedLines rest else extendFirst c (feedLines rest) := by
  simp [feedLines, linesWhere_cons]

theorem feedLines_append {front : List Char} (noFeed : '\n' ∉ front) (back : List Char) :
    feedLines (front ++ '\n' :: back) = (front ++ ['\n']) :: feedLines back := by
  apply linesWhere_append
  · intro c member
    exact beq_eq_false_iff_ne.mpr (ne_of_mem_of_not_mem member noFeed)
  · rfl

theorem feedLines_of_not_mem {text : List Char} (nonempty : text ≠ []) (noFeed : '\n' ∉ text) :
    feedLines text = [text] :=
  linesWhere_of_unended nonempty fun _ member => beq_eq_false_iff_ne.mpr (ne_of_mem_of_not_mem member noFeed)

theorem dropFeeds_cons {c : Char} (notFeed : c ≠ '\n') (line : List Char) :
    dropFeeds (c :: line) = c :: dropFeeds line := by
  have stops : [c].dropWhile (· == '\n') = [c] := by simp [notFeed]
  unfold dropFeeds
  rw [List.reverse_cons, List.dropWhile_append, stops]
  split
  next allFeeds => simp [List.isEmpty_iff.mp allFeeds]
  next => simp

theorem splitOn_feed_cons (c : Char) (rest : List Char) :
    (c :: rest).splitOn '\n' =
      if c = '\n' then [] :: rest.splitOn '\n' else (rest.splitOn '\n').modifyHead (c :: ·) := by
  simp [List.splitOn, List.splitOnP_cons_eq_if_modifyHead]

theorem exists_splitOn_feed_eq (text : List Char) :
    ∃ last, text.splitOn '\n' = (feedLines text).map dropFeeds ++ last ∧
      (feedLines text = [] → last = [[]]) := by
  induction text with
  | nil => exact ⟨[[]], by simp [feedLines, linesWhere], fun _ => rfl⟩
  | cons c rest ih =>
      obtain ⟨last, pieces, atEnd⟩ := ih
      rw [splitOn_feed_cons, feedLines_cons]
      by_cases feed : c = '\n'
      · rw [if_pos feed, if_pos feed, pieces, feed]
        exact ⟨last, rfl, by simp⟩
      · rw [if_neg feed, if_neg feed, pieces]
        cases lines : feedLines rest with
        | nil =>
            refine ⟨[], ?_, by simp [extendFirst]⟩
            have alone : dropFeeds [c] = [c] := dropFeeds_cons feed []
            simp [atEnd lines, extendFirst, alone]
        | cons line others =>
            refine ⟨last, ?_, by simp [extendFirst]⟩
            simp [extendFirst, dropFeeds_cons feed]

theorem splitOn_feed_getElem? {text line : List Char} {index : Nat}
    (found : (feedLines text)[index]? = some line) :
    (text.splitOn '\n')[index]? = some (dropFeeds line) := by
  obtain ⟨last, pieces, -⟩ := exists_splitOn_feed_eq text
  have below : index < (feedLines text).length := (List.getElem?_eq_some_iff.mp found).1
  rw [pieces, List.getElem?_append_left (by simpa using below), List.getElem?_map, found]
  rfl

end Arborist.Text
