import Arborist.Proofs.Text.Stripping
import Arborist.Text.Case

/-!
Lower case and blanks.  Blanks have no case, no letter becomes one, and a word ends at them; so lower case
can be taken before or after the blanks at the ends are.  What stands around a letter matters for the
capital sigma only, so a text without it has the same lower case wherever it occurs.
-/

namespace Arborist.Text

/-! Blanks by their code points. -/

def blankRanges : List (Nat × Nat) :=
  [(9, 13), (28, 32), (133, 133), (160, 160), (5760, 5760), (8192, 8202), (8232, 8232), (8233, 8233),
    (8239, 8239), (8287, 8287), (12288, 12288)]

theorem beq_eq_between (code bound : Nat) : (code == bound) = (bound ≤ code && code ≤ bound) := by
  rw [Bool.eq_iff_iff, beq_iff_eq, Bool.and_eq_true, decide_eq_true_eq, decide_eq_true_eq]
  omega

theorem isBlank_eq_inRanges (c : Char) : isBlank c = inRanges blankRanges c.toNat := by
  simp only [isBlank, beq_eq_between, inRanges, blankRanges, List.any_cons, List.any_nil, Bool.or_false,
    Bool.or_assoc]

theorem inRanges_eq_true_iff {ranges : List (Nat × Nat)} {code : Nat} :
    inRanges ranges code = true ↔ ∃ range ∈ ranges, range.1 ≤ code ∧ code ≤ range.2 := by
  simp [inRanges]

def Apart (ranges others : List (Nat × Nat)) : Prop :=
  ∀ range ∈ ranges, ∀ other ∈ others, range.2 < other.1 ∨ other.2 < range.1

instance (ranges others : List (Nat × Nat)) : Decidable (Apart ranges others) :=
  inferInstanceAs (Decidable (∀ range ∈ ranges, ∀ other ∈ others, range.2 < other.1 ∨ other.2 < range.1))

theorem Apart.inRanges_eq_false {ranges others : List (Nat × Nat)} (apart : Apart ranges others) {code : Nat}
    (inside : inRanges ranges code = true) : inRanges others code = false := by
  obtain ⟨range, among, low, high⟩ := inRanges_eq_true_iff.mp inside
  by_contra also
  obtain ⟨other, member, lower, upper⟩ := inRanges_eq_true_iff.mp (Bool.not_eq_false _ ▸ also)
  have between := apart range among other member
  omega

theorem blank_apart_transparent : Apart blankRanges transparentRanges := by decide +kernel

theorem blank_apart_cased : Apart blankRanges casedRanges := by decide +kernel

/-- No capital letter is a blank, and none has a blank as its small letter. -/
theorem lowerRuns_apart_blank : ∀ run ∈ lowerRuns, ∀ range ∈ blankRanges,
    (run.2.1 < range.1 ∨ range.2 < run.1) ∧
      ((run.2.1 : Int) + run.2.2.2 < range.1 ∨ (range.2 : Int) < run.1 + run.2.2.2) := by
  decide +kernel

theorem toLower_blank {c : Char} (ascii : c.toNat < 128) :
    isBlank c.toLower = isBlank c ∧ (isBlank c = true → c.toLower = c) := by
  have onCodes : ∀ code < 128, isBlank (Char.ofNat code).toLower = isBlank (Char.ofNat code) ∧
      (isBlank (Char.ofNat code) = true → (Char.ofNat code).toLower = Char.ofNat code) := by
    decide +kernel
  have here := onCodes c.toNat ascii
  rwa [Char.ofNat_toNat] at here

theorem exists_range_of_isBlank {c : Char} (blank : isBlank c = true) :
    ∃ range ∈ blankRanges, range.1 ≤ c.toNat ∧ c.toNat ≤ range.2 := by
  rw [isBlank_eq_inRanges] at blank
  exact inRanges_eq_true_iff.mp blank

theorem lowerChar_of_isBlank {c : Char} (blank : isBlank c = true) : lowerChar c = c := by
  obtain ⟨range, among, low, high⟩ := exists_range_of_isBlank blank
  have notDotted : Apart [(304, 304)] blankRanges := by decide
  have between := notDotted _ List.mem_cons_self range among
  unfold lowerChar
  split
  next ascii => exact (toLower_blank ascii).2 blank
  next =>
    rw [if_neg (by omega)]
    split
    next found =>
      have inRun := List.find?_some found
      have apart := (lowerRuns_apart_blank _ (List.mem_of_find?_eq_some found) range among).1
      simp only [Bool.and_eq_true, decide_eq_true_eq] at inRun apart
      omega
    next => rfl

theorem exists_range_of_isBlank_ofNat {code : Nat} (blank : isBlank (Char.ofNat code) = true) :
    ∃ range ∈ blankRanges, range.1 ≤ code ∧ code ≤ range.2 := by
  by_cases valid : code.isValidChar
  · have same : (Char.ofNat code).toNat = code := by rw [Char.ofNat, dif_pos valid]; rfl
    simpa only [same] using exists_range_of_isBlank blank
  · rw [Char.ofNat, dif_neg valid] at blank
    exact absurd blank (by decide)

theorem isBlank_lowerChar {c : Char} (notBlank : isBlank c = false) : isBlank (lowerChar c) = false := by
  unfold lowerChar
  split
  next ascii => rw [(toLower_blank ascii).1, notBlank]
  next =>
    split
    · decide
    · split
      next found =>
        by_contra becomes
        obtain ⟨range, among, low, high⟩ :=
          exists_range_of_isBlank_ofNat (Bool.not_eq_false _ ▸ becomes)
        have inRun := List.find?_some found
        have apart := (lowerRuns_apart_blank _ (List.mem_of_find?_eq_some found) range among).2
        have positive : ∀ range ∈ blankRanges, 0 < range.1 := by decide
        have above := positive range among
        simp only [Bool.and_eq_true, decide_eq_true_eq] at inRun apart
        omega
      next => exact notBlank

/-! One character, with what stands before it and after it. -/

def lowerAt (before : List Char) (c : Char) (rest : List Char) : List Char :=
  if c.toNat = 931 then
    if nextHasCase before && !nextHasCase rest then [Char.ofNat 962] else [Char.ofNat 963]
  else if c.toNat = 304 then ['i', Char.ofNat 775]
  else [lowerChar c]

theorem lowerFrom_cons (before : List Char) (c : Char) (rest : List Char) :
    lowerFrom before (c :: rest) = lowerAt before c rest ++ lowerFrom (c :: before) rest := rfl

theorem lowerAt_of_isBlank {c : Char} (blank : isBlank c = true) (before rest : List Char) :
    lowerAt before c rest = [c] := by
  obtain ⟨range, among, low, high⟩ := exists_range_of_isBlank blank
  have special : Apart [(931, 931), (304, 304)] blankRanges := by decide
  have notSigma := special (931, 931) (by simp) range among
  have notDotted := special (304, 304) (by simp) range among
  rw [lowerAt, if_neg (by omega), if_neg (by omega), lowerChar_of_isBlank blank]

theorem isBlank_of_mem_lowerAt {before rest : List Char} {c d : Char} (notBlank : isBlank c = false)
    (member : d ∈ lowerAt before c rest) : isBlank d = false := by
  unfold lowerAt at member
  split at member
  · split at member <;> rw [List.mem_singleton.mp member] <;> decide
  · split at member
    · rcases List.mem_cons.mp member with rfl | later
      · decide
      · rw [List.mem_singleton.mp later]
        decide
    · rw [List.mem_singleton.mp member]
      exact isBlank_lowerChar notBlank

theorem lowerAt_ne_nil (before : List Char) (c : Char) (rest : List Char) : lowerAt before c rest ≠ [] := by
  unfold lowerAt
  split
  · split <;> simp
  · split <;> simp

theorem lowerAt_of_ne_sigma {c : Char} (plain : c.toNat ≠ 931) (before other rest more : List Char) :
    lowerAt before c rest = lowerAt other c more := by
  simp [lowerAt, plain]

theorem lower_eq_lowerFrom (text : List Char) : lower text = lowerFrom [] text := by
  unfold lower
  split
  next ascii =>
    rw [List.all_eq_true] at ascii
    have onText : ∀ before, text.map Char.toLower = lowerFrom before text := by
      induction text with
      | nil => exact fun before => rfl
      | cons c rest ih =>
          intro before
          have small : c.toNat < 128 := by simpa using ascii c List.mem_cons_self
          have here : lowerAt before c rest = [c.toLower] := by
            simp [lowerAt, lowerChar, small, show c.toNat ≠ 931 by omega, show c.toNat ≠ 304 by omega]
          rw [lowerFrom_cons, here, List.map_cons,
            ih (fun d member => ascii d (List.mem_cons_of_mem c member)) (c :: before)]
          rfl
    exact onText []
  next => rfl

/-! Lower case and blanks. -/

theorem nextHasCase_append_blank {text blanks : List Char} (blank : AllBlank blanks) :
    nextHasCase (text ++ blanks) = nextHasCase text := by
  induction text with
  | nil =>
      cases blanks with
      | nil => rfl
      | cons c rest =>
          have inside : inRanges blankRanges c.toNat = true := by
            rw [← isBlank_eq_inRanges]
            exact blank c List.mem_cons_self
          simp [nextHasCase, blank_apart_transparent.inRanges_eq_false inside,
            blank_apart_cased.inRanges_eq_false inside]
  | cons c rest ih =>
      unfold nextHasCase at ih ⊢
      cases passed : inRanges transparentRanges c.toNat with
      | true => simpa [passed] using ih
      | false => simp [passed]

theorem lowerAt_append_blank {before rest blanks : List Char} (c : Char) (blank : AllBlank blanks) :
    lowerAt before c (rest ++ blanks) = lowerAt before c rest := by
  unfold lowerAt
  rw [nextHasCase_append_blank blank]

theorem lowerAt_behind_blank {before rest blanks : List Char} (c : Char) (blank : AllBlank blanks) :
    lowerAt (before ++ blanks) c rest = lowerAt before c rest := by
  unfold lowerAt
  rw [nextHasCase_append_blank blank]

theorem lowerFrom_blank_append {front : List Char} (blank : AllBlank front) (before rest : List Char) :
    lowerFrom before (front ++ rest) = front ++ lowerFrom (front.reverse ++ before) rest := by
  induction front generalizing before with
  | nil => rfl
  | cons c others ih =>
      have onOthers := ih (fun d member => blank d (List.mem_cons_of_mem c member)) (c :: before)
      rw [List.cons_append, lowerFrom_cons, lowerAt_of_isBlank (blank c List.mem_cons_self), onOthers]
      simp

theorem lowerFrom_append_blank {back : List Char} (blank : AllBlank back) (before core : List Char) :
    lowerFrom before (core ++ back) = lowerFrom before core ++ back := by
  induction core generalizing before with
  | nil =>
      have same := lowerFrom_blank_append blank before []
      simpa [lowerFrom] using same
  | cons c rest ih =>
      rw [List.cons_append, lowerFrom_cons, lowerAt_append_blank c blank, ih, lowerFrom_cons,
        List.append_assoc]

theorem lowerFrom_behind_blank {blanks : List Char} (blank : AllBlank blanks) (before text : List Char) :
    lowerFrom (before ++ blanks) text = lowerFrom before text := by
  induction text generalizing before with
  | nil => rfl
  | cons c rest ih =>
      rw [lowerFrom_cons, lowerFrom_cons, lowerAt_behind_blank c blank]
      exact congrArg _ (ih (c :: before))

theorem lower_between_blanks {front back : List Char} (blankFront : AllBlank front)
    (blankBack : AllBlank back) (core : List Char) :
    lower (front ++ core ++ back) = front ++ lower core ++ back := by
  have behind := lowerFrom_behind_blank blankFront.reverse [] core
  rw [lower_eq_lowerFrom, lower_eq_lowerFrom, lowerFrom_append_blank blankBack,
    lowerFrom_blank_append blankFront, List.append_nil]
  exact congrArg (front ++ · ++ back) behind

/-- The lower case of a text that goes on after a front ends with that of the rest, seen from there. -/
theorem exists_lowerFrom_append (before front rest : List Char) :
    ∃ lowered, lowerFrom before (front ++ rest) = lowered ++ lowerFrom (front.reverse ++ before) rest := by
  induction front generalizing before with
  | nil => exact ⟨[], rfl⟩
  | cons c others ih =>
      obtain ⟨lowered, parts⟩ := ih (c :: before)
      refine ⟨lowerAt before c (others ++ rest) ++ lowered, ?_⟩
      rw [List.cons_append, lowerFrom_cons, parts]
      simp

theorem Trimmed.lower {core : List Char} (trimmed : Trimmed core) : Trimmed (lower core) := by
  rw [lower_eq_lowerFrom]
  constructor
  · intro d first
    cases core with
    | nil => cases first
    | cons c rest =>
        obtain ⟨e, more, parts⟩ := List.exists_cons_of_ne_nil (lowerAt_ne_nil [] c rest)
        rw [lowerFrom_cons, parts] at first
        cases first
        apply isBlank_of_mem_lowerAt (trimmed.head c rfl)
        rw [parts]
        exact List.mem_cons_self
  · intro d final
    rcases List.eq_nil_or_concat' core with rfl | ⟨rest, c, rfl⟩
    · cases final
    · obtain ⟨lowered, parts⟩ := exists_lowerFrom_append [] rest [c]
      rw [parts, lowerFrom_cons, lowerFrom, List.append_nil,
        List.getLast?_append_of_ne_nil _ (lowerAt_ne_nil _ c [])] at final
      exact isBlank_of_mem_lowerAt (trimmed.last c (by simp)) (List.mem_of_getLast? final)

theorem strip_lower (text : List Char) : strip (lower text) = lower (strip text) := by
  obtain ⟨front, back, parts, blankFront, blankBack⟩ := exists_strip text
  rw [strip_eq_iff]
  refine ⟨(trimmed_strip text).lower, front, back, ?_, blankFront, blankBack⟩
  calc lower text = lower (front ++ strip text ++ back) := by rw [← parts]
    _ = front ++ lower (strip text) ++ back := lower_between_blanks blankFront blankBack _

theorem mem_lower_iff_of_isBlank {c : Char} (blank : isBlank c = true) {text : List Char} :
    c ∈ lower text ↔ c ∈ text := by
  rw [lower_eq_lowerFrom]
  generalize ([] : List Char) = before
  induction text generalizing before with
  | nil => rfl
  | cons d rest ih =>
      rw [lowerFrom_cons, List.mem_append, List.mem_cons, ih]
      refine or_congr_left ?_
      cases other : isBlank d with
      | true => rw [lowerAt_of_isBlank other, List.mem_singleton]
      | false =>
          constructor
          · intro member
            rw [isBlank_of_mem_lowerAt other member] at blank
            cases blank
          · rintro rfl
            rw [other] at blank
            cases blank

/-! Lower case and occurrences. -/

theorem lowerFrom_plain_append {core : List Char} (plain : 'Σ' ∉ core) (before other rest : List Char) :
    ∃ lowered, lowerFrom before (core ++ rest) = lowerFrom other core ++ lowered := by
  induction core generalizing before other with
  | nil => exact ⟨_, rfl⟩
  | cons c more ih =>
      have notSigma : c.toNat ≠ 931 := by
        intro same
        apply plain
        have isSigma : c = 'Σ' := Char.toNat_inj.mp same
        exact isSigma ▸ List.mem_cons_self
      obtain ⟨lowered, parts⟩ :=
        ih (fun member => plain (List.mem_cons_of_mem c member)) (c :: before) (c :: other)
      refine ⟨lowered, ?_⟩
      rw [List.cons_append, lowerFrom_cons, parts, lowerFrom_cons,
        lowerAt_of_ne_sigma notSigma before other _ more, List.append_assoc]

theorem lower_infix_lower {core text : List Char} (plain : 'Σ' ∉ core) (inside : core <:+: text) :
    lower core <:+: lower text := by
  obtain ⟨front, back, rfl⟩ := inside
  obtain ⟨first, parts⟩ := exists_lowerFrom_append [] front (core ++ back)
  obtain ⟨last, others⟩ := lowerFrom_plain_append plain (front.reverse ++ []) [] back
  rw [lower_eq_lowerFrom, lower_eq_lowerFrom, List.append_assoc, parts, others]
  exact ⟨first, last, by simp⟩

end Arborist.Text
