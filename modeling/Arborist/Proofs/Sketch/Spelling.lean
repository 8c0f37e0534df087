import Arborist.Proofs.Text.Lowering
import Arborist.Sketch.Query

/-!
How tokens of a query are spelled.  Between them there may be blanks, and there must be one only where two
names would run into each other; whatever the layout, the same tokens are found.
-/

namespace Arborist.Sketch

variable {c : Char} {name : String}

/-! Characters. -/

theorem isWord_of_isBlank (blank : Text.isBlank c = true) : Text.isWord c = false := by
  have ascii : ∀ code < 128, Text.isBlank (Char.ofNat code) = true → Text.isWord (Char.ofNat code) = false := by
    decide +kernel
  have apart : Text.Apart Text.blankRanges Text.letterRanges := by decide +kernel
  by_cases small : c.toNat < 128
  · have here := ascii c.toNat small
    rw [Char.ofNat_toNat] at here
    exact here blank
  · rw [Text.isBlank_eq_inRanges] at blank
    rw [Text.isWord, Text.isAlphanumeric, if_neg small, apart.inRanges_eq_false blank, Bool.false_or,
      beq_eq_false_iff_ne]
    rintro rfl
    exact small (by decide)

theorem ne_of_isBlank {c other : Char} (blank : Text.isBlank c = true) (solid : Text.isBlank other = false) :
    c ≠ other := by
  rintro rfl
  rw [blank] at solid
  cases solid

theorem isNameChar_of_isBlank (blank : Text.isBlank c = true) : isNameChar c = false := by
  rw [isNameChar, isWord_of_isBlank blank, Bool.false_or, beq_eq_false_iff_ne]
  exact ne_of_isBlank blank (by decide)

theorem ne_of_isNameChar {c other : Char} (named : isNameChar c = true) (mark : isNameChar other = false) :
    c ≠ other := by
  rintro rfl
  rw [named] at mark
  cases mark

/-! Names and tokens. -/

/-- A text of letters, digits, underscores and dots. -/
structure IsName (name : String) : Prop where
  nonempty : name.toList ≠ []
  chars : ∀ c ∈ name.toList, isNameChar c = true

theorem isName_iff (name : String) :
    name.toList.isEmpty = false ∧ name.toList.all isNameChar = true ↔ IsName name := by
  rw [List.isEmpty_eq_false_iff, List.all_eq_true]
  exact ⟨fun holds => ⟨holds.1, holds.2⟩, fun isName => ⟨isName.nonempty, isName.chars⟩⟩

instance (name : String) : Decidable (IsName name) := decidable_of_iff _ (isName_iff name)

def Ended (rest : List Char) : Prop := ∀ c, rest.head? = some c → isNameChar c = false

theorem takeWhile_name {name rest : List Char} (chars : ∀ c ∈ name, isNameChar c = true) (ended : Ended rest) :
    (name ++ rest).takeWhile isNameChar = name := by
  rw [List.takeWhile_append_of_pos chars]
  cases rest with
  | nil => rw [List.takeWhile_nil, List.append_nil]
  | cons c rest => rw [List.takeWhile_cons_of_neg (Bool.eq_false_iff.mp (ended c rfl)), List.append_nil]

namespace QueryToken

def Plain : QueryToken → Prop
  | .open | .close => True
  | .capture name | .field name | .word name => IsName name
  | .predicate _ | .quoted _ => False

/-- Whether name characters behind a token would belong to it. -/
def runsOn : QueryToken → Bool
  | .capture _ | .word _ => true
  | _ => false

end QueryToken

/-- A text that is made of tokens, with blanks around them. -/
inductive Spells : List QueryToken → List Char → Prop where
  | blank {gap : List Char} (blank : Text.AllBlank gap) : Spells [] gap
  | token {gap rest : List Char} {token : QueryToken} {tokens : List QueryToken} (blank : Text.AllBlank gap)
      (ended : token.runsOn = true → Ended rest) (others : Spells tokens rest) :
      Spells (token :: tokens) (gap ++ (token.text.toList ++ rest))

/-! Finding the tokens. -/

theorem lex_cons_of_isBlank (blank : Text.isBlank c = true) (fuel : Nat) (rest : List Char) :
    lex (fuel + 1) (c :: rest) = lex fuel rest := by
  have other {mark : Char} (solid : Text.isBlank mark = false) : ¬ (c == mark) = true := by
    rw [beq_iff_eq]
    exact ne_of_isBlank blank solid
  rw [lex, if_neg (other (by decide)), if_neg (other (by decide)), if_neg (other (by decide)),
    if_neg (other (by decide)), if_neg (other (by decide)),
    if_neg (Bool.eq_false_iff.mp (isNameChar_of_isBlank blank))]

theorem lex_blank_append {gap : List Char} (blank : Text.AllBlank gap) (fuel : Nat) (rest : List Char) :
    lex (gap.length + fuel) (gap ++ rest) = lex fuel rest := by
  induction gap with
  | nil => rw [List.length_nil, Nat.zero_add, List.nil_append]
  | cons c gap ih =>
      rw [List.length_cons, Nat.add_right_comm, List.cons_append, lex_cons_of_isBlank (blank c List.mem_cons_self)]
      apply ih
      intro other member
      exact blank other (List.mem_cons_of_mem c member)

theorem lex_capture (isName : IsName name) {rest : List Char} (ended : Ended rest) (fuel : Nat) :
    lex (fuel + 1) ('@' :: (name.toList ++ rest)) = .capture name :: lex fuel rest := by
  rw [lex, if_neg (by decide), if_neg (by decide), if_pos (by decide), takeWhile_name isName.chars ended]
  dsimp only
  rw [if_neg (by simpa using isName.nonempty), List.drop_left, String.ofList_toList]

theorem lex_of_isNameChar {name rest : List Char} (chars : ∀ d ∈ c :: name, isNameChar d = true) (ended : Ended rest)
    (fuel : Nat) :
    lex (fuel + 1) (c :: (name ++ rest)) =
      if rest.head? = some ':' then .field (String.ofList (c :: name)) :: lex fuel rest.tail
      else .word (String.ofList (c :: name)) :: lex fuel rest := by
  have other {mark : Char} (aside : isNameChar mark = false) : ¬ (c == mark) = true := by
    rw [beq_iff_eq]
    exact ne_of_isNameChar (chars c List.mem_cons_self) aside
  rw [lex, if_neg (other (by decide)), if_neg (other (by decide)), if_neg (other (by decide)),
    if_neg (other (by decide)), if_neg (other (by decide)), if_pos (chars c List.mem_cons_self),
    takeWhile_name (fun d member => chars d (List.mem_cons_of_mem c member)) ended]
  dsimp only
  rw [← List.cons_append, List.drop_left]
  split
  · rw [if_pos List.head?_cons, List.tail_cons]
  next noColon =>
    rw [if_neg]
    intro colon
    obtain ⟨after, rfl⟩ := List.head?_eq_some_iff.mp colon
    exact noColon after rfl

theorem lex_field (isName : IsName name) (rest : List Char) (fuel : Nat) :
    lex (fuel + 1) (name.toList ++ ':' :: rest) = .field name :: lex fuel rest := by
  obtain ⟨c, more, spelled⟩ := List.exists_cons_of_ne_nil isName.nonempty
  have chars := isName.chars
  have ended : Ended (':' :: rest) := by
    intro d first
    cases first
    decide
  rw [spelled] at chars ⊢
  rw [List.cons_append, lex_of_isNameChar chars ended, if_pos List.head?_cons, ← spelled, String.ofList_toList,
    List.tail_cons]

theorem lex_word (isName : IsName name) {rest : List Char} (ended : Ended rest) (noColon : rest.head? ≠ some ':')
    (fuel : Nat) :
    lex (fuel + 1) (name.toList ++ rest) = .word name :: lex fuel rest := by
  obtain ⟨c, more, spelled⟩ := List.exists_cons_of_ne_nil isName.nonempty
  have chars := isName.chars
  rw [spelled] at chars ⊢
  rw [List.cons_append, lex_of_isNameChar chars ended, if_neg noColon, ← spelled, String.ofList_toList]

/-! Spelled texts. -/

theorem IsName.semicolon_not_mem (isName : IsName name) : ';' ∉ name.toList := by
  intro member
  exact ne_of_isNameChar (isName.chars ';' member) (by decide) rfl

namespace QueryToken

variable {token : QueryToken}

theorem Plain.semicolon_not_mem (plain : token.Plain) : ';' ∉ token.text.toList := by
  cases token with
  | «open» => decide
  | close => decide
  | capture name =>
      rw [text, String.toList_append, List.mem_append, not_or]
      exact ⟨by decide, IsName.semicolon_not_mem plain⟩
  | field name =>
      rw [text, String.toList_append, List.mem_append, not_or]
      exact ⟨IsName.semicolon_not_mem plain, by decide⟩
  | word name => exact IsName.semicolon_not_mem plain
  | predicate _ => cases plain
  | quoted _ => cases plain

theorem Plain.exists_cons (plain : token.Plain) :
    ∃ c more, token.text.toList = c :: more ∧ (c = '(' ∨ c = ')' ∨ c = '@' ∨ isNameChar c = true) := by
  cases token with
  | «open» => exact ⟨'(', [], by decide, .inl rfl⟩
  | close => exact ⟨')', [], by decide, .inr (.inl rfl)⟩
  | capture name =>
      refine ⟨'@', name.toList, ?_, .inr (.inr (.inl rfl))⟩
      rw [text, String.toList_append]
      rfl
  | field name =>
      obtain ⟨c, more, spelled⟩ := List.exists_cons_of_ne_nil plain.nonempty
      refine ⟨c, more ++ [':'], ?_, .inr (.inr (.inr ?_))⟩
      · rw [text, String.toList_append, spelled]
        rfl
      · apply plain.chars
        rw [spelled]
        exact List.mem_cons_self
  | word name =>
      obtain ⟨c, more, spelled⟩ := List.exists_cons_of_ne_nil plain.nonempty
      refine ⟨c, more, spelled, .inr (.inr (.inr ?_))⟩
      apply plain.chars
      rw [spelled]
      exact List.mem_cons_self
  | predicate _ => cases plain
  | quoted _ => cases plain

theorem Plain.lex_text (plain : token.Plain) {rest : List Char} (ended : token.runsOn = true → Ended rest)
    (noColon : rest.head? ≠ some ':') (fuel : Nat) :
    lex (fuel + 1) (token.text.toList ++ rest) = token :: lex fuel rest := by
  cases token with
  | «open» => rfl
  | close => rfl
  | capture name =>
      rw [text, String.toList_append]
      exact lex_capture plain (ended rfl) fuel
  | field name =>
      rw [text, String.toList_append, List.append_assoc]
      exact lex_field plain rest fuel
  | word name => exact lex_word plain (ended rfl) noColon fuel
  | predicate _ => cases plain
  | quoted _ => cases plain

end QueryToken

namespace Spells

variable {tokens : List QueryToken} {chars : List Char}

theorem head?_ne_colon (spelled : Spells tokens chars) (plain : ∀ token ∈ tokens, token.Plain) :
    chars.head? ≠ some ':' := by
  cases spelled with
  | blank blank =>
      intro colon
      exact ne_of_isBlank (blank ':' (List.mem_of_mem_head? colon)) (by decide) rfl
  | @token gap rest token tokens blank ended others =>
      cases gap with
      | cons c gap =>
          intro colon
          obtain rfl : c = ':' := Option.some.inj colon
          exact ne_of_isBlank (blank ':' List.mem_cons_self) (by decide) rfl
      | nil =>
          obtain ⟨c, more, text, first⟩ := (plain token List.mem_cons_self).exists_cons
          rw [List.nil_append, text]
          intro colon
          obtain rfl : c = ':' := Option.some.inj colon
          revert first
          decide

/-- The tokens of a text that they spell; fuel for each of its characters is enough. -/
theorem lex_eq (spelled : Spells tokens chars) (plain : ∀ token ∈ tokens, token.Plain) {fuel : Nat}
    (enough : chars.length ≤ fuel) : lex fuel chars = tokens := by
  induction spelled generalizing fuel with
  | @blank gap blank =>
      obtain ⟨more, rfl⟩ := Nat.exists_eq_add_of_le enough
      have found := lex_blank_append blank more []
      rw [List.append_nil] at found
      rw [found]
      cases more <;> rfl
  | @token gap rest token tokens blank ended others ih =>
      obtain ⟨here, later⟩ := List.forall_mem_cons.mp plain
      obtain ⟨c, more, text, -⟩ := here.exists_cons
      have length : token.text.toList.length = more.length + 1 := congrArg List.length text
      rw [List.length_append, List.length_append] at enough
      obtain ⟨left, rfl⟩ : ∃ left, fuel = gap.length + (left + 1) := ⟨fuel - gap.length - 1, by omega⟩
      rw [lex_blank_append blank, here.lex_text ended (others.head?_ne_colon later)]
      congr 1
      apply ih later
      omega

theorem semicolon_not_mem (spelled : Spells tokens chars) (plain : ∀ token ∈ tokens, token.Plain) :
    ';' ∉ chars := by
  have outside {gap : List Char} (blank : Text.AllBlank gap) : ';' ∉ gap := by
    intro member
    exact ne_of_isBlank (blank ';' member) (by decide) rfl
  induction spelled with
  | blank blank => exact outside blank
  | token blank ended others ih =>
      obtain ⟨here, later⟩ := List.forall_mem_cons.mp plain
      rw [List.mem_append, List.mem_append, not_or, not_or]
      exact ⟨outside blank, here.semicolon_not_mem, ih later⟩

theorem blank_append {gap : List Char} (blank : Text.AllBlank gap) (spelled : Spells tokens chars) :
    Spells tokens (gap ++ chars) := by
  cases spelled with
  | blank more => exact .blank (List.forall_mem_append.mpr ⟨blank, more⟩)
  | token more ended others =>
      rw [← List.append_assoc]
      exact .token (List.forall_mem_append.mpr ⟨blank, more⟩) ended others

theorem cons {token : QueryToken} (ended : token.runsOn = true → Ended chars) (spelled : Spells tokens chars) :
    Spells (token :: tokens) (token.text.toList ++ chars) :=
  @Spells.token [] chars token tokens nofun ended spelled

theorem append {others : List QueryToken} {more : List Char} (first : Spells tokens chars)
    (second : Spells others more) : Spells (tokens ++ others) (chars ++ '\n' :: more) := by
  induction first with
  | blank blank =>
      have feed : Text.AllBlank ['\n'] := List.forall_mem_singleton.mpr (by decide)
      exact (second.blank_append feed).blank_append blank
  | @token gap rest token tokens blank ended _ ih =>
      rw [List.append_assoc, List.append_assoc]
      refine .token blank ?_ ih
      intro runsOn c next
      cases rest with
      | nil =>
          obtain rfl : '\n' = c := Option.some.inj next
          decide
      | cons d rest => exact ended runsOn c next

theorem eq_nil (spelled : Spells tokens []) (plain : ∀ token ∈ tokens, token.Plain) : tokens = [] := by
  rw [← spelled.lex_eq plain (Nat.le_refl 0)]
  rfl

end Spells

theorem dropComments_of_not_mem {chars : List Char} (absent : ';' ∉ chars) : dropComments false chars = chars := by
  induction chars with
  | nil => rfl
  | cons c rest ih =>
      obtain ⟨other, later⟩ := List.ne_and_not_mem_of_not_mem_cons absent
      rw [dropComments, if_neg, ih later]
      rw [beq_iff_eq]
      exact other.symm

theorem Spells.queryTokens_eq {tokens : List QueryToken} {text : String} (spelled : Spells tokens text.toList)
    (plain : ∀ token ∈ tokens, token.Plain) : queryTokens text = tokens := by
  rw [queryTokens, dropComments_of_not_mem (spelled.semicolon_not_mem plain)]
  exact spelled.lex_eq plain (Nat.le_refl _)

end Arborist.Sketch
