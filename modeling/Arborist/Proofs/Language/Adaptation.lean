import Mathlib.Data.List.Infix
import Arborist.Language.Template

/-!
Carrying a query over to another language and back.  A renaming changes only what stands right behind an
opening parenthesis, so a query is taken apart there and each piece is renamed by itself.  No rule of a table
meets what an earlier one has written, and therefore a piece is renamed at most once.
-/

namespace Arborist

variable {table : List (String × String)} {piece : List Char}

namespace Text

/-- A text parted at its opening parentheses: what stands before the first, and what follows each of them. -/
structure Opened where
  front : List Char
  pieces : List (List Char)
  front_plain : '(' ∉ front
  pieces_plain : ∀ piece ∈ pieces, '(' ∉ piece

def written (pieces : List (List Char)) : List Char := pieces.flatMap ('(' :: ·)

@[simp] theorem written_nil : written [] = [] := rfl

@[simp] theorem written_cons (piece : List Char) (others : List (List Char)) :
    written (piece :: others) = '(' :: (piece ++ written others) := rfl

namespace Opened

def text (opened : Opened) : List Char := opened.front ++ written opened.pieces

theorem exists_text_eq (text : List Char) : ∃ opened : Opened, opened.text = text := by
  induction text with
  | nil => exact ⟨⟨[], [], by simp, by simp⟩, rfl⟩
  | cons c rest ih =>
      obtain ⟨⟨front, pieces, frontPlain, piecesPlain⟩, rfl⟩ := ih
      by_cases opens : c = '('
      · subst opens
        refine ⟨⟨[], front :: pieces, by simp, ?_⟩, rfl⟩
        simpa [frontPlain] using piecesPlain
      · refine ⟨⟨c :: front, pieces, ?_, piecesPlain⟩, rfl⟩
        simpa [frontPlain] using Ne.symm opens

end Opened

theorem append_written_inj {front other : List Char} (frontPlain : '(' ∉ front) (otherPlain : '(' ∉ other)
    (pieces others : List (List Char)) :
    front ++ written pieces = other ++ written others ↔ front = other ∧ written pieces = written others := by
  induction front generalizing other with
  | nil =>
      cases other with
      | nil => simp
      | cons d more =>
          have notOpening : d ≠ '(' := fun same => otherPlain (by simp [same])
          cases pieces <;> simp [Ne.symm notOpening]
  | cons c rest ih =>
      have notOpening : c ≠ '(' := fun same => frontPlain (by simp [same])
      cases other with
      | nil => cases others <;> simp [notOpening]
      | cons d more =>
          have onRest := @ih more (fun member => frontPlain (List.mem_cons_of_mem c member))
            (fun member => otherPlain (List.mem_cons_of_mem d member))
          simp only [List.cons_append, List.cons.injEq, onRest, and_assoc]

theorem written_inj {pieces others : List (List Char)} (piecesPlain : ∀ piece ∈ pieces, '(' ∉ piece)
    (othersPlain : ∀ piece ∈ others, '(' ∉ piece) : written pieces = written others ↔ pieces = others := by
  induction pieces generalizing others with
  | nil => cases others <;> simp
  | cons piece rest ih =>
      cases others with
      | nil => simp
      | cons other more =>
          have onRest := @ih more (fun inner member => piecesPlain inner (List.mem_cons_of_mem piece member))
            (fun inner member => othersPlain inner (List.mem_cons_of_mem other member))
          have apart := append_written_inj (piecesPlain piece List.mem_cons_self)
            (othersPlain other List.mem_cons_self) rest more
          simp only [written_cons, List.cons.injEq, true_and, apart, onRest]

theorem isPrefix_append_written_iff {kind piece : List Char} (plain : '(' ∉ kind)
    (others : List (List Char)) : kind <+: piece ++ written others ↔ kind <+: piece := by
  constructor
  · intro starts
    rcases List.prefix_or_prefix_of_prefix starts (List.prefix_append piece _) with inside | longer
    · exact inside
    · obtain ⟨more, rfl⟩ := longer
      have later : more <+: written others := (List.prefix_append_right_inj piece).mp starts
      cases more with
      | nil => simp
      | cons c rest =>
          cases others with
          | nil => simp at later
          | cons other further =>
              obtain ⟨rfl, -⟩ := List.cons_prefix_cons.mp later
              exact absurd (by simp) plain
  · exact fun starts => starts.trans (List.prefix_append piece _)

theorem opening_infix_append_iff {kind front : List Char} (plain : '(' ∉ front) (rest : List Char) :
    '(' :: kind <:+: front ++ rest ↔ '(' :: kind <:+: rest := by
  induction front with
  | nil => simp
  | cons c others ih =>
      have notOpening : '(' ≠ c := fun same => plain (same ▸ List.mem_cons_self)
      have onOthers := ih fun member => plain (List.mem_cons_of_mem c member)
      rw [List.cons_append, List.infix_cons_iff, onOthers, List.cons_prefix_cons]
      simp [notOpening]

theorem opening_infix_written_iff {kind : List Char} (plain : '(' ∉ kind) {pieces : List (List Char)}
    (piecesPlain : ∀ piece ∈ pieces, '(' ∉ piece) :
    '(' :: kind <:+: written pieces ↔ ∃ piece ∈ pieces, kind <+: piece := by
  induction pieces with
  | nil => simp
  | cons piece others ih =>
      have onOthers := ih fun inner member => piecesPlain inner (List.mem_cons_of_mem piece member)
      rw [written_cons, List.infix_cons_iff, List.cons_prefix_cons, isPrefix_append_written_iff plain,
        opening_infix_append_iff (piecesPlain piece List.mem_cons_self), onOthers]
      simp

/-! Replacing behind parentheses. -/

def renameStart (kind renamed piece : List Char) : List Char :=
  if kind.isPrefixOf piece then renamed ++ piece.drop kind.length else piece

@[simp] theorem renameStart_append (kind renamed rest : List Char) :
    renameStart kind renamed (kind ++ rest) = renamed ++ rest := by
  simp [renameStart]

theorem renameStart_of_not_isPrefix {kind piece : List Char} (notHere : ¬ kind <+: piece)
    (renamed : List Char) : renameStart kind renamed piece = piece := by
  simp [renameStart, notHere]

theorem renameStart_plain {kind renamed piece : List Char} (renamedPlain : '(' ∉ renamed)
    (piecePlain : '(' ∉ piece) : '(' ∉ renameStart kind renamed piece := by
  unfold renameStart
  split
  · rw [List.mem_append]
    rintro (inName | inRest)
    · exact renamedPlain inName
    · exact piecePlain (List.mem_of_mem_drop inRest)
  · exact piecePlain

theorem replaceFrom_eq_replaceAll_drop (needle replacement : List Char) (skip : Nat) (text : List Char) :
    replaceFrom needle replacement skip text = replaceAll needle replacement (text.drop skip) := by
  induction skip generalizing text with
  | zero => rfl
  | succ skip ih =>
      cases text with
      | nil => rfl
      | cons c rest =>
          rw [replaceFrom, ih]
          rfl

theorem replaceAll_append_of_plain {front : List Char} (plain : '(' ∉ front)
    (kind replacement rest : List Char) :
    replaceAll ('(' :: kind) replacement (front ++ rest) =
      front ++ replaceAll ('(' :: kind) replacement rest := by
  induction front with
  | nil => rfl
  | cons c others ih =>
      have notOpening : ('(' == c) = false := by
        simpa using fun same : '(' = c => plain (same ▸ List.mem_cons_self)
      have onOthers := ih fun member => plain (List.mem_cons_of_mem c member)
      rw [List.cons_append, replaceAll, replaceFrom]
      simp only [List.isPrefixOf, notOpening, Bool.false_and, Bool.false_eq_true, if_false, List.cons_append]
      exact congrArg (c :: ·) onOthers

theorem replaceAll_opening (kind renamed rest : List Char) :
    replaceAll ('(' :: kind) ('(' :: renamed) ('(' :: rest) =
      '(' :: if kind.isPrefixOf rest then
          renamed ++ replaceAll ('(' :: kind) ('(' :: renamed) (rest.drop kind.length)
        else replaceAll ('(' :: kind) ('(' :: renamed) rest := by
  rw [replaceAll, replaceFrom]
  simp only [List.isPrefixOf, beq_self_eq_true, Bool.true_and]
  split
  · rw [replaceFrom_eq_replaceAll_drop]
    rfl
  · rfl

theorem replaceAll_written {kind : List Char} (plain : '(' ∉ kind) (renamed : List Char)
    {pieces : List (List Char)} (piecesPlain : ∀ piece ∈ pieces, '(' ∉ piece) :
    replaceAll ('(' :: kind) ('(' :: renamed) (written pieces) =
      written (pieces.map (renameStart kind renamed)) := by
  induction pieces with
  | nil => rfl
  | cons piece others ih =>
      have piecePlain := piecesPlain piece List.mem_cons_self
      have onOthers := ih fun inner member => piecesPlain inner (List.mem_cons_of_mem piece member)
      rw [written_cons, replaceAll_opening, List.map_cons, written_cons]
      congr 1
      by_cases starts : kind <+: piece
      · obtain ⟨rest, rfl⟩ := starts
        have restPlain : '(' ∉ rest := fun member => piecePlain (List.mem_append_right kind member)
        have here : kind.isPrefixOf (kind ++ rest ++ written others) = true := by simp
        rw [if_pos here, renameStart_append, List.append_assoc kind, List.drop_left,
          replaceAll_append_of_plain restPlain, onOthers, List.append_assoc]
      · have notHere : ¬ kind.isPrefixOf (piece ++ written others) = true := by
          rwa [List.isPrefixOf_iff_prefix, isPrefix_append_written_iff plain]
        rw [if_neg notHere, renameStart_of_not_isPrefix starts, replaceAll_append_of_plain piecePlain, onOthers]

end Text

/-! Tables of renamings. -/

/-- Neither of two names begins with the other, so no text begins with both. -/
def Apart (kind other : String) : Prop :=
  ¬ kind.toList <+: other.toList ∧ ¬ other.toList <+: kind.toList

instance (kind other : String) : Decidable (Apart kind other) :=
  inferInstanceAs (Decidable (¬ _ ∧ ¬ _))

theorem Apart.not_isPrefix {kind other : String} (apart : Apart kind other) (starts : kind.toList <+: piece) :
    ¬ other.toList <+: piece := by
  intro alsoStarts
  rcases List.prefix_or_prefix_of_prefix starts alsoStarts with inside | around
  · exact apart.1 inside
  · exact apart.2 around

/-- A table whose rules do not meet: a piece begins with at most one of the names, and where one has been
replaced, no later rule finds its name. -/
def Unmixed (table : List (String × String)) : Prop :=
  table.Pairwise fun rule later => Apart rule.1 later.1 ∧ Apart rule.2 later.1

instance (table : List (String × String)) : Decidable (Unmixed table) :=
  inferInstanceAs (Decidable (table.Pairwise _))

def renamePiece (table : List (String × String)) (piece : List Char) : List Char :=
  table.foldl (fun piece rule => Text.renameStart rule.1.toList rule.2.toList piece) piece

@[simp] theorem renamePiece_nil (piece : List Char) : renamePiece [] piece = piece := rfl

@[simp] theorem renamePiece_cons (rule : String × String) (table : List (String × String)) (piece : List Char) :
    renamePiece (rule :: table) piece =
      renamePiece table (Text.renameStart rule.1.toList rule.2.toList piece) := rfl

theorem renamePiece_of_absent (absent : ∀ rule ∈ table, ¬ rule.1.toList <+: piece) :
    renamePiece table piece = piece := by
  induction table with
  | nil => rfl
  | cons rule later ih =>
      rw [renamePiece_cons, Text.renameStart_of_not_isPrefix (absent rule List.mem_cons_self)]
      exact ih fun other member => absent other (List.mem_cons_of_mem rule member)

theorem renamePiece_of_mem (unmixed : Unmixed table) {rule : String × String} (member : rule ∈ table)
    (rest : List Char) :
    renamePiece table (rule.1.toList ++ rest) = rule.2.toList ++ rest := by
  induction table with
  | nil => cases member
  | cons first later ih =>
      obtain ⟨apart, unmixedLater⟩ := List.pairwise_cons.mp unmixed
      rw [renamePiece_cons]
      rcases List.mem_cons.mp member with rfl | among
      · rw [Text.renameStart_append]
        apply renamePiece_of_absent
        intro other inLater
        exact (apart other inLater).2.not_isPrefix (List.prefix_append _ rest)
      · have notFirst : ¬ first.1.toList <+: rule.1.toList ++ rest := by
          intro starts
          exact (apart rule among).1.not_isPrefix starts (List.prefix_append _ rest)
        rw [Text.renameStart_of_not_isPrefix notFirst]
        exact ih unmixedLater among

theorem renamePiece_plain (plain : ∀ rule ∈ table, '(' ∉ rule.2.toList) (piecePlain : '(' ∉ piece) :
    '(' ∉ renamePiece table piece := by
  induction table generalizing piece with
  | nil => exact piecePlain
  | cons rule later ih =>
      rw [renamePiece_cons]
      apply ih fun other member => plain other (List.mem_cons_of_mem rule member)
      exact Text.renameStart_plain (plain rule List.mem_cons_self) piecePlain

theorem replaceString_opened {kind renamed : String} (plain : '(' ∉ kind.toList) {front : List Char}
    (frontPlain : '(' ∉ front) {pieces : List (List Char)} (piecesPlain : ∀ piece ∈ pieces, '(' ∉ piece) :
    Text.replaceString ("(" ++ kind) ("(" ++ renamed) (String.ofList (front ++ Text.written pieces)) =
      String.ofList (front ++ Text.written (pieces.map (Text.renameStart kind.toList renamed.toList))) := by
  have letters : ∀ name : String, ("(" ++ name).toList = '(' :: name.toList := by simp
  rw [Text.replaceString, letters, letters, String.toList_ofList, Text.replaceAll_append_of_plain frontPlain,
    Text.replaceAll_written plain _ piecesPlain]

theorem foldl_replaceString_opened
    (plain : ∀ rule ∈ table, '(' ∉ rule.1.toList ∧ '(' ∉ rule.2.toList) {front : List Char} (frontPlain : '(' ∉ front)
    {pieces : List (List Char)} (piecesPlain : ∀ piece ∈ pieces, '(' ∉ piece) :
    table.foldl (fun query (kind, renamed) => Text.replaceString ("(" ++ kind) ("(" ++ renamed) query)
        (String.ofList (front ++ Text.written pieces)) =
      String.ofList (front ++ Text.written (pieces.map (renamePiece table))) := by
  induction table generalizing pieces with
  | nil =>
      have unchanged : renamePiece [] = id := rfl
      rw [unchanged, List.map_id]
      rfl
  | cons rule later ih =>
      obtain ⟨kind, renamed⟩ := rule
      obtain ⟨kindPlain, renamedPlain⟩ := plain (kind, renamed) List.mem_cons_self
      have renamedPieces : ∀ piece ∈ pieces.map (Text.renameStart kind.toList renamed.toList), '(' ∉ piece := by
        intro piece member
        obtain ⟨before, among, rfl⟩ := List.mem_map.mp member
        exact Text.renameStart_plain renamedPlain (piecesPlain before among)
      rw [List.foldl_cons]
      dsimp only
      rw [replaceString_opened kindPlain frontPlain piecesPlain,
        ih (fun other member => plain other (List.mem_cons_of_mem _ member)) renamedPieces, List.map_map]
      rfl

theorem kindRenamings_plain (source target : String) :
    ∀ rule ∈ kindRenamings source target, '(' ∉ rule.1.toList ∧ '(' ∉ rule.2.toList := by
  unfold kindRenamings
  split
  · decide
  · split
    · decide
    · simp

namespace Text.Opened

def adapted (opened : Opened) (source target : String) : Opened where
  front := opened.front
  pieces := opened.pieces.map (renamePiece (kindRenamings source target))
  front_plain := opened.front_plain
  pieces_plain := by
    intro piece member
    obtain ⟨before, among, rfl⟩ := List.mem_map.mp member
    exact renamePiece_plain (fun rule inTable => (kindRenamings_plain source target rule inTable).2)
      (opened.pieces_plain before among)

theorem text_eq_iff {opened other : Opened} :
    opened.text = other.text ↔ opened.front = other.front ∧ opened.pieces = other.pieces := by
  rw [text, text, append_written_inj opened.front_plain other.front_plain,
    written_inj opened.pieces_plain other.pieces_plain]

theorem opening_infix_text_iff (opened : Opened) {kind : List Char} (plain : '(' ∉ kind) :
    '(' :: kind <:+: opened.text ↔ ∃ piece ∈ opened.pieces, kind <+: piece := by
  rw [text, opening_infix_append_iff opened.front_plain, opening_infix_written_iff plain opened.pieces_plain]

end Text.Opened

theorem adaptQuery_text (opened : Text.Opened) (source target : String) :
    adaptQuery (String.ofList opened.text) source target =
      String.ofList (opened.adapted source target).text :=
  foldl_replaceString_opened (kindRenamings_plain source target) opened.front_plain opened.pieces_plain

/-! There and back. -/

theorem adaptQuery_twice_eq_iff (opened : Text.Opened) (source target : String) :
    adaptQuery (adaptQuery (String.ofList opened.text) source target) target source =
        String.ofList opened.text ↔
      ∀ piece ∈ opened.pieces,
        renamePiece (kindRenamings target source) (renamePiece (kindRenamings source target) piece) = piece := by
  have inPlace := @List.map_inj_left _ _ opened.pieces
    (renamePiece (kindRenamings target source) ∘ renamePiece (kindRenamings source target)) id
  rw [List.map_id, ← List.map_map] at inPlace
  rw [adaptQuery_text, adaptQuery_text, String.ofList_inj, Text.Opened.text_eq_iff]
  exact (and_iff_right rfl).trans inPlace

theorem unmixed_kindRenamings (source target : String) : Unmixed (kindRenamings source target) := by
  unfold kindRenamings
  split
  · decide
  · split
    · decide
    · exact List.Pairwise.nil

/-- The names that come back as others although nothing has been renamed to them. -/
def scriptKinds : List String :=
  ["function_declaration", "class_declaration", "statement_block", "formal_parameters", "arguments"]

theorem renamed_back {rule : String × String} (member : rule ∈ kindRenamings "python" "javascript")
    (rest : List Char) :
    renamePiece (kindRenamings "javascript" "python") (rule.2.toList ++ rest) = rule.1.toList ++ rest := by
  have paired : ∀ rule ∈ kindRenamings "python" "javascript",
      (rule.2, rule.1) ∈ kindRenamings "javascript" "python" ∨
        rule.2 = rule.1 ∧ ∀ other ∈ kindRenamings "javascript" "python", Apart rule.2 other.1 := by
    decide
  rcases paired rule member with swapped | ⟨same, apart⟩
  · exact renamePiece_of_mem (unmixed_kindRenamings _ _) swapped rest
  · rw [← same]
    apply renamePiece_of_absent
    intro other among
    exact (apart other among).not_isPrefix (List.prefix_append _ rest)

theorem renamePiece_twice_eq_iff (piece : List Char) :
    renamePiece (kindRenamings "javascript" "python") (renamePiece (kindRenamings "python" "javascript") piece) =
        piece ↔
      ∀ kind ∈ scriptKinds, ¬ kind.toList <+: piece := by
  by_cases named : ∃ rule ∈ kindRenamings "python" "javascript", rule.1.toList <+: piece
  · obtain ⟨rule, member, rest, rfl⟩ := named
    have apart : ∀ rule ∈ kindRenamings "python" "javascript", ∀ kind ∈ scriptKinds, Apart rule.1 kind := by
      decide
    rw [renamePiece_of_mem (unmixed_kindRenamings _ _) member, renamed_back member]
    refine iff_of_true rfl ?_
    intro kind among
    exact (apart rule member kind among).not_isPrefix (List.prefix_append _ rest)
  · have unnamed : ∀ rule ∈ kindRenamings "python" "javascript", ¬ rule.1.toList <+: piece :=
      fun rule member starts => named ⟨rule, member, starts⟩
    rw [renamePiece_of_absent unnamed]
    constructor
    · rintro unchanged kind among ⟨rest, rfl⟩
      have changes : ∀ kind ∈ scriptKinds, ∃ rule ∈ kindRenamings "javascript" "python",
          rule.1 = kind ∧ rule.2 ≠ kind := by
        decide
      obtain ⟨rule, member, rfl, other⟩ := changes kind among
      rw [renamePiece_of_mem (unmixed_kindRenamings _ _) member] at unchanged
      exact other (String.toList_inj.mp (List.append_cancel_right unchanged))
    · intro absent
      apply renamePiece_of_absent
      intro rule member starts
      -- the other names that are renamed back begin with one that would have been renamed before
      have covered : ∀ rule ∈ kindRenamings "javascript" "python", rule.1 ∈ scriptKinds ∨
          ∃ first ∈ kindRenamings "python" "javascript", first.1.toList <+: rule.1.toList := by
        decide
      rcases covered rule member with among | ⟨first, inTable, inside⟩
      · exact absent _ among starts
      · exact unnamed first inTable (inside.trans starts)

/-- A query comes back unchanged from the other language exactly if none of its opening parentheses is followed
by one of the other language's own names. -/
theorem adaptQuery_returns_iff (query : String) :
    adaptQuery (adaptQuery query "python" "javascript") "javascript" "python" = query ↔
      ∀ kind ∈ scriptKinds, ¬ ("(" ++ kind).toList <:+: query.toList := by
  obtain ⟨opened, parted⟩ := Text.Opened.exists_text_eq query.toList
  obtain rfl : query = String.ofList opened.text := by simp [parted]
  have plain : ∀ kind ∈ scriptKinds, '(' ∉ kind.toList := by decide
  have followed : ∀ kind ∈ scriptKinds,
      (("(" ++ kind).toList <:+: opened.text ↔ ∃ piece ∈ opened.pieces, kind.toList <+: piece) := by
    intro kind among
    have letters : ("(" ++ kind).toList = '(' :: kind.toList := by simp
    rw [letters, opened.opening_infix_text_iff (plain kind among)]
  rw [adaptQuery_twice_eq_iff, String.toList_ofList]
  simp only [renamePiece_twice_eq_iff]
  constructor
  · intro absent kind among inside
    obtain ⟨piece, member, starts⟩ := (followed kind among).mp inside
    exact absent piece member kind among starts
  · intro absent piece member kind among starts
    exact absent kind among ((followed kind among).mpr ⟨piece, member, starts⟩)

end Arborist
