import Mathlib
import Arborist.Proofs.Analysis.CaptureForms
import Arborist.Proofs.Analysis.Imports
import Arborist.Proofs.Analysis.Recorded
import Arborist.Proofs.Text.Words

/-!
The modules that a captured import statement names.  A statement that begins with the word from gives its
module.  One that begins with the word import gives the names in it, unless from occurs within one of them or
within one of their other names: then the text after it is taken for the only module.
-/

namespace Arborist

open Grouping
open Text (AllBlank IsGap IsWord Solid Trimmed beforeFirst cutAt? isBlank narrowed piecesFrom spaced strip words)

namespace Analysis

open Service (Parsed)

/-! Statements. -/

@[ext]
structure PlainName where
  chars : List Char
  isWord : IsWord chars
  commaless : ',' ∉ chars

def PlainName.text (name : PlainName) : String := String.ofList name.chars

/-- What a statement imports: a module, and the other name that it is given. -/
structure ImportItem where
  name : PlainName
  other : Option PlainName

inductive ImportItem.Written : ImportItem → List Char → Prop
  | alone (name : PlainName) : Written ⟨name, none⟩ name.chars
  | renamed (name other : PlainName) {left right : List Char} (leftGap : IsGap left) (rightGap : IsGap right) :
      Written ⟨name, some other⟩ (name.chars ++ (left ++ "as".toList ++ right) ++ other.chars)

inductive WrittenItems : List ImportItem → List Char → Prop
  | last {item : ImportItem} {text : List Char} (written : item.Written text) : WrittenItems [item] text
  | more {item : ImportItem} {text left right : List Char} {others : List ImportItem} {rest : List Char}
      (written : item.Written text) (leftBlank : AllBlank left) (rightBlank : AllBlank right)
      (later : WrittenItems others rest) :
      WrittenItems (item :: others) (text ++ (left ++ [','] ++ right) ++ rest)

/-- The word import, and items with commas between them. -/
inductive ImportStatement (items : List ImportItem) : List Char → Prop
  | mk {gap body : List Char} (isGap : IsGap gap) (written : WrittenItems items body) :
      ImportStatement items ("import".toList ++ gap ++ body)

/-- The word from, a module, the word import, and anything. -/
inductive FromStatement (module : PlainName) : List Char → Prop
  | mk {left right : List Char} (leftGap : IsGap left) (rightGap : IsGap right) (rest : List Char) :
      FromStatement module ("from".toList ++ left ++ module.chars ++ right ++ ("import".toList ++ rest))

/-! Spelling with single blanks. -/

def ImportItem.spelled (item : ImportItem) : List Char :=
  match item.other with
  | none => item.name.chars
  | some other => item.name.chars ++ [' '] ++ "as".toList ++ [' '] ++ other.chars

theorem isWord_as : IsWord "as".toList := ⟨by decide, by simp [isBlank]⟩

theorem isWord_comma : IsWord [','] := ⟨by decide, by simp [isBlank]⟩

theorem isWord_from : IsWord "from".toList := ⟨by decide, by simp [isBlank]⟩

theorem isWord_import : IsWord "import".toList := ⟨by decide, by simp [isBlank]⟩

theorem ImportItem.Written.solid {item : ImportItem} {text : List Char} (written : item.Written text) :
    Solid text := by
  cases written with
  | alone name => exact name.isWord.toSolid
  | renamed name other _ _ => exact name.isWord.toSolid.append other.isWord.toSolid _

theorem ImportItem.Written.spaced_eq {item : ImportItem} {text : List Char} (written : item.Written text) :
    spaced text = item.spelled := by
  cases written with
  | alone name => exact Text.spaced_of_isWord name.isWord
  | @renamed name other left right leftGap rightGap =>
      have first := name.isWord.toSolid
      have regrouped : name.chars ++ (left ++ "as".toList ++ right) ++ other.chars =
          name.chars ++ left ++ "as".toList ++ right ++ other.chars := by simp
      rw [regrouped, (first.append isWord_as.toSolid left).spaced_append other.isWord.toSolid rightGap.blank,
        first.spaced_append isWord_as.toSolid leftGap.blank, Text.spaced_of_isWord name.isWord,
        Text.spaced_of_isWord isWord_as, Text.spaced_of_isWord other.isWord, leftGap.narrowed_eq,
        rightGap.narrowed_eq]
      rfl

theorem WrittenItems.solid {items : List ImportItem} {body : List Char} (written : WrittenItems items body) :
    Solid body := by
  induction written with
  | last written => exact written.solid
  | more written _ _ _ ih => exact written.solid.append ih _

theorem ImportItem.solid_spelled (item : ImportItem) : Solid item.spelled := by
  obtain ⟨name, other⟩ := item
  cases other with
  | none => exact name.isWord.toSolid
  | some other =>
      have parts := (name.isWord.toSolid.append isWord_as.toSolid [' ']).append other.isWord.toSolid [' ']
      exact parts

theorem ImportItem.comma_not_mem_spelled (item : ImportItem) : ',' ∉ item.spelled := by
  obtain ⟨name, other⟩ := item
  cases other with
  | none => exact name.commaless
  | some other => simp [spelled, name.commaless, other.commaless]

theorem ImportItem.strip_beforeWord_spelled (item : ImportItem) :
    strip (beforeWord " as ".toList item.spelled) = item.name.chars := by
  obtain ⟨name, other⟩ := item
  have solid : ∀ c ∈ name.chars, " as ".toList.head? ≠ some c := by
    intro c member first
    cases first
    cases name.isWord.solid ' ' member
  have before : beforeFirst " as ".toList (ImportItem.spelled ⟨name, other⟩) = name.chars := by
    cases other with
    | none =>
        refine Text.beforeFirst_of_absent fun inside => ?_
        exact solid ' ' (inside.subset (by decide)) rfl
    | some other =>
        have starts : " as ".toList <+: ' ' :: ("as ".toList ++ other.chars) := ⟨other.chars, rfl⟩
        have cut := Text.cutAt?_skip (by decide) solid (' ' :: ("as ".toList ++ other.chars))
        rw [Text.cutAt?_cons_of_starts starts] at cut
        have spelled_eq : ImportItem.spelled ⟨name, some other⟩ =
            name.chars ++ ' ' :: ("as ".toList ++ other.chars) := by
          simp [spelled]
        rw [spelled_eq, Text.beforeFirst_of_cutAt? cut]
        exact List.append_nil name.chars
  rw [beforeWord, before, name.isWord.toSolid.strip_eq]

theorem WrittenItems.map_strip_piecesFrom {items : List ImportItem} {body : List Char}
    (written : WrittenItems items body) :
    (piecesFrom [','] 0 (spaced body)).map strip = items.map ImportItem.spelled := by
  induction written with
  | @last item text written =>
      rw [written.spaced_eq, Text.piecesFrom_of_not_mem item.comma_not_mem_spelled, List.map_singleton,
        item.solid_spelled.strip_eq, List.map_singleton]
  | @more item text left right others rest written leftBlank rightBlank later ih =>
      have regrouped : text ++ (left ++ [','] ++ right) ++ rest = text ++ left ++ [','] ++ right ++ rest := by simp
      have joined : spaced (text ++ left ++ [','] ++ right ++ rest) =
          item.spelled ++ narrowed left ++ ',' :: (narrowed right ++ spaced rest) := by
        rw [(written.solid.append isWord_comma.toSolid left).spaced_append later.solid rightBlank,
          written.solid.spaced_append isWord_comma.toSolid leftBlank, written.spaced_eq,
          Text.spaced_of_isWord isWord_comma]
        simp
      have absent : ',' ∉ item.spelled ++ narrowed left := by
        rw [List.mem_append, not_or]
        refine ⟨item.comma_not_mem_spelled, fun member => ?_⟩
        cases Text.narrowed_blank left ',' member
      have stripped : strip (item.spelled ++ narrowed left) = item.spelled :=
        Text.strip_eq_iff.mpr ⟨item.solid_spelled.toTrimmed, [], narrowed left, rfl, nofun, Text.narrowed_blank left⟩
      rw [regrouped, joined, Text.piecesFrom_append absent, List.map_cons, stripped,
        Text.map_strip_piecesFrom_narrowed rfl, ih, List.map_cons]

/-! The word from. -/

/-- Neither the name nor the other name has from in it. -/
def ImportItem.Clear (item : ImportItem) : Prop :=
  ¬ "from".toList <:+: item.name.chars ∧ ∀ other ∈ item.other, ¬ "from".toList <:+: other.chars

section

variable {needle : List Char} (keyword : needle = "from".toList ∨ needle = "import".toList)

include keyword

theorem isWord_keyword : IsWord needle := by
  rcases keyword with rfl | rfl
  · exact isWord_from
  · exact isWord_import

theorem not_mem_keyword {c : Char} (joint : isBlank c = true ∨ c ∈ ",as".toList) : c ∉ needle := by
  intro member
  rcases joint with blank | listed
  · rw [(isWord_keyword keyword).solid c member] at blank
    cases blank
  · have other : ∀ d ∈ ",as".toList, d ∉ "from".toList ∧ d ∉ "import".toList := by simp
    rcases keyword with rfl | rfl
    · exact (other c listed).1 member
    · exact (other c listed).2 member

variable {left right : List Char}

theorem apart_of_as (leftGap : IsGap left) (rightGap : IsGap right) :
    ∀ c ∈ left ++ "as".toList ++ right, c ∉ needle := by
  intro c member
  rw [List.mem_append, List.mem_append] at member
  rcases member with (onLeft | isAs) | onRight
  · exact not_mem_keyword keyword (.inl (leftGap.blank c onLeft))
  · exact not_mem_keyword keyword (.inr (List.mem_cons_of_mem ',' isAs))
  · exact not_mem_keyword keyword (.inl (rightGap.blank c onRight))

theorem apart_of_comma (leftBlank : AllBlank left) (rightBlank : AllBlank right) :
    ∀ c ∈ left ++ [','] ++ right, c ∉ needle := by
  intro c member
  rw [List.mem_append, List.mem_append] at member
  rcases member with (onLeft | isComma) | onRight
  · exact not_mem_keyword keyword (.inl (leftBlank c onLeft))
  · rw [List.mem_singleton.mp isComma]
    exact not_mem_keyword keyword (.inr (by decide))
  · exact not_mem_keyword keyword (.inl (rightBlank c onRight))

end

theorem ImportItem.Written.infix_from_iff {item : ImportItem} {text : List Char} (written : item.Written text) :
    "from".toList <:+: text ↔ ¬ item.Clear := by
  cases written with
  | alone name => simp [Clear]
  | renamed name other leftGap rightGap =>
      rw [Text.infix_across_iff (isWord_from.nonempty) (by simp) (apart_of_as (.inl rfl) leftGap rightGap), Clear,
        not_and_or]
      simp

theorem WrittenItems.infix_from_iff {items : List ImportItem} {body : List Char} (written : WrittenItems items body) :
    "from".toList <:+: body ↔ ∃ item ∈ items, ¬ item.Clear := by
  induction written with
  | last written =>
      rw [written.infix_from_iff]
      simp
  | more written leftBlank rightBlank _ ih =>
      rw [Text.infix_across_iff (isWord_from.nonempty) (by simp) (apart_of_comma (.inl rfl) leftBlank rightBlank),
        ih, written.infix_from_iff]
      simp

/-! What is read. -/

theorem statementModules_of_import {text : List Char} {others : List (List Char)}
    (parts : words text = "import".toList :: others) :
    statementModules text = statementModules.statementRest text ("import".toList :: others) := by
  unfold statementModules
  rw [parts]
  cases others with
  | nil => rfl
  | cons second more => exact if_neg (by decide)

section

variable {items : List ImportItem} {gap body : List Char} (isGap : IsGap gap) (written : WrittenItems items body)

include isGap

theorem words_import_append : words ("import".toList ++ gap ++ body) = "import".toList :: words body := by
  rw [Text.words_append isGap, Text.words_of_isWord isWord_import, List.singleton_append]

theorem cutAt?_from_import_append : cutAt? "from".toList ("import".toList ++ gap ++ body) =
    (cutAt? "from".toList body).map fun (before, after) => ("import".toList ++ gap ++ before, after) :=
  Text.cutAt?_across isWord_from.nonempty (by decide) isGap.nonempty
    (fun c member => not_mem_keyword (.inl rfl) (.inl (isGap.blank c member))) body

include written

theorem statementModules_of_clear (clear : ∀ item ∈ items, item.Clear) :
    statementModules ("import".toList ++ gap ++ body) = items.map fun item => item.name.text := by
  have absent : cutAt? "from".toList body = none := by
    rw [Text.cutAt?_eq_none_iff, written.infix_from_iff]
    rintro ⟨item, member, unclear⟩
    exact unclear (clear item member)
  have joined : (" ".intercalate ((words body).map String.ofList)).toList = spaced body := by
    rw [String.toList_intercalate, List.map_map, spaced]
    simp
  rw [statementModules_of_import (words_import_append isGap), statementModules.statementRest,
    cutAt?_from_import_append isGap, absent]
  dsimp only [Option.map_none]
  rw [if_pos (by decide), Text.pieces, joined, List.map_map]
  have read : ∀ item : ImportItem, String.ofList (strip (beforeWord " as ".toList item.spelled)) = item.name.text :=
    fun item => congrArg String.ofList item.strip_beforeWord_spelled
  calc (piecesFrom ",".toList 0 (spaced body)).map
        ((fun item => String.ofList (strip (beforeWord " as ".toList (strip item.toList)))) ∘ String.ofList)
      = ((piecesFrom [','] 0 (spaced body)).map strip).map fun item =>
          String.ofList (strip (beforeWord " as ".toList item)) := by
        rw [List.map_map]
        exact List.map_congr_left fun piece _ => by simp
    _ = items.map fun item => item.name.text := by
        rw [written.map_strip_piecesFrom, List.map_map]
        exact List.map_congr_left fun item _ => read item

omit written in
theorem statementModules_of_from {before after : List Char} (cut : cutAt? "from".toList body = some (before, after)) :
    statementModules ("import".toList ++ gap ++ body) =
      [String.ofList (strip (beforeFirst "import".toList after))] := by
  rw [statementModules_of_import (words_import_append isGap), statementModules.statementRest,
    cutAt?_from_import_append isGap, cut]
  rfl

end

theorem FromStatement.statementModules_eq {module : PlainName} {text : List Char}
    (statement : FromStatement module text) : statementModules text = [module.text] := by
  cases statement with
  | @mk left right leftGap rightGap rest =>
      have parts := Text.words_append rightGap ("from".toList ++ left ++ module.chars) ("import".toList ++ rest)
      rw [Text.words_append leftGap, Text.words_of_isWord isWord_from, Text.words_of_isWord module.isWord] at parts
      unfold statementModules
      rw [parts]
      exact if_pos (by decide)

/-! Names that are read by chance. -/

inductive Follows : List ImportItem → List Char → Prop
  | nothing : Follows [] []
  | comma {others : List ImportItem} {left right : List Char} (more : others ≠ []) (leftBlank : AllBlank left)
      (rightBlank : AllBlank right) (rest : List Char) : Follows others (left ++ [','] ++ right ++ rest)

/-- The name is what stands after from in the other name, up to import or to the end. -/
def ImportItem.Found (item : ImportItem) (others : List ImportItem) : Prop :=
  ¬ "from".toList <:+: item.name.chars ∧
    ∃ other ∈ item.other, ∃ before after, cutAt? "from".toList other.chars = some (before, after) ∧
      item.name.chars = beforeFirst "import".toList after ∧ ("import".toList <:+: after ∨ others = [])

/-- The first item that is not clear is found by its other name. -/
inductive FoundAmong : List ImportItem → Prop
  | here {item : ImportItem} {others : List ImportItem} (found : item.Found others) : FoundAmong (item :: others)
  | later {item : ImportItem} {others : List ImportItem} (clear : item.Clear) (found : FoundAmong others) :
      FoundAmong (item :: others)

theorem ImportItem.Found.not_clear {item : ImportItem} {others : List ImportItem} (found : item.Found others) :
    ¬ item.Clear := by
  obtain ⟨-, other, renamed, before, after, cut, -⟩ := found
  rintro ⟨-, absent⟩
  exact absent other renamed ⟨before, after, (Text.eq_of_cutAt? cut).symm⟩

theorem foundAmong_cons_iff {item : ImportItem} {others : List ImportItem} :
    FoundAmong (item :: others) ↔ item.Found others ∨ item.Clear ∧ FoundAmong others := by
  constructor
  · rintro (found | ⟨clear, found⟩)
    · exact .inl found
    · exact .inr ⟨clear, found⟩
  · rintro (found | ⟨clear, found⟩)
    · exact .here found
    · exact .later clear found

theorem comma_not_mem_of_strip {text : List Char} {module : PlainName} (stripped : strip text = module.chars) :
    ',' ∉ text := by
  obtain ⟨front, back, parts, blankFront, blankBack⟩ := Text.exists_strip text
  rw [parts, stripped, List.mem_append, List.mem_append]
  rintro ((inFront | inside) | inBack)
  · cases blankFront ',' inFront
  · exact module.commaless inside
  · cases blankBack ',' inBack

theorem strip_beforeFirst_eq_iff {name : PlainName} {back : List Char} (part : back ⊆ name.chars)
    {others : List ImportItem} {tail : List Char} (follows : Follows others tail) (module : PlainName) :
    strip (beforeFirst "import".toList (back ++ tail)) = module.chars ↔
      module.chars = beforeFirst "import".toList back ∧ ("import".toList <:+: back ∨ others = []) := by
  have whole : strip (beforeFirst "import".toList back) = beforeFirst "import".toList back := by
    have solid : ∀ c ∈ beforeFirst "import".toList back, isBlank c = false := fun c member =>
      name.isWord.solid c (part ((Text.beforeFirst_isPrefix "import".toList back).subset member))
    exact Trimmed.strip_eq ⟨fun c first => solid c (List.mem_of_head? first),
      fun c final => solid c (List.mem_of_getLast? final)⟩
  by_cases inside : "import".toList <:+: back
  · rw [Text.beforeFirst_append inside, whole, eq_comm]
    simp only [inside, true_or, and_true]
  · cases follows with
    | nothing =>
        rw [List.append_nil, whole, eq_comm]
        simp only [or_true, and_true]
    | comma more leftBlank rightBlank rest =>
        refine iff_of_false (fun stripped => ?_) fun ⟨_, rejected⟩ => rejected.elim inside more
        rw [← List.append_assoc, Text.beforeFirst_across isWord_import.nonempty inside (by simp)
          (apart_of_comma (.inr rfl) leftBlank rightBlank)] at stripped
        exact comma_not_mem_of_strip stripped (by simp)

theorem not_infix_of_cutAt? {name before after : List Char} (cut : cutAt? "from".toList name = some (before, after)) :
    ¬ name <:+: after := by
  intro inside
  have longer := congrArg List.length (Text.eq_of_cutAt? cut)
  have shorter := inside.length_le
  rw [List.length_append, List.length_append] at longer
  have four : "from".toList.length = 4 := rfl
  omega

theorem strip_beforeFirst_ne_name {name : PlainName} {before after : List Char}
    (cut : cutAt? "from".toList name.chars = some (before, after)) {left right : List Char} (leftGap : IsGap left)
    (rightGap : IsGap right) (rest : List Char) :
    strip (beforeFirst "import".toList (after ++ (left ++ "as".toList ++ right) ++ rest)) ≠ name.chars := by
  intro stripped
  by_cases inside : "import".toList <:+: after
  · rw [List.append_assoc, Text.beforeFirst_append inside] at stripped
    refine not_infix_of_cutAt? cut ?_
    rw [← stripped]
    exact (Text.strip_infix_self _).trans (Text.beforeFirst_isPrefix _ after).isInfix
  · rw [Text.beforeFirst_across isWord_import.nonempty inside (by simp) (apart_of_as (.inr rfl) leftGap rightGap)]
      at stripped
    have parts := Text.words_strip
      (after ++ (left ++ "as".toList ++ right) ++ beforeFirst "import".toList rest)
    have regrouped : after ++ (left ++ "as".toList ++ right) ++ beforeFirst "import".toList rest =
        after ++ left ++ "as".toList ++ right ++ beforeFirst "import".toList rest := by simp
    rw [stripped, Text.words_of_isWord name.isWord, regrouped, Text.words_append rightGap, Text.words_append leftGap,
      Text.words_of_isWord isWord_as] at parts
    have isName : "as".toList ∈ [name.chars] := by
      rw [parts]
      simp
    have inName : "from".toList <:+: name.chars := ⟨before, after, (Text.eq_of_cutAt? cut).symm⟩
    rw [← List.mem_singleton.mp isName] at inName
    exact absurd inName (by decide)

theorem ImportItem.Written.found_iff {item : ImportItem} {text : List Char} (written : item.Written text)
    (unclear : ¬ item.Clear) {others : List ImportItem} {tail : List Char} (follows : Follows others tail) :
    ∃ before after, cutAt? "from".toList text = some (before, after) ∧
      (strip (beforeFirst "import".toList (after ++ tail)) = item.name.chars ↔ item.Found others) := by
  cases written with
  | alone name =>
      have inName : "from".toList <:+: name.chars := by
        by_contra absent
        exact unclear ⟨absent, nofun⟩
      obtain ⟨before, after, cut⟩ := Text.exists_cutAt? inName
      refine ⟨before, after, cut, iff_of_false (fun stripped => ?_) fun found => found.1 inName⟩
      have isPrefix := ((strip_beforeFirst_eq_iff (Text.subset_of_cutAt? cut) follows name).mp stripped).1
      refine not_infix_of_cutAt? cut ?_
      rw [isPrefix]
      exact (Text.beforeFirst_isPrefix _ after).isInfix
  | @renamed name other left right leftGap rightGap =>
      by_cases inName : "from".toList <:+: name.chars
      · obtain ⟨before, after, cut⟩ := Text.exists_cutAt? inName
        have longer := Text.cutAt?_append cut (left ++ "as".toList ++ right ++ other.chars)
        rw [← List.append_assoc] at longer
        refine ⟨before, _, longer, iff_of_false (fun stripped => ?_) fun found => found.1 inName⟩
        rw [← List.append_assoc, List.append_assoc] at stripped
        exact strip_beforeFirst_ne_name cut leftGap rightGap (other.chars ++ tail) stripped
      · have inOther : "from".toList <:+: other.chars := by
          by_contra absent
          exact unclear ⟨inName, fun _ same => Option.some.inj same ▸ absent⟩
        obtain ⟨before, after, cut⟩ := Text.exists_cutAt? inOther
        have across := Text.cutAt?_across isWord_from.nonempty inName (by simp)
          (apart_of_as (.inl rfl) leftGap rightGap) other.chars
        rw [cut] at across
        refine ⟨_, after, across, ?_⟩
        rw [strip_beforeFirst_eq_iff (Text.subset_of_cutAt? cut) follows name]
        constructor
        · exact fun found => ⟨inName, other, rfl, before, after, cut, found⟩
        · rintro ⟨-, _, ⟨⟩, _, _, recut, found⟩
          cases cut.symm.trans recut
          exact found

theorem WrittenItems.ne_nil {items : List ImportItem} {body : List Char} (written : WrittenItems items body) :
    items ≠ [] := by
  cases written with
  | last written => exact List.cons_ne_nil _ _
  | more written leftBlank rightBlank later => exact List.cons_ne_nil _ _

theorem WrittenItems.found_iff {items : List ImportItem} {body : List Char} (written : WrittenItems items body)
    {module : PlainName} (same : ∀ item ∈ items, item.name = module) {before after : List Char}
    (cut : cutAt? "from".toList body = some (before, after)) :
    strip (beforeFirst "import".toList after) = module.chars ↔ FoundAmong items := by
  -- up to the first item that is not clear, where the two sides are settled
  induction written generalizing before with
  | @last item text written =>
      have unclear := written.infix_from_iff.mp ⟨before, after, (Text.eq_of_cutAt? cut).symm⟩
      obtain ⟨_, _, here, found⟩ := written.found_iff unclear .nothing
      cases cut.symm.trans here
      rw [← same item List.mem_cons_self, foundAmong_cons_iff]
      rw [List.append_nil] at found
      simp only [found, unclear, false_and, or_false]
  | @more item text left right others rest written leftBlank rightBlank later ih =>
      rw [foundAmong_cons_iff]
      by_cases clear : item.Clear
      · have absent : ¬ "from".toList <:+: text := fun inside => written.infix_from_iff.mp inside clear
        have notFound : ¬ item.Found others := fun found => found.not_clear clear
        rw [Text.cutAt?_across isWord_from.nonempty absent (by simp)
          (apart_of_comma (.inl rfl) leftBlank rightBlank)] at cut
        obtain ⟨⟨front, back⟩, found, parts⟩ := Option.map_eq_some_iff.mp cut
        cases parts
        have onOthers := ih (fun other member => same other (List.mem_cons_of_mem item member)) found
        simp only [onOthers, notFound, clear, false_or, true_and]
      · obtain ⟨_, _, here, found⟩ := written.found_iff clear (.comma later.ne_nil leftBlank rightBlank rest)
        have longer := Text.cutAt?_append here (left ++ [','] ++ right ++ rest)
        rw [← List.append_assoc] at longer
        cases cut.symm.trans longer
        rw [← same item List.mem_cons_self]
        simp only [found, clear, false_and, or_false]

/-- The names are read as they stand if and only if from occurs in none of them and in no other name, or they are
one name and the other name in which it first occurs leads to that name too. -/
theorem ImportStatement.mem_statementModules_iff {items : List ImportItem} {text : List Char}
    (statement : ImportStatement items text) :
    (∀ name, name ∈ statementModules text ↔ ∃ item ∈ items, name = item.name.text) ↔
      (∀ item ∈ items, item.Clear) ∨ (∃ module, ∀ item ∈ items, item.name = module) ∧ FoundAmong items := by
  obtain ⟨isGap, written⟩ := statement
  by_cases clear : ∀ item ∈ items, item.Clear
  · refine iff_of_true (fun name => ?_) (.inl clear)
    rw [statementModules_of_clear isGap written clear, List.mem_map]
    simp only [eq_comm]
  · have unclear : ∃ item ∈ items, ¬ item.Clear := by
      push Not at clear
      exact clear
    obtain ⟨before, after, cut⟩ := Text.exists_cutAt? (written.infix_from_iff.mpr unclear)
    obtain ⟨first, isFirst⟩ := List.exists_mem_of_ne_nil items written.ne_nil
    rw [statementModules_of_from isGap cut, or_iff_right clear]
    simp only [List.mem_singleton]
    constructor
    · intro told
      have read : ∀ item ∈ items, item.name.chars = strip (beforeFirst "import".toList after) := fun item member =>
        String.ofList_injective ((told item.name.text).mpr ⟨item, member, rfl⟩)
      have same : ∀ item ∈ items, item.name = first.name := fun item member =>
        PlainName.ext ((read item member).trans (read first isFirst).symm)
      exact ⟨⟨first.name, same⟩, (written.found_iff same cut).mp (read first isFirst).symm⟩
    · rintro ⟨⟨module, same⟩, found⟩ name
      rw [(written.found_iff same cut).mpr found]
      constructor
      · exact fun isModule => ⟨first, isFirst, isModule.trans (congrArg PlainName.text (same first isFirst)).symm⟩
      · rintro ⟨item, member, rfl⟩
        exact congrArg PlainName.text (same item member)

example : statementModules "import a as xfroma".toList = ["a"] := by decide +kernel

/-! Files. -/

/-- The modules that captures tell. -/
def toldModules (root : Node) (source : ByteArray) (captured : List (Option Node × String)) : List String :=
  importTexts source captured "module" ++ captured.flatMap (namedModules root source)

section

variable {root : Node} {source : ByteArray} {capture : String}

theorem mem_toldModules_insert {before after : List (Option Node × String)} {node : Option Node}
    (other : importCategory capture ≠ "module") (name : String) :
    name ∈ toldModules root source (before ++ (node, capture) :: after) ↔
      name ∈ toldModules root source (before ++ after) ∨ name ∈ namedModules root source (node, capture) := by
  have noText : importText? source "module" (node, capture) = none := if_neg other
  simp only [toldModules, importTexts, List.filterMap_append, List.filterMap_cons_none noText, List.flatMap_append,
    List.flatMap_cons, List.mem_append]
  tauto

theorem namedModules_of_import {node : Node} (plain : importCategory capture = "import")
    (mentions : "import".toList <:+: (node.text source).toList) :
    namedModules root source (some node, capture) = statementModules (node.text source).toList := by
  have occurs : Text.stringOccursIn "import" (node.text source) = true := Text.occursIn_iff_infix.mpr mentions
  simp [namedModules, capturedModules, plain, occurs]

end

theorem ImportStatement.infix_import {items : List ImportItem} {text : List Char}
    (statement : ImportStatement items text) : "import".toList <:+: text := by
  cases statement with
  | @mk gap body isGap written => exact ⟨[], gap ++ body, by simp only [List.nil_append, List.append_assoc]⟩

theorem FromStatement.infix_import {module : PlainName} {text : List Char} (statement : FromStatement module text) :
    "import".toList <:+: text := by
  cases statement with
  | @mk left right leftGap rightGap rest =>
      exact ⟨"from".toList ++ left ++ module.chars ++ right, rest, by simp only [List.append_assoc]⟩

section

variable {service : Service} {project : Project} {file language query : String} {parsed : Parsed}
  {captures aliases : Captures}

def languageAliases (language : String) (parsed : Parsed) (aliases : Captures) : List String :=
  if language = "python" then aliasedModules parsed.tree.root parsed.source aliases else []

theorem exists_findDependencies (opens : service.Opens project file language parsed)
    (listed : template? language "imports" = some query)
    (captured : service.engine.capture query parsed.tree = .ok captures)
    (askedAliases : language = "python" → service.engine.capture aliasQuery parsed.tree = .ok aliases) :
    ∃ answer, ((findDependencies project file).run service).1 = .ok answer ∧
      ∀ name, name ∈ under answer "module" ↔
        name ∈ toldModules parsed.tree.root parsed.source captures.told ∨
          name ∈ languageAliases language parsed aliases := by
  have tells := tells_importsIn parsed.tree.root parsed.source captures
  have asked := (asks_askImports language query parsed service).1
  dsimp only at asked
  rw [captured, Outcome.ok_bind] at asked
  by_cases python : language = "python"
  · rw [if_pos (beq_iff_eq.mpr python), askedAliases python, Outcome.ok_bind] at asked
    refine ⟨_, findDependencies_eq_ok opens listed asked, fun name => ?_⟩
    rw [(tells.addModules _).modules_eq, mem_sortedTexts, importsAmong_snd, languageAliases, if_pos python]
    simp only [toldModules, importModules, List.mem_append]
    tauto
  · rw [if_neg (mt beq_iff_eq.mp python)] at asked
    refine ⟨_, findDependencies_eq_ok opens listed asked, fun name => ?_⟩
    rw [tells.modules_eq, mem_sortedTexts, languageAliases, if_neg python]
    simp only [toldModules, importModules, List.not_mem_nil, or_false]

/-- What is captured as an import adds modules to those that are told elsewhere.  A statement that begins with
from adds its module.  One that begins with import adds the names in it if and only if from occurs in none of them
and in no other name, or, by chance, they are one name and the text after from is that name. -/
theorem import_statement_read_iff (opens : service.Opens project file language parsed)
    (listed : template? language "imports" = some query)
    (captured : service.engine.capture query parsed.tree = .ok captures)
    (askedAliases : language = "python" → service.engine.capture aliasQuery parsed.tree = .ok aliases)
    {before after : List (Option Node × String)} {node : Node} {capture : String}
    (told : captures.told = before ++ (some node, capture) :: after) (plain : importCategory capture = "import") :
    let text := (node.text parsed.source).toList
    let added := namedModules parsed.tree.root parsed.source (some node, capture)
    ∃ answer, ((findDependencies project file).run service).1 = .ok answer ∧
      (∀ name, name ∈ under answer "module" ↔
        name ∈ toldModules parsed.tree.root parsed.source (before ++ after) ∨
          name ∈ languageAliases language parsed aliases ∨ name ∈ added) ∧
      (∀ items, ImportStatement items text →
        ((∀ name, name ∈ added ↔ ∃ item ∈ items, name = item.name.text) ↔
          (∀ item ∈ items, item.Clear) ∨ (∃ module, ∀ item ∈ items, item.name = module) ∧ FoundAmong items)) ∧
      ∀ module, FromStatement module text → added = [module.text] := by
  intro text added
  obtain ⟨answer, answered, modules⟩ := exists_findDependencies opens listed captured askedAliases
  have other : importCategory capture ≠ "module" := by
    rw [plain]
    decide
  refine ⟨answer, answered, fun name => ?_, fun items statement => ?_, fun module statement => ?_⟩
  · rw [modules, told, mem_toldModules_insert other]
    tauto
  · rw [← statement.mem_statementModules_iff, ← namedModules_of_import plain statement.infix_import]
  · exact (namedModules_of_import plain statement.infix_import).trans statement.statementModules_eq

end

/-! A name that begins with from. -/

namespace Fromage

open Service (shelfProject shelfService)

def moduleName : Node := .mk ⟨2, "dotted_name", 7, 14, ⟨0, 7⟩, ⟨0, 14⟩, true, some "name"⟩ []

def statement : Node := .mk ⟨1, "import_statement", 0, 14, ⟨0, 0⟩, ⟨0, 14⟩, true, none⟩ [moduleName]

def record : TreeRecord where
  source := "import fromage\n".toUTF8
  root := .mk ⟨0, "module", 0, 15, ⟨0, 0⟩, ⟨1, 0⟩, true, none⟩ [statement]
  captures := [(queryKey (templateOr "python" "imports"),
    .ofPairs [(statement, "import"), (moduleName, "import.module")])]

def parsed : Parsed := ⟨⟨0, some 0, record.root⟩, record.source⟩

def fromage : ImportItem where
  name := ⟨"fromage".toList, ⟨by decide, by simp [isBlank]⟩, by decide⟩
  other := none

theorem text_statement : statement.text parsed.source = "import fromage" := by decide +kernel

theorem opens : (shelfService record).Opens shelfProject "a.py" "python" parsed :=
  Service.opens_shelf (.inl rfl) (by decide +kernel) rfl (by decide +kernel) {}

theorem capture_imports : (shelfService record).engine.capture (templateOr "python" "imports") parsed.tree =
    .ok (.ofPairs [(statement, "import"), (moduleName, "import.module")]) :=
  Service.capture_shelf List.lookup_cons_self

theorem exists_aliases : ∃ aliases, (shelfService record).engine.capture aliasQuery parsed.tree = .ok aliases :=
  ⟨_, rfl⟩

theorem isStatement : ImportStatement [fromage] (statement.text parsed.source).toList := by
  have isGap : IsGap [' '] := ⟨by simp [AllBlank, isBlank], by decide⟩
  rw [text_statement]
  exact .mk isGap (.last (.alone fromage.name))

theorem not_clear : ¬ fromage.Clear := fun clear => clear.1 ⟨[], "age".toList, rfl⟩

/-- Age is told of a file that imports only fromage. -/
theorem fromage_read_as_age :
    ImportStatement [fromage] (statement.text parsed.source).toList ∧
      ∃ answer, ((findDependencies shelfProject "a.py").run (shelfService record)).1 = .ok answer ∧
        "age" ∈ under answer "module" ∧
        ¬ ∀ name, name ∈ namedModules parsed.tree.root parsed.source (some statement, "import") ↔
          ∃ item ∈ [fromage], name = item.name.text := by
  have told : (Captures.ofPairs [(statement, "import"), (moduleName, "import.module")]).told =
      [] ++ (some statement, "import") :: [(some moduleName, "import.module")] := rfl
  obtain ⟨aliases, askedAliases⟩ := exists_aliases
  obtain ⟨answer, answered, modules, exact_iff, -⟩ := import_statement_read_iff opens rfl capture_imports
    (fun _ => askedAliases) told (by decide)
  refine ⟨isStatement, answer, answered, (modules "age").mpr (.inr (.inr ?_)), ?_⟩
  · rw [namedModules_of_import (by decide) isStatement.infix_import, text_statement]
    decide +kernel
  · rw [exact_iff [fromage] isStatement]
    rintro (clear | ⟨-, found⟩)
    · exact not_clear (clear fromage List.mem_cons_self)
    · rcases foundAmong_cons_iff.mp found with found | ⟨clear, -⟩
      · exact found.1 ⟨[], "age".toList, rfl⟩
      · exact not_clear clear

end Fromage

end Analysis

end Arborist
