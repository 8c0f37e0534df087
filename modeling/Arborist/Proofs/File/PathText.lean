import Arborist.File.Path

/-!
Texts of paths.  A proper path, all of whose components are names, is read back from its text, and
one absolute text begins with another if the components do so or if a longer name follows.
-/

namespace Arborist

namespace Text

theorem splitWhere_cons (test : α → Bool) (item : α) (rest : List α) :
    splitWhere test (item :: rest) =
      if test item then [] :: splitWhere test rest
      else (splitWhere test rest).modifyHead (item :: ·) := by
  have nonempty : splitWhere test rest ≠ [] := by
    cases rest with
    | nil => simp [splitWhere]
    | cons head tail =>
        simp only [splitWhere, List.foldr_cons]
        split
        · simp
        · split <;> simp
  simp only [splitWhere, List.foldr_cons] at nonempty ⊢
  split
  · rfl
  · cases pieces : List.foldr _ _ rest with
    | nil => exact absurd pieces nonempty
    | cons piece others => simp

theorem splitWhere_eq_splitOnP (test : α → Bool) (items : List α) :
    splitWhere test items = items.splitOnP test := by
  induction items with
  | nil => rfl
  | cons item rest ih => rw [splitWhere_cons, List.splitOnP_cons_eq_if_modifyHead, ih]

theorem test_eq_false_of_mem_splitWhere {test : α → Bool} {items piece : List α} {item : α}
    (pieceMember : piece ∈ splitWhere test items) (itemMember : item ∈ piece) :
    test item = false := by
  induction items generalizing piece with
  | nil =>
      simp only [splitWhere, List.foldr_nil, List.mem_singleton] at pieceMember
      simp [pieceMember] at itemMember
  | cons head rest ih =>
      rw [splitWhere_cons] at pieceMember
      split at pieceMember
      · rcases List.mem_cons.mp pieceMember with rfl | restMember
        · simp at itemMember
        · exact ih restMember itemMember
      · cases pieces : splitWhere test rest with
        | nil => simp [pieces] at pieceMember
        | cons first others =>
            rw [pieces] at ih pieceMember
            simp only [List.modifyHead_cons, List.mem_cons] at pieceMember
            rcases pieceMember with rfl | othersMember
            · rcases List.mem_cons.mp itemMember with rfl | firstMember
              · simp_all
              · exact ih (by simp) firstMember
            · exact ih (by simp [othersMember]) itemMember

end Text

namespace Path

structure ProperName (name : String) : Prop where
  nonempty : name ≠ ""
  not_dot : name ≠ "."
  no_slash : '/' ∉ name.toList

def Proper (path : Path) : Prop := ∀ name ∈ path.components, ProperName name

instance (name : String) : Decidable (ProperName name) :=
  decidable_of_iff (name ≠ "" ∧ name ≠ "." ∧ '/' ∉ name.toList)
    ⟨fun ⟨nonempty, not_dot, no_slash⟩ => ⟨nonempty, not_dot, no_slash⟩,
      fun proper => ⟨proper.nonempty, proper.not_dot, proper.no_slash⟩⟩

instance (path : Path) : Decidable path.Proper :=
  inferInstanceAs (Decidable (∀ name ∈ path.components, ProperName name))

theorem componentsOf_proper (text : String) :
    ∀ name ∈ componentsOf text, ProperName name := by
  intro name member
  simp only [componentsOf, List.mem_filter, List.mem_map, Bool.and_eq_true, bne_iff_ne] at member
  obtain ⟨⟨piece, pieceMember, rfl⟩, nonempty, notDot⟩ := member
  refine ⟨nonempty, notDot, ?_⟩
  intro slash
  rw [String.toList_ofList] at slash
  simpa using Text.test_eq_false_of_mem_splitWhere pieceMember slash

theorem ofString_proper (text : String) : (ofString text).Proper :=
  componentsOf_proper text

theorem Proper.join {base path : Path} (baseProper : base.Proper) (pathProper : path.Proper) :
    (base.join path).Proper := by
  intro name member
  unfold Path.join at member
  split at member
  · rcases List.mem_append.mp member with baseMember | pathMember
    · exact baseProper name baseMember
    · exact pathProper name pathMember
  · exact pathProper name member

/-! Reading a text back. -/

theorem splitWhere_slash_intercalate (names : List String) (proper : ∀ name ∈ names, ProperName name)
    (nonempty : names ≠ []) :
    Text.splitWhere (· == '/') ("/".intercalate names).toList = names.map String.toList := by
  rw [Text.splitWhere_eq_splitOnP, ← List.splitOn_eq_splitOnP, String.toList_intercalate]
  apply List.splitOn_intercalate
  · intro word member
    obtain ⟨name, nameMember, rfl⟩ := List.mem_map.mp member
    exact (proper name nameMember).no_slash
  · simpa using nonempty

theorem filter_names (names : List String) (proper : ∀ name ∈ names, ProperName name) :
    names.filter (fun name => name != "" && name != ".") = names := by
  rw [List.filter_eq_self]
  intro name member
  simp [(proper name member).nonempty, (proper name member).not_dot]

theorem componentsOf_slash (text : String) : componentsOf ("/" ++ text) = componentsOf text := by
  simp [componentsOf, Text.splitWhere_cons]

theorem componentsOf_intercalate (names : List String) (proper : ∀ name ∈ names, ProperName name) :
    componentsOf ("/".intercalate names) = names := by
  cases names with
  | nil => rfl
  | cons first rest =>
      unfold componentsOf
      rw [splitWhere_slash_intercalate _ proper (by simp), List.map_map]
      simpa using filter_names _ proper

theorem intercalate_eq_cons {names : List String} (proper : ∀ name ∈ names, ProperName name)
    (nonempty : names ≠ []) :
    ∃ first rest, ("/".intercalate names).toList = first :: rest ∧ first ≠ '/' := by
  cases names with
  | nil => exact absurd rfl nonempty
  | cons name others =>
      have nameProper := proper name (by simp)
      cases characters : name.toList with
      | nil => exact absurd (String.toList_eq_nil_iff.mp characters) nameProper.nonempty
      | cons first rest =>
          refine ⟨first, rest ++ ("/".intercalate (name :: others)).toList.drop name.toList.length, ?_, ?_⟩
          · cases others with
            | nil => simp [characters]
            | cons second more => simp [String.toList_intercalate, characters]
          · rintro rfl
            exact nameProper.no_slash (by simp [characters])

theorem anchorOf_text {path : Path} (proper : path.Proper) : anchorOf path.text.toList = path.anchor := by
  obtain ⟨anchor, components⟩ := path
  by_cases empty : components = []
  · subst empty
    cases anchor <;> rfl
  · obtain ⟨first, rest, equation, notSlash⟩ := intercalate_eq_cons proper empty
    have textEquation : (Path.mk anchor components).text = anchor.text ++ "/".intercalate components := by
      simp [text, empty]
    rw [textEquation, String.toList_append, equation]
    cases anchor <;> simp [Anchor.text, anchorOf, notSlash]

theorem ofString_text {path : Path} (proper : path.Proper) : ofString path.text = path := by
  have anchorEquation := anchorOf_text proper
  obtain ⟨anchor, components⟩ := path
  have componentsEquation : componentsOf (Path.mk anchor components).text = components := by
    unfold text
    split
    next empty =>
      simp only [Bool.and_eq_true, List.isEmpty_iff] at empty
      rw [empty.2]
      rfl
    next =>
      cases anchor with
      | relative => simpa [Anchor.text] using componentsOf_intercalate components proper
      | root =>
          rw [show Anchor.root.text = "/" from rfl, componentsOf_slash]
          exact componentsOf_intercalate components proper
      | doubleRoot =>
          rw [show Anchor.doubleRoot.text = "/" ++ "/" from rfl, String.append_assoc,
            componentsOf_slash, componentsOf_slash]
          exact componentsOf_intercalate components proper
  unfold ofString
  rw [anchorEquation, componentsEquation]

theorem text_injective {left right : Path} (leftProper : left.Proper) (rightProper : right.Proper)
    (sameText : left.text = right.text) : left = right := by
  rw [← ofString_text leftProper, ← ofString_text rightProper, sameText]

/-! Beginnings of texts.  A text can begin with another one in the middle of a name. -/

/-- Names that agree with others up to the last of these, where a longer name stands. -/
def NamesBeside (path base : List String) : Prop :=
  ∃ above name more below, more ≠ "" ∧ base = above ++ [name] ∧ path = above ++ (name ++ more) :: below

def Beside (path base : Path) : Prop := NamesBeside path.components base.components

theorem NamesBeside.not_isPrefix {path base : List String} (beside : NamesBeside path base) :
    ¬ base <+: path := by
  obtain ⟨above, name, more, below, moreNonempty, rfl, rfl⟩ := beside
  rw [List.prefix_append_right_inj, List.cons_prefix_cons]
  rintro ⟨sameName, -⟩
  exact moreNonempty (String.append_right_inj name |>.mp (by simpa using sameName.symm))

theorem namesBeside_singleton_iff (base name : String) (rest : List String) :
    NamesBeside (name :: rest) [base] ↔ ∃ more, more ≠ "" ∧ name = base ++ more := by
  constructor
  · rintro ⟨above, last, more, below, nonempty, baseEquation, pathEquation⟩
    obtain ⟨rfl, rfl⟩ : above = [] ∧ last = base := by
      cases above <;> simp_all
    simp only [List.nil_append, List.cons.injEq] at pathEquation
    exact ⟨more, nonempty, pathEquation.1⟩
  · rintro ⟨more, nonempty, rfl⟩
    exact ⟨[], base, more, rest, nonempty, rfl, rfl⟩

theorem namesBeside_cons_cons_iff (first second name : String) (rest others : List String) :
    NamesBeside (name :: others) (first :: second :: rest) ↔
      name = first ∧ NamesBeside others (second :: rest) := by
  constructor
  · rintro ⟨above, last, more, below, nonempty, baseEquation, pathEquation⟩
    cases above with
    | nil => simp at baseEquation
    | cons head tail =>
        simp only [List.cons_append, List.cons.injEq] at baseEquation pathEquation
        exact ⟨pathEquation.1.trans baseEquation.1.symm,
          tail, last, more, below, nonempty, baseEquation.2, pathEquation.2⟩
  · rintro ⟨rfl, above, last, more, below, nonempty, baseEquation, rfl⟩
    exact ⟨name :: above, last, more, below, nonempty, by rw [baseEquation]; rfl, rfl⟩

theorem not_namesBeside_nil (base : List String) : ¬ NamesBeside [] base := by
  rintro ⟨above, last, more, below, -, -, pathEquation⟩
  simp at pathEquation

private theorem append_slash_isPrefix_iff {left right : List Char} (leftPlain : '/' ∉ left)
    (rightPlain : '/' ∉ right) (leftRest rightRest : List Char) :
    left ++ '/' :: leftRest <+: right ++ '/' :: rightRest ↔ left = right ∧ leftRest <+: rightRest := by
  induction left generalizing right with
  | nil =>
      cases right with
      | nil => simp
      | cons first others =>
          have firstPlain : '/' ≠ first := by
            rintro rfl
            exact rightPlain (by simp)
          simp [firstPlain]
  | cons head tail ih =>
      have headPlain : head ≠ '/' := fun equal => leftPlain (by simp [equal])
      cases right with
      | nil => simp [headPlain]
      | cons first others =>
          have onTails := @ih others (fun member => leftPlain (by simp [member]))
            (fun member => rightPlain (by simp [member]))
          simp only [List.cons_append, List.cons_prefix_cons, onTails, List.cons.injEq, and_assoc]

private theorem isPrefix_append_slash_iff {left right : List Char} (leftPlain : '/' ∉ left)
    (rest : List Char) : left <+: right ++ '/' :: rest ↔ left <+: right := by
  constructor
  · intro starts
    rcases Nat.lt_or_ge right.length left.length with longer | shorter
    · obtain ⟨remaining, equation⟩ := starts
      have slash : '/' ∈ left := by
        have atEnd : (left ++ remaining)[right.length]? = some '/' := by simp [equation]
        rw [List.getElem?_append_left longer] at atEnd
        exact List.mem_of_getElem? atEnd
      exact absurd slash leftPlain
    · exact List.prefix_of_prefix_length_le starts (List.prefix_append right _) shorter
  · exact fun starts => starts.trans (List.prefix_append right _)

theorem intercalate_cons_cons_toList (first second : String) (rest : List String) :
    ("/".intercalate (first :: second :: rest)).toList =
      first.toList ++ '/' :: ("/".intercalate (second :: rest)).toList := by
  simp [String.toList_intercalate]

/-- One joined text begins with another if the names do, or if they do up to the last one, where
the first text goes on. -/
theorem intercalate_isPrefix_iff (base path : List String)
    (baseProper : ∀ name ∈ base, ProperName name) (pathProper : ∀ name ∈ path, ProperName name) :
    ("/".intercalate base).toList <+: ("/".intercalate path).toList ↔
      base <+: path ∨ NamesBeside path base := by
  induction base generalizing path with
  | nil => simp
  | cons first rest ih =>
      have firstProper := baseProper first (by simp)
      cases path with
      | nil =>
          obtain ⟨head, tail, equation, -⟩ := intercalate_eq_cons baseProper (by simp)
          simp [equation, not_namesBeside_nil]
      | cons name others =>
          have nameProper := pathProper name (by simp)
          cases rest with
          | nil =>
              have onFirstName :
                  ("/".intercalate [first]).toList <+: ("/".intercalate (name :: others)).toList ↔
                    first.toList <+: name.toList := by
                cases others with
                | nil => simp
                | cons second more =>
                    rw [intercalate_cons_cons_toList, String.intercalate_singleton]
                    exact isPrefix_append_slash_iff firstProper.no_slash _
              rw [onFirstName, namesBeside_singleton_iff, List.cons_prefix_cons]
              constructor
              · rintro ⟨more, equation⟩
                have nameEquation : name = first ++ String.ofList more := by
                  rw [← String.toList_inj]
                  simp [equation]
                by_cases empty : more = []
                · left
                  exact ⟨by simp [nameEquation, empty], by simp⟩
                · right
                  exact ⟨String.ofList more, by simpa using empty, nameEquation⟩
              · rintro (⟨rfl, -⟩ | ⟨more, -, rfl⟩)
                · exact List.prefix_rfl
                · simp
          | cons second more =>
              rw [namesBeside_cons_cons_iff, intercalate_cons_cons_toList, List.cons_prefix_cons]
              cases others with
              | nil =>
                  have slashless :
                      ¬ first.toList ++ '/' :: ("/".intercalate (second :: more)).toList <+: name.toList :=
                    fun starts => nameProper.no_slash (starts.subset (by simp))
                  simp only [String.intercalate_singleton, slashless, List.prefix_nil, reduceCtorEq,
                    not_namesBeside_nil, and_false, or_self]
              | cons nextName further =>
                  rw [intercalate_cons_cons_toList,
                    append_slash_isPrefix_iff firstProper.no_slash nameProper.no_slash,
                    ih (nextName :: further) (fun name member => baseProper name (by simp [member]))
                      (fun name member => pathProper name (by simp [member])), String.toList_inj,
                    eq_comm (a := name), ← and_or_left]

theorem not_isPrefix_absolute_of_relative {base : Path} (baseProper : base.Proper)
    (relative : base.anchor = .relative) (names : List String) :
    ¬ base.text.toList <+: (absolute names).text.toList := by
  have absoluteText : (absolute names).text.toList = '/' :: ("/".intercalate names).toList := by
    simp [text, absolute, Anchor.text]
  obtain ⟨anchor, components⟩ := base
  subst relative
  rw [absoluteText]
  by_cases empty : components = []
  · simp [text, empty]
  · obtain ⟨first, rest, equation, firstPlain⟩ := intercalate_eq_cons baseProper empty
    have baseText : (Path.mk .relative components).text.toList = first :: rest := by
      rw [← equation]
      simp [text, empty, Anchor.text]
    rw [baseText, List.cons_prefix_cons]
    simp [firstPlain]

theorem text_isPrefix_absolute_iff {base : Path} {names : List String} (baseProper : base.Proper)
    (namesProper : ∀ name ∈ names, ProperName name) :
    base.text.toList <+: (absolute names).text.toList ↔
      base.anchor = .root ∧ (base.components <+: names ∨ (absolute names).Beside base) := by
  have absoluteText : (absolute names).text.toList = '/' :: ("/".intercalate names).toList := by
    simp [text, absolute, Anchor.text]
  obtain ⟨anchor, components⟩ := base
  rw [absoluteText]
  cases anchor with
  | root =>
      have baseText :
          (Path.mk .root components).text.toList = '/' :: ("/".intercalate components).toList := by
        simp [text, Anchor.text]
      rw [baseText, List.cons_prefix_cons,
        intercalate_isPrefix_iff components names baseProper namesProper]
      simp [Beside, absolute]
  | relative =>
      have notPrefix := not_isPrefix_absolute_of_relative baseProper rfl names
      rw [absoluteText] at notPrefix
      simp only [notPrefix, reduceCtorEq, false_and]
  | doubleRoot =>
      have baseText : (Path.mk .doubleRoot components).text.toList =
          '/' :: '/' :: ("/".intercalate components).toList := by
        simp [text, Anchor.text]
      rw [baseText, List.cons_prefix_cons]
      by_cases empty : names = []
      · simp [empty]
      · obtain ⟨first, rest, equation, firstPlain⟩ := intercalate_eq_cons namesProper empty
        rw [equation, List.cons_prefix_cons]
        simp [firstPlain.symm]

end Path

end Arborist
