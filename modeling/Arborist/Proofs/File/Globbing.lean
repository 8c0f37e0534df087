import Mathlib.Data.List.Infix
import Arborist.Proofs.File.Climb
import Arborist.Proofs.File.Following
import Arborist.Proofs.Text.Stripping

/-!
The files below a directory whose names have some ending.  A pattern of a double star, a star and an ending
fits the entries whose names end in it, in all directories that are reached without going through links.
-/

namespace Arborist

/-! Going down from a directory. -/

namespace Store

variable {entry : Entry} {base : Path} {names : List String}

variable {store : Store}

theorem followFrom_append (depth : Nat) (current front rest : List String) :
    store.followFrom depth current (front ++ rest) =
      (store.followFrom depth current front >>= fun reached => store.followFrom depth reached rest) := by
  fun_induction store.followFrom depth current front with
  | case1 => rfl
  | case2 depth current name others missing => simp [followFrom, missing]
  | case3 depth current others children found ih => simp [followFrom, found, ih]
  | case4 depth current name others children found notDots missing =>
      simp [followFrom, found, notDots, missing]
  | case5 current name others children found notDots target link =>
      simp [followFrom, found, notDots, link]
  | case6 current name others children found notDots target link depth path start reached leads _ ih =>
      have onTarget : store.followFrom depth (if (Path.ofString target).anchor = .relative then current else [])
          (Path.ofString target).components = .ok reached := leads
      rw [List.cons_append, followFrom_link found notDots link]
      dsimp only
      rw [onTarget]
      exact ih
  | case7 current name others children found notDots target link depth path start fault stuck _ =>
      have onTarget : store.followFrom depth (if (Path.ofString target).anchor = .relative then current else [])
          (Path.ofString target).components = .error fault := stuck
      rw [List.cons_append, followFrom_link found notDots link]
      dsimp only
      rw [onTarget]
      rfl
  | case8 depth current name others children found notDots entry notLink present ih =>
      rw [List.cons_append, followFrom, found]
      simp only [notDots, if_false, present]
      exact ih
  | case9 depth current name others entry notDirectory found =>
      rw [List.cons_append, followFrom, found]
      cases entry with
      | directory children => exact absurd rfl (notDirectory children)
      | file content modified => rfl
      | link target => rfl

/-- Names lead from a path to an entry, each but the last one to a directory itself and not to a link. -/
def LeadsTo (store : Store) (base : Path) (names : List String) (entry : Entry) : Prop :=
  ∃ place children, store.locate base = .ok (place, .directory children) ∧
    Folder.find? children names = some entry

theorem followFrom_down (depth : Nat) {place names : List String} {children : Folder}
    (here : store.find? place = some (.directory children)) (noDots : ".." ∉ names)
    (found : Folder.find? children names = some entry) (notLink : entry.isLink = false) :
    store.followFrom depth place names = .ok (place ++ names) ∧ store.find? (place ++ names) = some entry := by
  induction names generalizing place children with
  | nil =>
      cases found
      exact ⟨by simp [followFrom], by simpa using here⟩
  | cons name others ih =>
      have notDots : name ≠ ".." := fun same => noDots (by simp [same])
      have noneLater : ".." ∉ others := fun member => noDots (List.mem_cons_of_mem name member)
      have next : store.find? (place ++ [name]) = Folder.get? children name :=
        Folder.find?_concat_of_directory name here
      rw [followFrom, here]
      simp only [notDots, if_false]
      cases others with
      | nil =>
          have present : Folder.get? children name = some entry := found
          rw [present] at next ⊢
          refine ⟨?_, next⟩
          cases entry with
          | link target => cases notLink
          | file content modified => simp [followFrom]
          | directory inner => simp [followFrom]
      | cons second more =>
          simp only [Folder.find?] at found
          split at found
          next inner present =>
            have onward := ih (next.trans present) noneLater found
            rw [List.append_assoc, List.singleton_append] at onward
            rw [present]
            exact onward
          next => cases found

theorem LeadsTo.exists_entry (leads : store.LeadsTo base names entry) {name : String} (member : name ∈ names) :
    ∃ other, (name, other) ∈ entriesWithin store.root := by
  obtain ⟨place, children, located, found⟩ := leads
  obtain ⟨other, inside⟩ := Folder.exists_entry_of_mem_names found member
  exact ⟨other, Folder.within_subset_of_find? (find?_of_locate located) inside⟩

theorem LeadsTo.proper (leads : store.LeadsTo base names entry) (named : store.WellNamed) :
    ∀ name ∈ names, Path.ProperName name ∧ name ≠ ".." := by
  intro name member
  obtain ⟨other, inside⟩ := leads.exists_entry member
  exact named _ inside

theorem LeadsTo.locate (leads : store.LeadsTo base names entry) (named : store.WellNamed) (nullFree : store.NullFree)
    (notLink : entry.isLink = false) :
    ∃ place, store.locate ⟨base.anchor, base.components ++ names⟩ = .ok (place, entry) := by
  have present : ∀ {name}, name ∈ names → ∃ other, (name, other) ∈ entriesWithin store.root :=
    leads.exists_entry
  have noDots : ".." ∉ names := fun member => (leads.proper named ".." member).2 rfl
  obtain ⟨place, children, located, found⟩ := leads
  have here := find?_of_locate located
  have noNull : hasNull (base.components ++ names) = false := by
    have before := not_hasNull_of_locate located
    simp only [hasNull, List.any_append, Bool.or_eq_false_iff] at before ⊢
    refine ⟨before, List.any_eq_false.mpr ?_⟩
    intro name member
    obtain ⟨other, inside⟩ := present member
    simpa [hasNull] using nullFree _ inside
  obtain ⟨follows, stands⟩ :=
    followFrom_down (folderLinkCount store.root) here noDots found notLink
  have start : store.startOf ⟨base.anchor, base.components ++ names⟩ = store.startOf base := rfl
  refine ⟨place ++ names, ?_⟩
  unfold Store.locate
  rw [start]
  simp only [noNull, Bool.false_eq_true, if_false, followFrom_append, followFrom_of_locate located,
    Outcome.ok_bind, follows, stands]

end Store

namespace File

variable {ending : String} {names : List String} {store : Store}

/-! Patterns for names. -/

/-- A text without the signs that mean something in a pattern. -/
def PlainEnding (ending : String) : Prop :=
  ∀ c ∈ ending.toList, c ≠ '*' ∧ c ≠ '?' ∧ c ≠ '[' ∧ c ≠ '/'

instance (ending : String) : Decidable (PlainEnding ending) :=
  List.decidableBAll (fun c => c ≠ '*' ∧ c ≠ '?' ∧ c ≠ '[' ∧ c ≠ '/') ending.toList

theorem piecesWith_plain {text : List Char} (plain : ∀ c ∈ text, c ≠ '*' ∧ c ≠ '?' ∧ c ≠ '[')
    {fuel : Nat} (enough : text.length < fuel) : piecesWith fuel text = text.map .exact := by
  induction text generalizing fuel with
  | nil => cases fuel <;> rfl
  | cons c rest ih =>
      obtain ⟨notStar, notMark, notBracket⟩ := plain c List.mem_cons_self
      cases fuel with
      | zero => cases enough
      | succ fuel =>
          have onRest := ih (fun d member => plain d (List.mem_cons_of_mem c member))
            (Nat.lt_of_succ_lt_succ enough)
          rw [piecesWith, onRest, List.map_cons]
          · exact notStar
          · exact notMark
          · exact notBracket

theorem fits_exact_iff {text name : List Char} : fits (text.map .exact) name = true ↔ name = text := by
  induction text generalizing name with
  | nil => simp [fits]
  | cons c rest ih =>
      cases name with
      | nil => simp [fits]
      | cons d others =>
          simp only [List.map_cons, fits, Bool.and_eq_true, beq_iff_eq, ih, List.cons.injEq]
          exact and_congr_left' eq_comm

theorem fits_any_iff {rest : List Piece} {name : List Char} :
    fits (.any :: rest) name = true ↔ ∃ stem tail, name = stem ++ tail ∧ fits rest tail = true := by
  induction name with
  | nil =>
      rw [fits]
      constructor
      · exact fun fitting => ⟨[], [], rfl, fitting⟩
      · rintro ⟨stem, tail, parts, fitting⟩
        obtain ⟨rfl, rfl⟩ := List.append_eq_nil_iff.mp parts.symm
        exact fitting
  | cons c others ih =>
      rw [fits, Bool.or_eq_true, ih]
      constructor
      · rintro (now | ⟨stem, tail, parts, later⟩)
        · exact ⟨[], c :: others, rfl, now⟩
        · exact ⟨c :: stem, tail, by simp [parts], later⟩
      · rintro ⟨stem, tail, parts, fitting⟩
        cases stem with
        | nil => exact .inl (by simpa [parts] using fitting)
        | cons d more =>
            cases parts
            exact .inr ⟨more, tail, rfl, fitting⟩

theorem nameFits_ending_iff {ending name : String} (plain : PlainEnding ending) :
    nameFits ("*." ++ ending) name = true ↔ ∃ stem, name.toList = stem ++ '.' :: ending.toList := by
  have read : pieces ("*." ++ ending).toList = .any :: ('.' :: ending.toList).map .exact := by
    have letters : ("*." ++ ending).toList = '*' :: '.' :: ending.toList := by simp
    rw [letters, pieces, List.length_cons, piecesWith, piecesWith_plain]
    · intro c member
      rcases List.mem_cons.mp member with rfl | later
      · decide
      · obtain ⟨notStar, notMark, notBracket, -⟩ := plain c later
        exact ⟨notStar, notMark, notBracket⟩
    · simp
  rw [nameFits, read, fits_any_iff]
  simp only [fits_exact_iff]
  constructor
  · rintro ⟨stem, _, parts, rfl⟩
    exact ⟨stem, parts⟩
  · rintro ⟨stem, parts⟩
    exact ⟨stem, _, parts, rfl⟩

theorem nameFits_star (name : String) : nameFits "*" name = true := by
  have read : pieces "*".toList = [.any] := rfl
  rw [nameFits, read, fits_any_iff]
  exact ⟨name.toList, [], by simp, by simp [fits]⟩

theorem selectors_of_components {pattern : String} (first second : String) {one other : Selector}
    (written : pattern = first ++ "/" ++ second) (firstProper : Path.ProperName first)
    (secondProper : Path.ProperName second) (readFirst : Selector.ofComponent first = .ok one)
    (readSecond : Selector.ofComponent second = .ok other) :
    selectors pattern = .ok [one, other] := by
  have proper : Path.Proper ⟨.relative, [first, second]⟩ := by
    simp [Path.Proper, firstProper, secondProper]
  have text : pattern = Path.text ⟨.relative, [first, second]⟩ := by
    simp only [written, Path.text, Anchor.text]
    rfl
  have parsed : Path.ofString pattern = ⟨.relative, [first, second]⟩ := by
    rw [text, Path.ofString_text proper]
  have nonempty : pattern.isEmpty = false := by
    rw [text, Path.text_isEmpty proper]
  have noSlash : pattern.toList.getLast? ≠ some '/' := by
    rw [text]
    exact Path.text_getLast?_ne_slash proper (by simp)
  unfold selectors
  simp [nonempty, parsed, readFirst, readSecond, noSlash]

theorem ofComponent_ending (plain : PlainEnding ending) :
    Selector.ofComponent ("*." ++ ending) = .ok (.fitting ("*." ++ ending)) := by
  have letters : ("*." ++ ending).toList = '*' :: '.' :: ending.toList := by simp
  have notDouble : "*." ++ ending ≠ "**" := by
    intro same
    have := congrArg String.toList same
    simp at this
  have notDots : "*." ++ ending ≠ ".." := by
    intro same
    have := congrArg String.toList same
    simp at this
  have noDoubleStar : Text.stringOccursIn "**" ("*." ++ ending) = false := by
    have noStar : Text.occursIn ['*', '*'] ending.toList ≠ true := by
      intro occurs
      have inside := (Text.occursIn_iff_infix.mp occurs).subset
      exact (plain '*' (inside (by simp))).1 rfl
    simpa [Text.stringOccursIn, letters, Text.occursIn, List.isPrefixOf] using noStar
  have special : isPattern ("*." ++ ending) = true := by simp [isPattern]
  unfold Selector.ofComponent
  simp only [notDouble, notDots, noDoubleStar, special, if_false, if_true, Bool.false_eq_true]

theorem selectors_ending (plain : PlainEnding ending) :
    selectors ("**/*." ++ ending) = .ok [.anyDepth, .fitting ("*." ++ ending)] := by
  have noSlash : '/' ∉ ("*." ++ ending).toList := by
    intro member
    have inside : '/' ∈ ending.toList := by simpa using member
    exact (plain '/' inside).2.2.2 rfl
  have proper : Path.ProperName ("*." ++ ending) := by
    refine ⟨?_, ?_, noSlash⟩ <;>
    · intro same
      have := congrArg String.toList same
      simp at this
  refine selectors_of_components "**" ("*." ++ ending) ?_ (by decide) proper rfl
    (ofComponent_ending plain)
  rw [← String.append_assoc]
  rfl

/-! What is below a directory. -/

def pathsBelow (store : Store) (base : Path) : List Path :=
  match store.entry? base with
  | some entry =>
    ((directoriesBelow base entry).flatMap fun start =>
      (childrenAt store start).map fun child => start.child child.1).eraseDups
  | none => []

theorem eraseDups_filter [BEq α] [LawfulBEq α] (holds : α → Bool) (items : List α) :
    (items.filter holds).eraseDups = items.eraseDups.filter holds := by
  induction size : items.length using Nat.strong_induction_on generalizing items with
  | _ count ih =>
    cases items with
    | nil => simp
    | cons item rest =>
        have shorter : (rest.filter fun other => !other == item).length < count := by
          have := List.length_filter_le (fun other => !other == item) rest
          simp only [List.length_cons] at size
          omega
        have onRest := ih _ shorter _ rfl
        rw [List.eraseDups_cons, List.filter_cons, List.filter_cons, ← onRest]
        split
        next keeps =>
          rw [List.eraseDups_cons, List.filter_comm]
        next drops =>
          congr 1
          rw [List.filter_filter]
          apply List.filter_congr
          intro other _
          cases same : other == item with
          | true => simp_all
          | false => simp

theorem select_below (store : Store) (pattern : String) (base : Path) :
    (if store.isDirectory base then select store [.anyDepth, .fitting pattern] base else []) =
      (pathsBelow store base).filter fun path => nameFits pattern path.name := by
  have oneDirectory : ∀ start, select store [.fitting pattern] start =
      ((childrenAt store start).map fun child => start.child child.1).filter
        fun path => nameFits pattern path.name := by
    intro start
    simp only [select, List.isEmpty_nil, Bool.true_or, Bool.and_true]
    induction childrenAt store start with
    | nil => rfl
    | cons child rest ih =>
        rw [List.flatMap_cons, ih, List.map_cons, List.filter_cons]
        simp only [Path.name, Path.child, List.getLast?_append, List.getLast?_singleton, Option.some_or,
          Option.getD_some]
        split <;> rfl
  unfold pathsBelow Store.isDirectory
  cases here : store.entry? base with
  | none => simp
  | some entry =>
      rw [select, here, ← eraseDups_filter, List.filter_flatMap, funext oneDirectory]
      cases entry <;> rfl

theorem glob_ending (plain : PlainEnding ending) (store : Store) (base : Path) :
    glob store base ("**/*." ++ ending) =
      .ok ((pathsBelow store base).filter fun path => nameFits ("*." ++ ending) path.name) := by
  simp only [glob, selectors_ending plain, Outcome.ok_bind, Outcome.pure_eq_ok]
  rw [select_below]

theorem directoriesBelow_subset {path : Path} {children : List (String × Entry)} {name : String} {entry : Entry}
    (member : (name, entry) ∈ children) :
    directoriesBelow (path.child name) entry ⊆ directoriesIn path children := by
  induction children with
  | nil => cases member
  | cons child rest ih =>
      rcases List.mem_cons.mp member with rfl | later
      · exact List.subset_append_left _ _
      · exact List.Subset.trans (ih later) (List.subset_append_right _ _)

theorem mem_directoriesBelow {path : Path} {children inner : Folder}
    (found : Folder.find? children names = some (.directory inner)) :
    ⟨path.anchor, path.components ++ names⟩ ∈ directoriesBelow path (.directory children) := by
  induction names generalizing path children with
  | nil => simp [directoriesBelow]
  | cons name rest ih =>
      obtain ⟨between, above, below⟩ :
          ∃ between, Folder.get? children name = some (.directory between) ∧
            Folder.find? between rest = some (.directory inner) := by
        cases rest with
        | nil => exact ⟨inner, found, rfl⟩
        | cons second more =>
            simp only [Folder.find?] at found
            split at found
            next between above => exact ⟨between, above, found⟩
            next => cases found
      have later := directoriesBelow_subset (Folder.mem_of_get? above) (@ih (path.child name) between below)
      refine List.mem_cons_of_mem path ?_
      simpa [Path.child] using later

theorem mem_pathsBelow {base : Path} {entry : Entry} (named : store.WellNamed) (nullFree : store.NullFree)
    (leads : store.LeadsTo base names entry) (nonempty : names ≠ []) :
    ⟨base.anchor, base.components ++ names⟩ ∈ pathsBelow store base := by
  obtain ⟨place, children, located, found⟩ := leads
  obtain rfl | ⟨front, last, rfl⟩ := List.eq_nil_or_concat' names
  · exact absurd rfl nonempty
  obtain ⟨inner, above, below⟩ := Folder.exists_directory_of_find?_append (by simp) found
  have member : (last, entry) ∈ inner := Folder.mem_of_get? below
  obtain ⟨start, startLocated⟩ :=
    Store.LeadsTo.locate ⟨place, children, located, above⟩ named nullFree rfl
  have listed : childrenAt store ⟨base.anchor, base.components ++ front⟩ = inner := by
    simp [childrenAt, Store.entry?, startLocated, Entry.children]
  unfold pathsBelow
  simp only [ Store.entry?, located, List.mem_eraseDups, List.mem_flatMap, List.mem_map]
  refine ⟨_, mem_directoriesBelow above, (last, entry), ?_, ?_⟩
  · rwa [listed]
  · simp [Path.child]

theorem exists_names_of_mem_pathsBelow {base path : Path} (named : store.WellNamed)
    (member : path ∈ pathsBelow store base) :
    ∃ names, StepsTo base path names ∧ ∀ name ∈ names, Path.ProperName name := by
  have all : ∀ other ∈ pathsBelow store base, nameFits "*" other.name = true :=
    fun other _ => nameFits_star other.name
  rw [← List.filter_eq_self.mpr all, ← select_below, List.mem_ite_nil_right] at member
  obtain ⟨names, steps, proper, -⟩ := exists_names_of_mem_select named (by simp [Selector.Plain]) member.2
  exact ⟨names, steps, proper⟩

theorem stepsTo_of_relative_text {base path : Path} (named : store.WellNamed) (member : path ∈ pathsBelow store base)
    (proper : ∀ name ∈ names, Path.ProperName name)
    (told : ((path.relativeTo? base).getD path).text = Path.text ⟨.relative, names⟩) :
    StepsTo base path names := by
  obtain ⟨others, rfl, othersProper⟩ := exists_names_of_mem_pathsBelow named member
  have relative : Path.relativeTo? ⟨base.anchor, base.components ++ others⟩ base =
      some ⟨.relative, others⟩ := by
    simp [Path.relativeTo?]
  rw [relative, Option.getD_some] at told
  have leftProper : Path.Proper ⟨.relative, others⟩ := othersProper
  have rightProper : Path.Proper ⟨.relative, names⟩ := proper
  cases Path.text_injective leftProper rightProper told
  rfl

end File

end Arborist
