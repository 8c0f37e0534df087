import Mathlib.Data.List.DropRight
import Arborist.Proofs.Outcome
import Arborist.Proofs.Service.ActionRun
import Arborist.Proofs.Text.Lowering
import Arborist.Server.Capability

/-!
The completion of a word.  The way back from a position stops where the word does, unless the word begins
where the text begins: then it goes on from the end of the text as long as there are underscores, and fails
if there is nothing else.
-/

namespace Arborist.Server

/-! The way back. -/

section Back

variable {text : List Char}

theorem placeOf_natCast (text : List Char) (place : Nat) : placeOf text place = place := by
  rw [placeOf, if_neg (by omega)]

theorem charAt_of_placeOf {index : Int} {place : Nat} {c : Char} (means : placeOf text index = place)
    (stands : text[place]? = some c) : charAt text index = .ok c := by
  rw [charAt, means, if_neg (by omega), Int.toNat_natCast, stands]

theorem wordBefore_of_charAt {index : Int} {c : Char} (found : charAt text index = .ok c) (word : List Char) :
    wordBefore text index word =
      if (0 ≤ index && Text.isAlphanumeric c) || c == '_' then wordBefore text (index - 1) (c :: word)
      else .ok word := by
  rw [wordBefore]
  split
  next fault missing =>
    rw [found] at missing
    cases missing
  next other same =>
    rw [found] at same
    cases same
    rfl

/-- A way back on which characters count by one test, until the first that does not or the beginning. -/
theorem wordBefore_run (test : Char → Bool) (offset : Int) {count : Nat} (inside : count ≤ text.length)
    (means : ∀ place < count, placeOf text (place + offset) = place)
    (counts : ∀ place < count, ∀ c, ((0 ≤ place + offset && Text.isAlphanumeric c) || c == '_') = test c)
    (word : List Char) :
    wordBefore text (count - 1 + offset) word =
      if (text.take count).all test then wordBefore text (-1 + offset) (text.take count ++ word)
      else .ok ((text.take count).rtakeWhile test ++ word) := by
  induction count generalizing word with
  | zero => simp
  | succ count ih =>
      have bound : count < text.length := inside
      have index : ((count + 1 : Nat) : Int) - 1 + offset = count + offset := by omega
      have next : (count : Int) + offset - 1 = count - 1 + offset := by omega
      have found := charAt_of_placeOf (means count count.lt_succ_self) (List.getElem?_eq_getElem bound)
      have earlier := ih (Nat.le_of_lt bound) (fun place below => means place (Nat.lt_succ_of_lt below))
        (fun place below => counts place (Nat.lt_succ_of_lt below))
      rw [index, wordBefore_of_charAt found, counts count count.lt_succ_self, next, earlier,
        ← List.take_append_getElem bound, List.all_append, List.all_cons, List.all_nil, Bool.and_true,
        List.rtakeWhile_concat]
      cases passes : test text[count] with
      | true =>
          rw [if_pos rfl, Bool.and_true, if_pos rfl, List.append_assoc, List.append_assoc]
          rfl
      | false =>
          rw [Bool.and_false]
          rfl

theorem wordBefore_inside {count : Nat} (inside : count ≤ text.length) :
    wordBefore text (count - 1) [] =
      if (text.take count).all Text.isWord then wordBefore text (-1) (text.take count)
      else .ok ((text.take count).rtakeWhile Text.isWord) := by
  have run := wordBefore_run Text.isWord 0 inside
    (fun place _ => by rw [Int.add_zero, placeOf_natCast])
    (fun place _ c => by simp [Text.isWord]) []
  simpa using run

theorem wordBefore_outside (word : List Char) :
    wordBefore text (-1 - text.length) word = .error (.indexOutside "string") := by
  have missing : charAt text (-1 - text.length) = .error (.indexOutside "string") := by
    have negative : placeOf text (-1 - text.length) < 0 := by
      rw [placeOf, if_pos (by omega)]
      omega
    rw [charAt, if_pos negative]
  rw [wordBefore]
  split
  next fault failed =>
    rw [missing] at failed
    cases failed
    rfl
  next c found =>
    rw [missing] at found
    cases found

/-- Before the beginning, the text is gone through once more, from its end on. -/
theorem wordBefore_beyond (word : List Char) :
    wordBefore text (-1) word =
      if text.all (· == '_') then .error (.indexOutside "string")
      else .ok (text.rtakeWhile (· == '_') ++ word) := by
  have run := wordBefore_run (· == '_') (-text.length) (Nat.le_refl text.length)
    (fun place below => by rw [placeOf, if_pos (by omega)]; omega)
    (fun place below c => by rw [decide_eq_false (by omega), Bool.false_and, Bool.false_or]) word
  have start : (text.length : Int) - 1 + -text.length = -1 := by omega
  rw [start, List.take_length] at run
  rw [run]
  exact if_congr Iff.rfl (wordBefore_outside _) rfl

/-- The longest word at the end of a text. -/
structure IsLastWord (before word : List Char) : Prop where
  suffix : word <:+ before
  solid : ∀ c ∈ word, Text.isWord c = true
  longest : ∀ other, other <:+ before → (∀ c ∈ other, Text.isWord c = true) → other <:+ word

theorem rtakeWhile_append_of_all {test : Char → Bool} {front back : List Char}
    (passes : ∀ c ∈ back, test c = true) : (front ++ back).rtakeWhile test = front.rtakeWhile test ++ back := by
  rw [List.rtakeWhile, List.reverse_append, List.takeWhile_append_of_pos, List.reverse_append,
    List.reverse_reverse]
  · rfl
  · intro c member
    exact passes c (List.mem_reverse.mp member)

theorem isLastWord_rtakeWhile (before : List Char) : IsLastWord before (before.rtakeWhile Text.isWord) where
  suffix := List.rtakeWhile_suffix _ _
  solid _ member := List.mem_rtakeWhile_imp member
  longest other ends solid := by
    obtain ⟨front, rfl⟩ := ends
    rw [rtakeWhile_append_of_all solid]
    exact List.suffix_append _ _

theorem IsLastWord.eq_rtakeWhile {before word : List Char} (last : IsLastWord before word) :
    word = before.rtakeWhile Text.isWord := by
  have longest := isLastWord_rtakeWhile before
  have within := longest.longest word last.suffix last.solid
  have around := last.longest _ longest.suffix longest.solid
  exact within.eq_of_length_le around.length_le

/-- The underscores at the end of a text. -/
def trailing (text : List Char) : List Char := text.rtakeWhile (· == '_')

theorem eq_of_mem_trailing {c : Char} (member : c ∈ trailing text) : c = '_' := by
  have passes := List.mem_rtakeWhile_imp member
  exact beq_iff_eq.mp passes

/-- The way back finds the word at a position, unless that begins where the text begins. -/
theorem wordBefore_eq {position : Nat} {word : List Char} (inside : position ≤ text.length)
    (last : IsLastWord (text.take position) word) :
    wordBefore text (position - 1) [] =
      if word = text.take position then
        if text.all (· == '_') then .error (.indexOutside "string") else .ok (trailing text ++ word)
      else .ok word := by
  rw [wordBefore_inside inside, wordBefore_beyond]
  obtain rfl := last.eq_rtakeWhile
  have whole : (text.take position).all Text.isWord = true ↔
      (text.take position).rtakeWhile Text.isWord = text.take position := by
    rw [List.all_eq_true, List.rtakeWhile_eq_self_iff]
  by_cases all : (text.take position).rtakeWhile Text.isWord = text.take position
  · rw [if_pos (whole.mpr all), if_pos all, all]
    rfl
  · rw [if_neg (mt whole.mp all), if_neg all]

end Back

/-! What is spoken of. -/

section Mention

variable {before : List Char}

def isSmall (c : Char) : Bool := c.toNat < 128 && c.toLower == c

theorem lower_of_small (small : before.all isSmall = true) : Text.lower before = before := by
  rw [List.all_eq_true] at small
  have each (c : Char) (member : c ∈ before) : c.toNat < 128 ∧ c.toLower = c := by
    have both := small c member
    rwa [isSmall, Bool.and_eq_true, decide_eq_true_eq, beq_iff_eq] at both
  have ascii : before.all (fun c => c.toNat < 128) = true := by
    rw [List.all_eq_true]
    intro c member
    exact decide_eq_true (each c member).1
  rw [Text.lower, if_pos ascii]
  calc before.map Char.toLower = before.map id := List.map_congr_left fun c member => (each c member).2
    _ = before := List.map_id before

theorem mem_of_mentions {topic : String} (small : before.all isSmall = true) (spoken : mentions before topic = true)
    {c : Char} (member : c ∈ topic.toList) : c ∈ before := by
  rw [mentions, lower_of_small small] at spoken
  exact (Text.occursIn_iff_infix.mp spoken).mem member

theorem not_mentions_of_underscores (topic : String) (c : Char) (member : c ∈ topic.toList) (other : c ≠ '_')
    (only : ∀ d ∈ before, d = '_') : mentions before topic = false := by
  have small : before.all isSmall = true := by
    rw [List.all_eq_true]
    intro d among
    rw [only d among]
    rfl
  apply Bool.eq_false_iff.mpr
  intro spoken
  exact other (only c (mem_of_mentions small spoken member))

theorem not_mentions_config {name : String} (small : name.toList.all isSmall = true) (absent : 'g' ∉ name.toList)
    (front : before <+: name.toList) : mentions before "config" = false := by
  have smallBefore : before.all isSmall = true := by
    rw [List.all_eq_true] at small ⊢
    intro c member
    exact small c (front.mem member)
  apply Bool.eq_false_iff.mpr
  intro spoken
  exact absent (front.mem (mem_of_mentions smallBefore spoken (by decide)))

end Mention

/-! Suggestions. -/

section Suggestions

variable {before word : List Char}

def mentionedNames (service : Service) (before : List Char) : List String :=
  (if mentions before "project" then service.projects.map Prod.fst else []) ++
    if mentions before "language" then service.registry.available else []

def namesFor (service : Service) (before word : List Char) : List Suggestion :=
  (if mentions before "project" then nameSuggestions "Project" (service.projects.map Prod.fst) word else []) ++
    if mentions before "language" then nameSuggestions "Language" service.registry.available word else []

/-- The settings whose names start with a word can be read. -/
structure Readable (settings : Settings) (word : List Char) : Prop where
  cacheEnabled : word <+: "cache_enabled".toList → ∃ value, settings.cacheEnabled = .ok value
  maxFileSizeMb : word <+: "max_file_size_mb".toList → ∃ value, settings.maxFileSizeMb = .ok value

theorem suggestionsFor_of_ne_nil (service : Service) (nonempty : word ≠ []) :
    suggestionsFor service before word =
      (if mentions before "config" then settingSuggestions service.settings word else .ok []).map
        (namesFor service before word ++ ·) := by
  have filled : word.isEmpty = false := List.isEmpty_eq_false_iff.mpr nonempty
  rw [suggestionsFor, filled]
  cases mentions before "config" with
  | true => rfl
  | false => rfl

theorem texts_nameSuggestions (label : String) (names : List String) (word : List Char) :
    (nameSuggestions label names word).map Suggestion.text =
      names.filter fun name => word.isPrefixOf name.toList := by
  rw [nameSuggestions, List.map_map]
  exact List.map_id _

theorem texts_namesFor (service : Service) (before word : List Char) :
    (namesFor service before word).map Suggestion.text =
      (mentionedNames service before).filter fun name => word.isPrefixOf name.toList := by
  rw [namesFor, mentionedNames, List.map_append, List.filter_append]
  congr 1
  · split
    · exact texts_nameSuggestions _ _ _
    · rfl
  · split
    · exact texts_nameSuggestions _ _ _
    · rfl

theorem startsWith_of_mem_namesFor {service : Service} {suggestion : Suggestion}
    (member : suggestion ∈ namesFor service before word) : word <+: suggestion.text.toList := by
  have listed := List.mem_map_of_mem (f := Suggestion.text) member
  rw [texts_namesFor] at listed
  exact List.isPrefixOf_iff_prefix.mp (List.mem_filter.mp listed).2

theorem startsWith_of_mem_settingSuggestions {settings : Settings} {found : List Suggestion}
    (done : settingSuggestions settings word = .ok found) {suggestion : Suggestion} (member : suggestion ∈ found) :
    word <+: suggestion.text.toList := by
  obtain ⟨field, among, gives⟩ := Outcome.exists_of_mem_mapM done member
  obtain ⟨description, -, same⟩ := Outcome.bind_eq_ok_iff.mp gives
  cases same
  exact List.isPrefixOf_iff_prefix.mp (List.mem_filter.mp among).2

theorem exists_value_of_told {outcome : Except Fault Value} {tell : Value → Except Fault String}
    {suggest : String → Except Fault Suggestion} {suggestion : Suggestion}
    (told : (outcome >>= tell) >>= suggest = .ok suggestion) : ∃ value, outcome = .ok value := by
  obtain ⟨description, read, -⟩ := Outcome.bind_eq_ok_iff.mp told
  obtain ⟨value, holds, -⟩ := Outcome.bind_eq_ok_iff.mp read
  exact ⟨value, holds⟩

theorem exists_settingSuggestions_iff {settings : Settings} :
    (∃ found, settingSuggestions settings word = .ok found) ↔ Readable settings word := by
  rw [settingSuggestions, Outcome.exists_mapM_iff]
  constructor
  · intro told
    constructor
    · intro front
      obtain ⟨suggestion, gives⟩ := told _ (List.mem_filter.mpr
        ⟨List.mem_cons_self, List.isPrefixOf_iff_prefix.mpr front⟩)
      exact exists_value_of_told gives
    · intro front
      obtain ⟨suggestion, gives⟩ := told _ (List.mem_filter.mpr
        ⟨List.mem_cons_of_mem _ List.mem_cons_self, List.isPrefixOf_iff_prefix.mpr front⟩)
      exact exists_value_of_told gives
  · intro readable field member
    obtain ⟨among, fits⟩ := List.mem_filter.mp member
    have front := List.isPrefixOf_iff_prefix.mp fits
    simp only [settingTexts, List.mem_cons, List.not_mem_nil, or_false] at among
    rcases among with rfl | rfl | rfl
    · obtain ⟨value, holds⟩ := readable.cacheEnabled front
      exact ⟨_, by rw [holds]; rfl⟩
    · obtain ⟨value, holds⟩ := readable.maxFileSizeMb front
      exact ⟨_, by rw [holds]; rfl⟩
    · exact ⟨_, rfl⟩

theorem startsWith_of_suggestionsFor {service : Service} {found : List Suggestion}
    (done : suggestionsFor service before word = .ok found) {suggestion : Suggestion}
    (member : suggestion ∈ found) : word <+: suggestion.text.toList := by
  by_cases empty : word = []
  · rw [empty]
    exact List.nil_prefix
  · rw [suggestionsFor_of_ne_nil service empty] at done
    obtain ⟨settings, told, rfl⟩ := Outcome.map_eq_ok_iff.mp done
    rcases List.mem_append.mp member with name | setting
    · exact startsWith_of_mem_namesFor name
    · split at told
      · exact startsWith_of_mem_settingSuggestions told setting
      · cases told
        cases setting

theorem exists_suggestionsFor_iff (service : Service) :
    (∃ found, suggestionsFor service before word = .ok found ∧
        ∀ suggestion ∈ found, word <+: suggestion.text.toList) ↔
      (mentions before "config" = true → word ≠ [] → Readable service.settings word) := by
  have starts : (∃ found, suggestionsFor service before word = .ok found ∧
      ∀ suggestion ∈ found, word <+: suggestion.text.toList) ↔
      ∃ found, suggestionsFor service before word = .ok found := by
    apply exists_congr
    intro found
    exact and_iff_left_of_imp fun done suggestion => startsWith_of_suggestionsFor done
  rw [starts]
  by_cases empty : word = []
  · subst empty
    exact ⟨fun _ _ filled => absurd rfl filled, fun _ => ⟨[], rfl⟩⟩
  · rw [suggestionsFor_of_ne_nil service empty, ← exists_settingSuggestions_iff]
    simp only [Outcome.map_eq_ok_iff]
    cases mentions before "config" with
    | true => simp [empty]
    | false => simp

end Suggestions

/-! Words that have been continued from the end of the text. -/

section Continued

variable {trail before : List Char} {service : Service}

theorem underscores_of_repeating (nonempty : trail ≠ []) (only : ∀ c ∈ trail, c = '_')
    (front : before <+: trail ++ before) : ∀ c ∈ before, c = '_' := by
  induction before generalizing trail with
  | nil => exact fun _ member => absurd member List.not_mem_nil
  | cons first rest ih =>
      obtain ⟨head, others, rfl⟩ := List.exists_cons_of_ne_nil nonempty
      rw [List.cons_append, List.cons_prefix_cons] at front
      obtain ⟨rfl, later⟩ := front
      -- What is left repeats after the other underscores and the one that is its own first.
      have shifted : rest <+: (others ++ [first]) ++ rest := by rwa [List.append_assoc]
      have remaining := ih (by simp) (fun c member => only c (by grind)) shifted
      exact List.forall_mem_cons.mpr ⟨only first List.mem_cons_self, remaining⟩

theorem not_underscores_of_mentionedNames {name : String} (among : name ∈ mentionedNames service before) :
    ¬ ∀ c ∈ before, c = '_' := by
  intro only
  have project := not_mentions_of_underscores "project" 'p' (by decide) (by decide) only
  have language := not_mentions_of_underscores "language" 'l' (by decide) (by decide) only
  rw [mentionedNames, project, language] at among
  cases among

theorem settingSuggestions_continued (settings : Settings) (nonempty : trail ≠ []) (only : ∀ c ∈ trail, c = '_') :
    settingSuggestions settings (trail ++ before) = .ok [] := by
  obtain ⟨head, others, rfl⟩ := List.exists_cons_of_ne_nil nonempty
  obtain rfl := only head List.mem_cons_self
  rfl

/-- A word that has been continued is not the one at the position, unless nothing is suggested for it. -/
theorem exists_continued_iff (nonempty : trail ≠ []) (only : ∀ c ∈ trail, c = '_') :
    (∃ found, suggestionsFor service before (trail ++ before) = .ok found ∧
        ∀ suggestion ∈ found, before <+: suggestion.text.toList) ↔
      ∀ name ∈ mentionedNames service before, ¬ trail ++ before <+: name.toList := by
  have result : suggestionsFor service before (trail ++ before) =
      .ok (namesFor service before (trail ++ before)) := by
    rw [suggestionsFor_of_ne_nil service (List.append_ne_nil_of_left_ne_nil nonempty before),
      settingSuggestions_continued _ nonempty only, ite_self]
    exact congrArg Except.ok (List.append_nil _)
  rw [result]
  constructor
  · intro sound name among front
    obtain ⟨found, same, starts⟩ := sound
    cases same
    have listed : name ∈ (namesFor service before (trail ++ before)).map Suggestion.text := by
      rw [texts_namesFor]
      exact List.mem_filter.mpr ⟨among, List.isPrefixOf_iff_prefix.mpr front⟩
    obtain ⟨suggestion, member, rfl⟩ := List.mem_map.mp listed
    have repeats := List.prefix_of_prefix_length_le (starts suggestion member) front (by simp)
    exact not_underscores_of_mentionedNames among (underscores_of_repeating nonempty only repeats)
  · intro unfit
    refine ⟨_, rfl, fun suggestion member => ?_⟩
    have listed := List.mem_map_of_mem (f := Suggestion.text) member
    rw [texts_namesFor] at listed
    obtain ⟨among, front⟩ := List.mem_filter.mp listed
    exact absurd (List.isPrefixOf_iff_prefix.mp front) (unfit _ among)

theorem readable_of_mentions (spoken : mentions before "config" = true) (settings : Settings) :
    Readable settings before := by
  have apart (name : String) (small : name.toList.all isSmall = true) (absent : 'g' ∉ name.toList) :
      ¬ before <+: name.toList := by
    intro front
    rw [not_mentions_config small absent front] at spoken
    cases spoken
  constructor
  · intro front
    exact absurd front (apart _ (by decide) (by decide))
  · intro front
    exact absurd front (apart _ (by decide) (by decide))

end Continued

theorem run_complete (text : String) (position : Nat) (service : Service) :
    (complete text position).run service =
      (wordBefore text.toList (position - 1) [] >>= suggestionsFor service (text.toList.take position), service) := by
  have before : textBefore text.toList position = text.toList.take position := by
    rw [textBefore, placeOf_natCast, Int.toNat_natCast]
  rw [complete, Action.run_bind, Action.run_get]
  change Action.run (Action.lift _ >>= _) service = _
  rw [Action.run_bind, Action.run_lift, before]
  cases wordBefore text.toList (position - 1) [] with
  | error fault => rfl
  | ok word => rfl

theorem IsLastWord.eq_of_underscores {before word : List Char} (last : IsLastWord before word)
    (only : ∀ c ∈ before, c = '_') : word = before := by
  rw [last.eq_rtakeWhile, List.rtakeWhile_eq_self_iff]
  intro c member
  rw [only c member]
  decide

/-- Completion gives suggestions that start with the word at a position if three things hold: the text is
not made of underscores only, the settings that are suggested can be read, and, if the word begins where the
text begins, no name starts with the word after the underscores at the end of the text. -/
theorem complete_sound_iff {text : String} {position : Nat} {word : List Char}
    (inside : position ≤ text.toList.length) (last : IsLastWord (text.toList.take position) word)
    (service : Service) :
    ((∃ found, (complete text position).run service = (.ok found, service) ∧
        ∀ suggestion ∈ found, word <+: suggestion.text.toList) ↔
      (∃ c ∈ text.toList, c ≠ '_') ∧
      (mentions (text.toList.take position) "config" = true → word ≠ [] → Readable service.settings word) ∧
      (word = text.toList.take position → trailing text.toList ≠ [] →
        ∀ name ∈ mentionedNames service (text.toList.take position),
          ¬ trailing text.toList ++ word <+: name.toList)) ∧
    ((∀ c ∈ text.toList, c = '_') →
      (complete text position).run service = (.error (.indexOutside "string"), service)) := by
  rw [run_complete, wordBefore_eq inside last]
  simp only [Prod.mk.injEq, and_true]
  have underscores : text.toList.all (· == '_') = true ↔ ∀ c ∈ text.toList, c = '_' := by
    simp only [List.all_eq_true, beq_iff_eq]
  by_cases only : ∀ c ∈ text.toList, c = '_'
  · have start := last.eq_of_underscores fun c member => only c (List.mem_of_mem_take member)
    rw [if_pos start, if_pos (underscores.mpr only), Outcome.error_bind]
    refine ⟨⟨?_, ?_⟩, fun _ => rfl⟩
    · intro sound
      obtain ⟨found, same, -⟩ := sound
      cases same
    · intro conditions
      obtain ⟨⟨c, member, different⟩, -⟩ := conditions
      exact absurd (only c member) different
  · have other : ∃ c ∈ text.toList, c ≠ '_' := by simpa using only
    refine ⟨?_, fun all => absurd all only⟩
    rw [and_iff_right other]
    by_cases start : word = text.toList.take position
    · rw [if_pos start, if_neg (mt underscores.mp only), Outcome.ok_bind]
      subst start
      by_cases ends : trailing text.toList = []
      · rw [ends, List.nil_append, exists_suggestionsFor_iff]
        simp
      · rw [exists_continued_iff ends fun c => eq_of_mem_trailing]
        constructor
        · intro unfit
          exact ⟨fun spoken _ => readable_of_mentions spoken service.settings, fun _ _ => unfit⟩
        · intro conditions
          exact conditions.2 rfl ends
    · rw [if_neg start, Outcome.ok_bind, exists_suggestionsFor_iff]
      simp [start]

def underscored : Service := { projects := [("_project_x", default)] }

/-- The underscore at the end of a text is put before the word, so that a name is suggested that does not
start with it; and there is no way back from a lone underscore. -/
theorem complete_after_underscore :
    (8 ≤ "project_".toList.length ∧ IsLastWord ("project_".toList.take 8) "project_".toList ∧
      ¬ ∃ found, (complete "project_" 8).run underscored = (.ok found, underscored) ∧
        ∀ suggestion ∈ found, "project_".toList <+: suggestion.text.toList) ∧
    1 ≤ "_".toList.length ∧ IsLastWord ("_".toList.take 1) "_".toList ∧
      (complete "_" 1).run underscored = (.error (.indexOutside "string"), underscored) := by
  have word : IsLastWord ("project_".toList.take 8) "project_".toList := isLastWord_rtakeWhile "project_".toList
  have lone : IsLastWord ("_".toList.take 1) "_".toList := isLastWord_rtakeWhile "_".toList
  have only : ∀ c ∈ "_".toList, c = '_' := fun c member => List.mem_singleton.mp member
  refine ⟨⟨by decide, word, ?_⟩, by decide, lone, (complete_sound_iff (by decide) lone underscored).2 only⟩
  intro sound
  obtain ⟨-, -, unfit⟩ := (complete_sound_iff (by decide) word underscored).1.mp sound
  have among : "_project_x" ∈ mentionedNames underscored ("project_".toList.take 8) :=
    List.mem_append_left _ List.mem_cons_self
  exact unfit rfl (by decide) "_project_x" among (by decide)

end Arborist.Server
