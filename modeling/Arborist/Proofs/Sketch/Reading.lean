import Arborist.Language.Template
import Arborist.Proofs.Outcome
import Arborist.Proofs.Sketch.Matching
import Arborist.Proofs.Sketch.Spelling

/-!
Reading a query back.  From any text that spells the tokens of patterns, these patterns are read and no token
is left over; and texts that are put together read as their patterns together.
-/

namespace Arborist.Sketch

/-! Patterns and their tokens. -/

/-- A text of letters, digits and underscores. -/
structure IsKind (kind : String) : Prop where
  nonempty : kind.toList ≠ []
  chars : ∀ c ∈ kind.toList, Text.isWord c = true

theorem isKind_iff (kind : String) :
    kind.toList.isEmpty = false ∧ kind.toList.all Text.isWord = true ↔ IsKind kind := by
  rw [List.isEmpty_eq_false_iff, List.all_eq_true]
  exact ⟨fun holds => ⟨holds.1, holds.2⟩, fun isKind => ⟨isKind.nonempty, isKind.chars⟩⟩

instance (kind : String) : Decidable (IsKind kind) := decidable_of_iff _ (isKind_iff kind)

theorem IsKind.isName {kind : String} (isKind : IsKind kind) : IsName kind where
  nonempty := isKind.nonempty
  chars c member := by rw [isNameChar, isKind.chars c member, Bool.true_or]

theorem IsKind.isPredicate_word {kind : String} (isKind : IsKind kind) :
    (QueryToken.word kind).isPredicate = false := by
  rw [QueryToken.isPredicate, beq_eq_false_iff_ne]
  intro first
  have sharp := isKind.chars '#' (List.mem_of_mem_head? first)
  revert sharp
  decide

namespace Pattern

/-- A pattern whose kinds, captures and fields can be written. -/
inductive Formed : Pattern → Prop where
  | mk {pattern : Pattern} (kind : IsKind pattern.kind) (capture : ∀ name ∈ pattern.capture, IsName name)
      (field : ∀ name ∈ pattern.field, IsName name) (parts : ∀ part ∈ pattern.children, part.Formed) :
      Formed pattern

theorem Formed.isKind {pattern : Pattern} (formed : pattern.Formed) : IsKind pattern.kind := by
  cases formed with
  | mk kind capture field parts => exact kind

def ending (capture : Option String) : List QueryToken := .close :: capture.toList.map .capture

mutual

/-- The tokens of a pattern, which may stand behind the field that it fills. -/
def tokens : Pattern → List QueryToken
  | .mk kind capture field children =>
    field.toList.map .field ++ .open :: .word kind :: (tokensAll children ++ ending capture)

def tokensAll : List Pattern → List QueryToken
  | [] => []
  | pattern :: rest => tokens pattern ++ tokensAll rest

end

theorem tokensAll_eq_flatMap (patterns : List Pattern) : tokensAll patterns = patterns.flatMap tokens := by
  induction patterns with
  | nil => rfl
  | cons pattern rest ih => rw [tokensAll, ih, List.flatMap_cons]

def inner (pattern : Pattern) : List QueryToken :=
  .word pattern.kind :: (pattern.children.flatMap tokens ++ ending pattern.capture)

theorem tokens_eq (pattern : Pattern) :
    pattern.tokens = pattern.field.toList.map .field ++ .open :: pattern.inner := by
  obtain ⟨kind, capture, field, children⟩ := pattern
  rw [tokens, tokensAll_eq_flatMap]
  rfl

theorem Formed.plain {pattern : Pattern} (formed : pattern.Formed) : ∀ token ∈ pattern.tokens, token.Plain := by
  induction formed with
  | @mk pattern kind capture field parts ih =>
      rw [tokens_eq, inner, ending, List.forall_mem_append, List.forall_mem_cons, List.forall_mem_cons,
        List.forall_mem_append, List.forall_mem_cons]
      refine ⟨?_, trivial, kind.isName, ?_, trivial, ?_⟩
      · intro token member
        obtain ⟨name, filled, rfl⟩ := List.mem_map.mp member
        exact field name (Option.mem_toList.mp filled)
      · intro token member
        obtain ⟨part, among, inside⟩ := List.mem_flatMap.mp member
        exact ih part among token inside
      · intro token member
        obtain ⟨name, marked, rfl⟩ := List.mem_map.mp member
        exact capture name (Option.mem_toList.mp marked)

end Pattern

/-! Reading tokens. -/

/-- No capture follows, which would be taken for one of the pattern before. -/
def Uncaptured (rest : List QueryToken) : Prop := ∀ name, rest.head? ≠ some (.capture name)

theorem readParts_ending {draft : Draft} (unmarked : draft.capture = none) {capture : Option String}
    {rest : List QueryToken} (free : capture = none → Uncaptured rest) (fuel : Nat) :
    readParts (fuel + 1) draft (Pattern.ending capture ++ rest) = .ok (draft.pattern capture, rest) := by
  cases capture with
  | some name =>
      change readParts (fuel + 1) draft (.close :: .capture name :: rest) = _
      rw [readParts]
  | none =>
      change readParts (fuel + 1) draft (.close :: rest) = _
      rw [readParts]
      · rw [unmarked]
      · rintro name more rfl
        exact free rfl name rfl

theorem readParts_field {draft : Draft} (settled : draft.pending = none) (field : Option String)
    (tokens : List QueryToken) (fuel : Nat) :
    readParts (fuel + field.toList.length) draft (field.toList.map .field ++ tokens) =
      readParts fuel { draft with pending := field } tokens := by
  cases field with
  | none =>
      have same : { draft with pending := none } = draft := by
        cases draft
        cases settled
        rfl
      rw [same]
      rfl
  | some name =>
      rw [Option.toList_some, List.map_singleton, List.singleton_append, List.length_singleton, readParts]

theorem readParts_open {draft : Draft} {kind : String} (isKind : IsKind kind) {rest after : List QueryToken}
    {fuel : Nat} {child : Pattern}
    (read : readPattern fuel draft.pending (.word kind :: rest) = .ok (child, after)) :
    readParts (fuel + 1) draft (.open :: .word kind :: rest) =
      readParts fuel { draft with children := child :: draft.children, pending := none } after := by
  rw [readParts]
  dsimp only
  rw [if_neg (Bool.eq_false_iff.mp isKind.isPredicate_word), read]
  rfl

namespace Pattern

/-- From its tokens a pattern is read, and what follows is left. -/
def ReadsBack (pattern : Pattern) : Prop :=
  ∀ fuel rest, pattern.inner.length ≤ fuel → (pattern.capture = none → Uncaptured rest) →
    readPattern fuel pattern.field (pattern.inner ++ rest) = .ok (pattern, rest)

theorem uncaptured_tokens_append (patterns : List Pattern) {rest : List QueryToken} (free : Uncaptured rest) :
    Uncaptured (patterns.flatMap tokens ++ rest) := by
  cases patterns with
  | nil => exact free
  | cons pattern others =>
      rw [List.flatMap_cons, tokens_eq]
      cases pattern.field <;> nofun

/-- Parts are added to a draft one by one until it is closed. -/
theorem readParts_children {children : List Pattern}
    (each : ∀ child ∈ children, child.ReadsBack ∧ IsKind child.kind) {draft : Draft}
    (settled : draft.pending = none) (unmarked : draft.capture = none) {capture : Option String}
    {rest : List QueryToken} (free : capture = none → Uncaptured rest) {fuel : Nat}
    (enough : (children.flatMap tokens ++ ending capture).length ≤ fuel) :
    readParts fuel draft (children.flatMap tokens ++ (ending capture ++ rest)) =
      .ok (.mk draft.kind capture draft.field (draft.children.reverse ++ children), rest) := by
  induction children generalizing draft fuel with
  | nil =>
      rw [List.flatMap_nil, List.nil_append, ending, List.length_cons] at enough
      obtain ⟨left, rfl⟩ : ∃ left, fuel = left + 1 := ⟨fuel - 1, by omega⟩
      rw [List.flatMap_nil, List.nil_append, readParts_ending unmarked free, List.append_nil]
      rfl
  | cons child others ih =>
      obtain ⟨⟨reads, isKind⟩, later⟩ := List.forall_mem_cons.mp each
      rw [List.flatMap_cons, tokens_eq, List.append_assoc, List.append_assoc, List.length_append,
        List.cons_append, List.length_cons, List.length_append, List.length_map] at enough
      obtain ⟨left, rfl⟩ : ∃ left, fuel = (left + 1) + child.field.toList.length :=
        ⟨fuel - child.field.toList.length - 1, by omega⟩
      -- what follows a child is another one or the parenthesis, so that no capture is taken from its parent
      have read := reads left (others.flatMap tokens ++ (ending capture ++ rest)) (by omega)
        (fun _ => uncaptured_tokens_append others nofun)
      rw [inner, List.cons_append] at read
      rw [List.flatMap_cons, tokens_eq, List.append_assoc, List.append_assoc, readParts_field settled,
        List.cons_append, inner, List.cons_append, readParts_open isKind read]
      have grown : (child :: draft.children).reverse ++ others = draft.children.reverse ++ child :: others := by
        rw [List.reverse_cons, List.append_assoc, List.singleton_append]
      rw [← grown]
      exact @ih later { draft with children := child :: draft.children, pending := none } rfl unmarked left (by omega)

theorem Formed.readsBack {pattern : Pattern} (formed : pattern.Formed) : pattern.ReadsBack := by
  induction formed with
  | @mk pattern kind capture field parts ih =>
      obtain ⟨kind, capture, field, children⟩ := pattern
      intro fuel rest enough free
      rw [inner, List.length_cons] at enough
      obtain ⟨left, rfl⟩ : ∃ left, fuel = left + 1 := ⟨fuel - 1, by omega⟩
      rw [inner, List.cons_append, List.append_assoc, readPattern]
      refine readParts_children ?_ rfl rfl free (by omega)
      intro child member
      exact ⟨ih child member, (parts child member).isKind⟩

end Pattern

/-! Reading queries. -/

/-- Patterns that can be written and of which none fills a field, as is so at the top. -/
def IsQuery (patterns : List Pattern) : Prop := ∀ pattern ∈ patterns, pattern.Formed ∧ pattern.field = none

theorem readPatterns_open {kind : String} (isKind : IsKind kind) {rest after : List QueryToken} {pattern : Pattern}
    (read : readPattern (2 * (rest.length + 1) + 2) none (.word kind :: rest) = .ok (pattern, after)) (fuel : Nat) :
    readPatterns (fuel + 1) (.open :: .word kind :: rest) =
      (readPatterns fuel after).map fun found => (pattern :: found.1, found.2) := by
  rw [readPatterns]
  dsimp only [List.length_cons]
  rw [if_neg (Bool.eq_false_iff.mp isKind.isPredicate_word), read, Outcome.ok_bind]
  cases readPatterns fuel after <;> rfl

theorem IsQuery.readPatterns_tokens {patterns : List Pattern} (query : IsQuery patterns) {fuel : Nat}
    (enough : (patterns.flatMap Pattern.tokens).length ≤ fuel) :
    readPatterns fuel (patterns.flatMap Pattern.tokens) = .ok (patterns, []) := by
  induction patterns generalizing fuel with
  | nil => cases fuel <;> rfl
  | cons pattern others ih =>
      obtain ⟨⟨formed, outer⟩, later⟩ := List.forall_mem_cons.mp query
      rw [List.flatMap_cons, Pattern.tokens_eq, outer, Option.toList_none, List.map_nil, List.nil_append,
        List.cons_append] at enough ⊢
      rw [List.length_cons, List.length_append] at enough
      obtain ⟨left, rfl⟩ : ∃ left, fuel = left + 1 := ⟨fuel - 1, by omega⟩
      have read := formed.readsBack (2 * (pattern.inner ++ others.flatMap Pattern.tokens).length + 2)
        (others.flatMap Pattern.tokens) (by rw [List.length_append]; omega) ?_
      · rw [outer, Pattern.inner, List.cons_append, List.length_cons] at read
        rw [Pattern.inner, List.cons_append, readPatterns_open formed.isKind read, ih later (by omega)]
        rfl
      · intro _
        rw [← List.append_nil (others.flatMap Pattern.tokens)]
        exact Pattern.uncaptured_tokens_append others nofun

/-! Texts of queries. -/

/-- The text is one of those in which the patterns can be written. -/
structure Writes (patterns : List Pattern) (text : String) : Prop where
  query : IsQuery patterns
  spelled : Spells (patterns.flatMap Pattern.tokens) text.toList

namespace Writes

variable {patterns : List Pattern} {text : String}

theorem plain (written : Writes patterns text) : ∀ token ∈ patterns.flatMap Pattern.tokens, token.Plain := by
  intro token member
  obtain ⟨pattern, among, inside⟩ := List.mem_flatMap.mp member
  exact (written.query pattern among).1.plain token inside

theorem queryTokens_eq (written : Writes patterns text) : queryTokens text = patterns.flatMap Pattern.tokens :=
  written.spelled.queryTokens_eq written.plain

theorem readText_eq (written : Writes patterns text) : readText text = .ok (patterns, []) := by
  rw [readText, written.queryTokens_eq]
  exact written.query.readPatterns_tokens (Nat.le_succ _)

theorem eq_nil (written : Writes patterns "") : patterns = [] := by
  have none := written.spelled.eq_nil written.plain
  cases patterns with
  | nil => rfl
  | cons pattern others =>
      have opened : QueryToken.open ∈ pattern.tokens := by
        rw [Pattern.tokens_eq]
        exact List.mem_append_right _ List.mem_cons_self
      have member : QueryToken.open ∈ (pattern :: others).flatMap Pattern.tokens :=
        List.mem_flatMap.mpr ⟨pattern, List.mem_cons_self, opened⟩
      rw [none] at member
      cases member

theorem append {others : List Pattern} {more : String} (first : Writes patterns text)
    (second : Writes others more) : Writes (patterns ++ others) (text ++ "\n" ++ more) where
  query := List.forall_mem_append.mpr ⟨first.query, second.query⟩
  spelled := by
    rw [List.flatMap_append, String.toList_append, String.toList_append, List.append_assoc]
    exact first.spelled.append second.spelled

end Writes

theorem writes_joinLines {queries : List (List Pattern × String)}
    (each : ∀ query ∈ queries, Writes query.1 query.2) :
    Writes (queries.flatMap Prod.fst) (Text.joinLines (queries.map Prod.snd)) := by
  induction queries with
  | nil => exact ⟨nofun, .blank nofun⟩
  | cons query others ih =>
      obtain ⟨here, later⟩ := List.forall_mem_cons.mp each
      cases others with
      | nil =>
          rw [List.flatMap_singleton, Text.joinLines, List.map_singleton, String.intercalate_singleton]
          exact here
      | cons next more =>
          have joined := here.append (ih later)
          rw [Text.joinLines, List.map_cons, List.map_cons, String.intercalate_cons_cons]
          exact joined

theorem flatMap_filter_of_nil {items : List α} {keep : α → Bool} {parts : α → List β}
    (dropped : ∀ item ∈ items, keep item = false → parts item = []) :
    (items.filter keep).flatMap parts = items.flatMap parts := by
  induction items with
  | nil => rfl
  | cons item others ih =>
      obtain ⟨here, later⟩ := List.forall_mem_cons.mp dropped
      cases kept : keep item with
      | true => rw [List.filter_cons_of_pos kept, List.flatMap_cons, ih later, List.flatMap_cons]
      | false =>
          rw [List.filter_cons_of_neg (Bool.eq_false_iff.mp kept), ih later, List.flatMap_cons, here kept,
            List.nil_append]

theorem compoundQuery_eq_joinLines {language combine : String} (any : Text.lowerString combine = "or")
    {texts : List String} (unnamed : ∀ text ∈ texts, template? language text = none) :
    compoundQuery language texts combine = Text.joinLines (texts.filter fun text => !text.isEmpty) := by
  have same : texts.map (templateOr language) = texts := by
    rw [List.map_congr_left, List.map_id']
    intro text member
    rw [templateOr, unnamed text member, Option.getD_none]
  rw [compoundQuery, same, any]
  rfl

theorem writes_compoundQuery {language combine : String} (any : Text.lowerString combine = "or")
    {queries : List (List Pattern × String)} (each : ∀ query ∈ queries, Writes query.1 query.2)
    (unnamed : ∀ query ∈ queries, template? language query.2 = none) :
    Writes (queries.flatMap Prod.fst) (compoundQuery language (queries.map Prod.snd) combine) := by
  have kept : (queries.filter fun query => !query.2.isEmpty).flatMap Prod.fst = queries.flatMap Prod.fst := by
    apply flatMap_filter_of_nil
    intro query member empty
    have written := each query member
    rw [Bool.not_eq_false', String.isEmpty_iff] at empty
    rw [empty] at written
    exact written.eq_nil
  rw [compoundQuery_eq_joinLines any (List.forall_mem_map.mpr unnamed), List.filter_map, ← kept]
  apply writes_joinLines
  intro query member
  exact each query (List.mem_of_mem_filter member)

/-! The usual text of a query. -/

namespace Pattern

def writtenField : Option String → String
  | none => ""
  | some name => name ++ ": "

def writtenCapture : Option String → String
  | none => ""
  | some name => " @" ++ name

mutual

/-- A pattern as it is usually written, with a blank before each part. -/
def written : Pattern → String
  | .mk kind capture field children =>
    writtenField field ++ ("(" ++ (kind ++ (writtenAll children ++ (")" ++ writtenCapture capture))))

def writtenAll : List Pattern → String
  | [] => ""
  | pattern :: rest => " " ++ (written pattern ++ writtenAll rest)

end

theorem allBlank_space : Text.AllBlank [' '] := List.forall_mem_singleton.mpr (by decide)

theorem ended_cons {c : Char} (mark : isNameChar c = false) (rest : List Char) : Ended (c :: rest) := by
  intro d first
  cases first
  exact mark

theorem spells_capture (capture : Option String) {others : List QueryToken} {rest : List Char} (ended : Ended rest)
    (spelled : Spells others rest) :
    Spells (capture.toList.map .capture ++ others) ((writtenCapture capture).toList ++ rest) := by
  cases capture with
  | none => exact spelled
  | some name =>
      have marked : Spells (.capture name :: others) _ := .cons (fun _ => ended) spelled
      have apart := marked.blank_append allBlank_space
      rw [QueryToken.text, String.toList_append, List.append_assoc] at apart
      rw [writtenCapture, String.toList_append, List.append_assoc]
      exact apart

theorem spells_field (field : Option String) {others : List QueryToken} {rest : List Char}
    (spelled : Spells others rest) :
    Spells (field.toList.map .field ++ others) ((writtenField field).toList ++ rest) := by
  cases field with
  | none => exact spelled
  | some name =>
      have filled : Spells (.field name :: others) _ := .cons nofun (spelled.blank_append allBlank_space)
      rw [QueryToken.text, String.toList_append, List.append_assoc] at filled
      rw [writtenField, String.toList_append, List.append_assoc]
      exact filled

def SpelledAhead (pattern : Pattern) : Prop :=
  ∀ others rest, Ended rest → Spells others rest →
    Spells (pattern.tokens ++ others) (pattern.written.toList ++ rest)

theorem ended_writtenAll (patterns : List Pattern) {rest : List Char} (ended : Ended rest) :
    Ended ((writtenAll patterns).toList ++ rest) := by
  cases patterns with
  | nil => exact ended
  | cons pattern others =>
      rw [writtenAll, String.toList_append]
      exact ended_cons (by decide) _

theorem spells_writtenAll {patterns : List Pattern} (each : ∀ pattern ∈ patterns, pattern.SpelledAhead)
    {others : List QueryToken} {rest : List Char} (ended : Ended rest) (spelled : Spells others rest) :
    Spells (patterns.flatMap tokens ++ others) ((writtenAll patterns).toList ++ rest) := by
  induction patterns with
  | nil => exact spelled
  | cons pattern more ih =>
      obtain ⟨here, later⟩ := List.forall_mem_cons.mp each
      rw [List.flatMap_cons, List.append_assoc, writtenAll, String.toList_append, String.toList_append,
        List.append_assoc, List.append_assoc]
      apply Spells.blank_append allBlank_space
      exact here _ _ (ended_writtenAll more ended) (ih later)

theorem Formed.spelledAhead {pattern : Pattern} (formed : pattern.Formed) : pattern.SpelledAhead := by
  induction formed with
  | @mk pattern _ _ _ _ ih =>
      obtain ⟨kind, capture, field, children⟩ := pattern
      intro others rest ended spelled
      -- from the last token to the first, since a name must know what follows it
      have closed : Spells (.close :: _) _ := .cons nofun (spells_capture capture ended spelled)
      have bounded : Ended (")".toList ++ ((writtenCapture capture).toList ++ rest)) := ended_cons (by decide) _
      have filled := spells_writtenAll ih bounded closed
      have named : Spells (.word kind :: _) _ := .cons (fun _ => ended_writtenAll children bounded) filled
      have opened : Spells (.open :: _) _ := .cons nofun named
      have fielded := spells_field field opened
      rw [tokens_eq, inner, written]
      simp only [String.toList_append, List.append_assoc, List.cons_append]
      exact fielded

end Pattern

/-- Patterns as they are usually written, each on lines of its own. -/
def written (patterns : List Pattern) : String := Text.joinLines (patterns.map Pattern.written)

theorem writes_written {patterns : List Pattern} (query : IsQuery patterns) : Writes patterns (written patterns) := by
  have each : ∀ single ∈ patterns.map fun pattern => ([pattern], pattern.written), Writes single.1 single.2 := by
    rw [List.forall_mem_map]
    intro pattern member
    refine ⟨List.forall_mem_singleton.mpr (query pattern member), ?_⟩
    have spelled := (query pattern member).1.spelledAhead [] [] nofun (.blank nofun)
    rw [List.append_nil, List.append_nil] at spelled
    rw [List.flatMap_singleton]
    exact spelled
  have joined := writes_joinLines each
  rw [List.map_map, List.flatMap_map, List.flatMap_singleton'] at joined
  exact joined

/-- Patterns, however nested, are read back from their usual text and from any other in which they can be
written, and no token is left; from several texts put together, all their patterns are read in order. -/
theorem queries_read_back :
    (∀ patterns, IsQuery patterns → Writes patterns (written patterns)) ∧
    (∀ patterns text, Writes patterns text →
      queryTokens text = patterns.flatMap Pattern.tokens ∧ readText text = .ok (patterns, [])) ∧
    ∀ language combine, Text.lowerString combine = "or" → ∀ queries : List (List Pattern × String),
      (∀ query ∈ queries, Writes query.1 query.2 ∧ template? language query.2 = none) →
        readText (compoundQuery language (queries.map Prod.snd) combine) = .ok (queries.flatMap Prod.fst, []) := by
  refine ⟨?usual, ?single, ?compound⟩
  case usual =>
    intro patterns query
    exact writes_written query
  case single =>
    intro patterns text written
    exact ⟨written.queryTokens_eq, written.readText_eq⟩
  case compound =>
    intro language combine any queries each
    obtain ⟨written, unnamed⟩ := forall₂_and.mp each
    exact (writes_compoundQuery any written unnamed).readText_eq

def sampleQuery : List Pattern := [
  .mk "function_definition" (some "def") none [
    .mk "identifier" (some "def.name") (some "name") [],
    .mk "block" none (some "body") [.mk "_" none none []]],
  .mk "class_definition" none none []]

example : written sampleQuery =
    "(function_definition name: (identifier) @def.name body: (block (_))) @def\n(class_definition)" := by
  decide +kernel

theorem isQuery_sampleQuery : IsQuery sampleQuery := by
  have any : (Pattern.mk "_" none none []).Formed := .mk (by decide +kernel) nofun nofun nofun
  have name : (Pattern.mk "identifier" (some "def.name") (some "name") []).Formed :=
    .mk (by decide +kernel) (by decide +kernel) (by decide +kernel) nofun
  have body : (Pattern.mk "block" none (some "body") [.mk "_" none none []]).Formed :=
    .mk (by decide +kernel) nofun (by decide +kernel) (List.forall_mem_singleton.mpr any)
  refine List.forall_mem_cons.mpr ⟨⟨?nested, rfl⟩, List.forall_mem_singleton.mpr ⟨?bare, rfl⟩⟩
  case nested =>
    refine .mk (by decide +kernel) (by decide +kernel) nofun ?_
    exact List.forall_mem_cons.mpr ⟨name, List.forall_mem_singleton.mpr body⟩
  case bare => exact .mk (by decide +kernel) nofun nofun nofun

theorem sampleQuery_read_back :
    IsQuery sampleQuery ∧
      readText (compoundQuery "python" [written sampleQuery, "", written sampleQuery] "OR") =
        .ok (sampleQuery ++ sampleQuery, []) := by
  refine ⟨isQuery_sampleQuery, ?_⟩
  have usual := queries_read_back.1 sampleQuery isQuery_sampleQuery
  have unnamed : template? "python" (written sampleQuery) = none := by decide +kernel
  refine queries_read_back.2.2 "python" "OR" (by decide +kernel)
    [(sampleQuery, written sampleQuery), ([], ""), (sampleQuery, written sampleQuery)] ?_
  rw [List.forall_mem_cons, List.forall_mem_cons, List.forall_mem_singleton]
  exact ⟨⟨usual, unnamed⟩, ⟨⟨nofun, .blank nofun⟩, by decide +kernel⟩, usual, unnamed⟩

end Arborist.Sketch
