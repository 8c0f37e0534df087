import Mathlib
import Arborist.Proofs.Search.QueryLimits
import Arborist.Proofs.Service.Engines

/-!
Queries under two engines.  If what the engines capture is in a relation that is kept by telling captures, by
joining the results of files and by cutting them to the limit, then so are the answers.
-/

namespace Arborist.Search

open Service (Swapped)

def Leads (limit later : Value) : Prop := later = limit ∨ ∃ count, remaining limit count = .ok later

/-- A relation between captures and one between matches that a search with a limit carries along. -/
structure Carried (limit : Value) (told : List (Option Node × String) → List (Option Node × String) → Prop)
    (matched : List QueryMatch → List QueryMatch → Prop) : Prop where
  nil : matched [] []
  append : ∀ {before beside more others}, matched before beside → matched more others →
    matched (before ++ more) (beside ++ others)
  length_eq : ∀ {found others}, matched found others → found.length = others.length
  cut : ∀ {found others}, matched found others → Alike matched (cutTo limit found) (cutTo limit others)
  tell : ∀ {later}, Leads limit later → ∀ file source includeText {left right}, told left right →
    Alike matched (tellCaptures file includeText later (source, left))
      (tellCaptures file includeText later (source, right))

theorem carried_eq (limit : Value) : Carried limit Eq Eq where
  nil := rfl
  append := by
    rintro before _ more _ rfl rfl
    rfl
  length_eq := congrArg List.length
  cut := by
    rintro found _ rfl
    exact .refl _
  tell := by
    rintro later - file source includeText left _ rfl
    exact .refl _

def searchOn (project : Project) (query : CodeQuery) (language : String) (rest : List String)
    (found : List QueryMatch) : Action (List QueryMatch) :=
  match query.limit with
  | .null => queryFiles project query language found rest
  | limit =>
    match reaches found.length limit with
    | .ok true => return found
    | _ => queryFiles project query language found rest

theorem queryFiles_cons (project : Project) (query : CodeQuery) (language file : String)
    (rest : List String) (found : List QueryMatch) :
    queryFiles project query language found (file :: rest) =
      Action.attempt (do
        let later ← Action.lift (remaining query.limit found.length)
        queryFile project { query with limit := later } file (some language)) >>= fun result =>
          searchOn project query language rest (found ++ result.toOption.getD []) := by
  rw [queryFiles]
  refine bind_congr fun result => ?_
  cases result with
  | ok more => rfl
  | error fault =>
      rw [Except.toOption, Option.getD_none, List.append_nil]
      rfl

variable {left right : Engine} {asked : String → Prop} {same : Captures → Captures → Prop}
  {told : List (Option Node × String) → List (Option Node × String) → Prop}
  {matched : List QueryMatch → List QueryMatch → Prop}

theorem agree_chooseLanguage_swapped (file : String) (language : Option String) :
    Action.Agree (Swapped left right) Eq (chooseLanguage file language) (chooseLanguage file language) := by
  unfold chooseLanguage
  split
  case h_1 | h_2 =>
    refine Action.agree_get.bind fun first second swapped => ?_
    obtain ⟨-, rfl⟩ := swapped
    dsimp only
    cases first.registry.languageOf? file with
    | none => exact Action.agree_throw Eq _
    | some detected => exact Action.agree_pure rfl
  case h_3 => exact Action.agree_pure rfl

section

variable (retold : left.Retold asked same right) {query : CodeQuery} (isAsked : asked query.query)
  (tells : ∀ {captures others}, same captures others → told captures.told others.told)

include retold isAsked tells

theorem agree_captureFile_swapped (project : Project) (file : String) (language : Option String) :
    Action.Agree (Swapped left right) (fun captured other => captured.1 = other.1 ∧ told captured.2 other.2)
      (captureFile project query.query file language) (captureFile project query.query file language) := by
  unfold captureFile captureAt
  refine (Service.agree_allowedPath_swapped project file).bind_eq fun path => ?_
  refine (agree_chooseLanguage_swapped file language).bind_eq fun language => Action.Agree.mapFault ?_ _
  refine (Service.agree_parseForQuery_swapped retold path language).bind_eq fun parsed => ?_
  refine (Service.agree_loadLanguage_swapped retold language).bind_eq fun _ => ?_
  refine (Service.agree_runQuery_swapped retold isAsked parsed.tree).bind fun captures others related => ?_
  exact Action.agree_pure ⟨rfl, tells related.2⟩

variable {limit : Value} (carried : Carried limit told matched)

include carried

theorem agree_queryFile_swapped {later : Value} (leads : Leads limit later) (project : Project) (file : String)
    (language : Option String) :
    Action.Agree (Swapped left right) matched (queryFile project { query with limit := later } file language)
      (queryFile project { query with limit := later } file language) := by
  rw [queryFile_eq]
  refine (agree_captureFile_swapped retold isAsked tells project file language).bind ?_
  rintro ⟨source, captured⟩ ⟨_, others⟩ ⟨rfl, related⟩
  exact Action.agree_lift (carried.tell leads file source query.includeText related)

theorem agree_queryFiles_swapped (project : Project) (language : String) (files : List String) :
    ∀ {found others}, matched found others →
      Action.Agree (Swapped left right) matched
        (queryFiles project { query with limit } language found files)
        (queryFiles project { query with limit } language others files) := by
  induction files with
  | nil => exact fun related => Action.agree_pure related
  | cons file rest ih =>
      intro found others related
      have asks : Action.Agree (Swapped left right) matched
          (do
            let later ← Action.lift (remaining limit found.length)
            queryFile project { query with limit := later } file (some language))
          (do
            let later ← Action.lift (remaining limit others.length)
            queryFile project { query with limit := later } file (some language)) := by
        rw [carried.length_eq related]
        cases rest : remaining limit others.length with
        | error fault => exact Action.agree_throw_bind fault _ _
        | ok later =>
            exact agree_queryFile_swapped retold isAsked tells carried (.inr ⟨_, rest⟩) project file _
      -- how much the limit leaves, and whether the search goes on, is told by the number of matches
      rw [queryFiles_cons, queryFiles_cons]
      refine asks.attempt.bind fun result answer alike => ?_
      have joined : matched (found ++ result.toOption.getD []) (others ++ answer.toOption.getD []) := by
        refine carried.append related ?_
        cases alike with
        | ok more => exact more
        | error fault => exact carried.nil
      unfold searchOn
      rw [carried.length_eq joined]
      dsimp only
      split
      · exact ih joined
      · split
        · exact Action.agree_pure joined
        · exact ih joined

theorem agree_queryProject_swapped (project : Project) (language : Option String) :
    Action.Agree (Swapped left right) matched (queryProject project { query with limit } language)
      (queryProject project { query with limit } language) := by
  unfold queryProject
  split
  · exact Action.agree_throw _ _
  · exact Action.agree_throw _ _
  next name _ =>
    refine Action.agree_get.bind fun first second swapped => ?_
    obtain ⟨-, rfl⟩ := swapped
    dsimp only
    split
    · exact Action.agree_throw_bind _ _ _
    · refine (Action.agree_lift (.refl _)).bind_eq fun files => ?_
      refine (agree_queryFiles_swapped retold isAsked tells carried project name _ carried.nil).bind ?_
      exact fun found others related => Action.agree_lift (carried.cut related)

/-- The answers under two engines are related as the captures are. -/
theorem agree_queryCode_swapped (project : Project) (file language : Option String) :
    Action.Agree (Swapped left right) matched (queryCode project { query with limit } file language)
      (queryCode project { query with limit } file language) := by
  cases file with
  | some file => exact agree_queryFile_swapped retold isAsked tells carried (.inl rfl) project file language
  | none => exact agree_queryProject_swapped retold isAsked tells carried project language

end

end Arborist.Search
