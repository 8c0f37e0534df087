import Mathlib
import Arborist.Proofs.Analysis.CaptureForms
import Arborist.Proofs.Search.EngineSwap

/-!
The order of captures.  Without a limit the matches stand in the order of the captures; so do they with a
limit that cuts nothing, and whether it does so depends on their number only.
-/

namespace Arborist

namespace Search

def matchFor (file : String) (source : ByteArray) (includeText : Bool) (captured : Option Node × String) :
    QueryMatch :=
  let node := captured.1.getD default
  ⟨file, captured.2, node.start, node.stop, if includeText then some (node.text source) else none⟩

theorem tellCaptures_null (file : String) (source : ByteArray) (includeText : Bool)
    {captured : List (Option Node × String)} (whole : ∀ one ∈ captured, one.1.isSome = true) :
    tellCaptures file includeText .null (source, captured) =
      .ok (captured.map (matchFor file source includeText)) := by
  have told : captured.mapM (matchOf file source includeText) =
      .ok (captured.map (matchFor file source includeText)) := by
    refine Outcome.mapM_eq_ok_map fun one member => ?_
    obtain ⟨node, present⟩ := Option.isSome_iff_exists.mp (whole one member)
    simp [matchOf, matchFor, present]
  unfold tellCaptures takeWhileBelow
  rw [Outcome.ok_bind, told]
  rfl

theorem carried_perm : Carried .null
    (fun captured others => captured.Perm others ∧ ∀ one ∈ captured, one.1.isSome = true) List.Perm where
  nil := .nil
  append before more := before.append more
  length_eq same := same.length_eq
  cut same := .ok same
  tell := by
    intro later leads file source includeText captured others same
    obtain ⟨perm, whole⟩ := same
    obtain rfl : later = .null := by
      rcases leads with rfl | ⟨count, rest⟩
      · rfl
      · exact (Except.ok.inj rest).symm
    rw [tellCaptures_null file source includeText whole, tellCaptures_null file source includeText
      fun one member => whole one (perm.symm.subset member)]
    exact .ok (perm.map _)

/-! Limits that cut nothing. -/

/-- A limit leaves a number of results as they are; what is no limit at all leaves none. -/
def Fits (count : Nat) : Value → Prop
  | .null => True
  | .int most => count ≤ most.toNat
  | .bool value => count ≤ if value then 1 else 0
  | _ => False

theorem queryFiles_bool (project : Project) (query : CodeQuery) (value : Bool) (language : String)
    (files : List String) (found : List QueryMatch) :
    queryFiles project { query with limit := .bool value } language found files =
      queryFiles project { query with limit := .int (if value then 1 else 0) } language found files := by
  induction files generalizing found with
  | nil => rfl
  | cons file rest ih =>
      rw [queryFiles_cons, queryFiles_cons]
      refine bind_congr fun result => ?_
      unfold searchOn
      dsimp only
      rw [ih]
      cases value <;> rfl

theorem queryCode_bool (project : Project) (query : CodeQuery) (value : Bool) (file language : Option String) :
    queryCode project { query with limit := .bool value } file language =
      queryCode project { query with limit := .int (if value then 1 else 0) } file language := by
  cases file with
  | some file =>
      unfold queryCode
      dsimp only
      rw [queryFile_eq, queryFile_eq]
      refine bind_congr fun captured => ?_
      have takes : ∀ items : List (Option Node × String), takeWhileBelow (.bool value) items =
          takeWhileBelow (.int (if value then 1 else 0)) items := by
        intro items
        cases items <;> cases value <;> rfl
      unfold tellCaptures
      dsimp only
      rw [takes]
      cases value <;> rfl
  | none =>
      unfold queryCode queryProject
      dsimp only
      simp only [queryFiles_bool]
      cases value <;> rfl

section

variable {service : Service} {project : Project} {query : CodeQuery} {limit : Value}
  {file language : Option String} {found : List QueryMatch}

theorem cutTo_of_queryCode
    (done : ((queryCode project { query with limit } file language).run service).1 = .ok found) :
    ∃ before : List QueryMatch, cutTo limit before = .ok found := by
  cases file with
  | some file =>
      rw [queryCode, queryFile_eq, Action.run_bind_eq_ok_iff] at done
      obtain ⟨captured, -, told⟩ := done
      obtain ⟨before, -, cut⟩ := Outcome.bind_eq_ok_iff.mp told
      exact ⟨before, cut⟩
  | none =>
      unfold queryCode queryProject at done
      dsimp only at done
      split at done
      · cases done
      · cases done
      · rw [Action.run_bind_eq_ok_iff] at done
        obtain ⟨_, -, done⟩ := done
        split at done
        · rw [Action.run_bind_eq_ok_iff] at done
          obtain ⟨_, ⟨⟩, -⟩ := done
        · rw [Action.run_bind_eq_ok_iff] at done
          obtain ⟨files, -, done⟩ := done
          rw [Action.run_bind_eq_ok_iff] at done
          obtain ⟨before, -, cut⟩ := done
          exact ⟨before, cut⟩

variable (query)

theorem queryCode_int (solid : service.engine.Solid query.query) (most : Int) :
    ((queryCode project { query with limit := .int most } file language).run service).1 =
      ((queryCode project { query with limit := .null } file language).run service).1.map
        (List.take most.toNat) := by
  cases file with
  | some file => exact congrArg Prod.fst (run_queryFile_int project query solid file language most).1
  | none => exact queryProject_int project query solid language most

theorem queryCode_eq_ok_iff_fits (solid : service.engine.Solid query.query)
    (all : ((queryCode project { query with limit := .null } file language).run service).1 = .ok found) :
    ((queryCode project { query with limit } file language).run service).1 = .ok found ↔
      Fits found.length limit := by
  have whole : ∀ most : Int,
      ((queryCode project { query with limit := .int most } file language).run service).1 = .ok found ↔
        found.length ≤ most.toNat := by
    intro most
    rw [queryCode_int query solid, all]
    simp [Except.map]
  have never : (∀ before : List QueryMatch, cutTo limit before = .error .badSlice) →
      ((queryCode project { query with limit } file language).run service).1 ≠ .ok found := by
    intro refuses done
    obtain ⟨before, cut⟩ := cutTo_of_queryCode done
    rw [refuses before] at cut
    cases cut
  cases limit with
  | null => simp [all, Fits]
  | int most => exact whole most
  | bool value =>
      rw [queryCode_bool, whole]
      cases value <;> rfl
  | _ => exact iff_of_false (never fun _ => rfl) id

theorem queryCode_eq_error (solid : service.engine.Solid query.query) {fault : Fault}
    (fails : ((queryCode project { query with limit := .null } file language).run service).1 = .error fault) :
    ((queryCode project { query with limit } file language).run service).1 = .error fault := by
  cases file with
  | some file =>
      have ends := agree_captureFile_driven project solid file language service service ⟨rfl, rfl⟩
      unfold queryCode at fails ⊢
      dsimp only at fails ⊢
      rw [queryFile_eq, Action.run_bind] at fails ⊢
      dsimp only at fails ⊢
      rcases captured : (captureFile project query.query file language).run service with ⟨result, after⟩
      rw [captured] at ends fails
      obtain ⟨alike, -⟩ := ends
      cases alike with
      | error other => exact fails
      | ok related =>
          dsimp only at fails
          rw [Action.run_lift, tellCaptures_null file _ query.includeText related.2] at fails
          cases fails
  | none =>
      by_cases given : ∃ name, language = some name ∧ name ≠ ""
      · obtain ⟨name, rfl, nonempty⟩ := given
        unfold queryCode at fails ⊢
        dsimp only at fails ⊢
        rw [queryProject_null _ _ nonempty] at fails
        rw [run_queryProject _ _ nonempty]
        cases files : languageFiles service project name with
        | error other =>
            rw [files] at fails
            exact fails
        | ok files' =>
            rw [files] at fails
            cases fails
      · have missing : language = none ∨ language = some "" := by
          cases language with
          | none => exact .inl rfl
          | some name => exact .inr (congrArg some (not_not.mp fun nonempty => given ⟨name, rfl, nonempty⟩))
        rcases missing with rfl | rfl
        · exact fails
        · exact fails

end

end Search

/-! Engines that give dictionaries. -/

theorem Engine.solid_iff {engine : Engine} {query : String} :
    engine.Solid query ↔ ∀ tree captures, engine.capture query tree = .ok captures →
      ∀ one ∈ captures.told, one.1.isSome = true := by
  unfold Solid capture
  constructor
  · intro solid tree captures captured
    obtain ⟨compiled, compiles, rfl⟩ := Outcome.map_eq_ok_iff.mp captured
    exact solid compiled compiles tree
  · intro whole compiled compiles tree
    exact whole tree _ (by rw [compiles]; rfl)

namespace Search

section

variable {service : Service} {right : Engine} {query : CodeQuery}
  (retold : service.engine.Retold (· = query.query) Captures.Catalogued right)

include retold

theorem solid_left_of_catalogued : service.engine.Solid query.query := by
  rw [Engine.solid_iff]
  intro tree captures captured
  have alike := retold.capture query.query rfl tree
  rw [captured] at alike
  generalize right.capture query.query tree = others at alike
  cases alike with
  | ok catalogued => exact catalogued.isSome_left

theorem solid_right_of_catalogued : right.Solid query.query := by
  rw [Engine.solid_iff]
  intro tree captures captured
  have alike := retold.capture query.query rfl tree
  rw [captured] at alike
  generalize service.engine.capture query.query tree = others at alike
  cases alike with
  | ok catalogued => exact fun one member => catalogued.isSome_left one (catalogued.told_perm.subset member)

theorem queryCode_null_perm (project : Project) (file language : Option String) :
    Alike List.Perm ((queryCode project { query with limit := .null } file language).run service).1
      ((queryCode project { query with limit := .null } file language).run { service with engine := right }).1 :=
  (agree_queryCode_swapped retold rfl
    (fun catalogued => ⟨catalogued.told_perm.symm, catalogued.isSome_left⟩)
    carried_perm project file language service _ (Service.swapped service right)).alike

theorem queryCode_perm_of_uncut {project : Project} {file language : Option String}
    (uncut : ((queryCode project query file language).run service).1 =
      ((queryCode project { query with limit := .null } file language).run service).1) :
    Alike List.Perm ((queryCode project query file language).run service).1
      ((queryCode project query file language).run { service with engine := right }).1 := by
  have solid : Engine.Solid { service with engine := right }.engine query.query :=
    solid_right_of_catalogued retold
  have alike := queryCode_null_perm retold project file language
  generalize all : ((queryCode project { query with limit := .null } file language).run service).1 = onLeft
    at uncut alike
  generalize told : ((queryCode project { query with limit := .null } file language).run
    { service with engine := right }).1 = onRight at alike
  cases alike with
  | error fault =>
      rw [uncut, queryCode_eq_error query solid told]
      exact .error fault
  | ok perm =>
      -- whether a limit cuts is a matter of numbers, and these are the same with either engine
      have fits := (queryCode_eq_ok_iff_fits query (solid_left_of_catalogued retold) all).mp uncut
      rw [perm.length_eq] at fits
      rw [uncut, (queryCode_eq_ok_iff_fits query solid told).mpr fits]
      exact .ok perm

end

end Search

end Arborist
