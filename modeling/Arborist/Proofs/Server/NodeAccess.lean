import Arborist.Proofs.Project.Containment
import Arborist.Proofs.Service.Parsing
import Arborist.Server.Tool

/-!
Which files the tools tell nodes and trees of.  A node is told of every file that a project accepts; of
the four conditions for reading a file only the one on its place is asked for.  A tree is told if the
other three hold as well.
-/

namespace Arborist

namespace Service

theorem run_findProject (service : Service) (name : String) :
    (findProject name).run service = (ProjectList.find service.projects name, service) := rfl

theorem fileTree_of_parsed {service : Service} {project : Project} {path language : String} {file : Path}
    {parsed : Parsed} (accepted : project.filePath service.store path = .ok file)
    (known : service.registry.languageOf? path = some language)
    (parses : ((parseFile file language).run service).1 = .ok parsed)
    (maxDepth : Option Int) (includeText : Bool) :
    ∃ value, ((fileTree project path maxDepth includeText).run service).1 =
      ((Project.checkAccess service.store service.settings file.text project.root.text).mapError
        .accessDenied).map fun _ => value := by
  unfold fileTree
  rw [Action.run_bind, Action.run_onStore, accepted]
  dsimp only
  rw [Action.run_bind, Action.run_get]
  dsimp only
  rw [Action.run_bind, Action.run_mapFault, Action.run_lift]
  cases Project.checkAccess service.store service.settings file.text project.root.text with
  | error fault => exact ⟨.null, rfl⟩
  | ok _ =>
      simp only [Except.mapError, known, Except.map]
      rw [Action.run_bind]
      rcases ends : (parseFile file language).run service with ⟨result, after⟩
      rw [ends] at parses
      obtain rfl : result = .ok parsed := parses
      exact ⟨_, rfl⟩

end Service

namespace Server.Tool

variable {service : Service} {project : Project} {path : String}

open Service

theorem nodeAt_eq_ok_iff {position : Position} :
    (∃ node, ((nodeAt project path position).run service).1 = .ok node) ↔
      ∃ file language parsed, project.filePath service.store path = .ok file ∧
        service.registry.languageOf? path = some language ∧
        ((parseFile file language).run service).1 = .ok parsed := by
  unfold nodeAt
  simp only [Action.run_bind_eq_ok_iff, Action.run_onStore, Action.run_get]
  constructor
  · rintro ⟨node, file, accepted, _, ⟨⟩, rest⟩
    cases known : service.registry.languageOf? path with
    | none =>
        rw [known] at rest
        cases rest
    | some language =>
        rw [known] at rest
        obtain ⟨parsed, parses, -⟩ := (Action.run_bind_eq_ok_iff _).mp rest
        exact ⟨file, language, parsed, accepted, rfl, parses⟩
  · rintro ⟨file, language, parsed, accepted, known, parses⟩
    cases told : parsed.tree.root.atPosition? position with
    | none =>
        refine ⟨.null, file, accepted, service, rfl, ?_⟩
        rw [known]
        refine (Action.run_bind_eq_ok_iff _).mpr ⟨parsed, parses, ?_⟩
        rw [told]
        rfl
    | some node =>
        refine ⟨(node.outline parsed.source { maxDepth := 2 }).toValue, file, accepted, service, rfl, ?_⟩
        rw [known]
        refine (Action.run_bind_eq_ok_iff _).mpr ⟨parsed, parses, ?_⟩
        rw [told]
        rfl

theorem getNodeAt_eq_ok_iff {name path : String} {position : Position} :
    (∃ node, ((run (.getNodeAt name path position)).run service).1 = .ok node) ↔
      ∃ project file language parsed, ProjectList.find service.projects name = .ok project ∧
        project.filePath service.store path = .ok file ∧
        service.registry.languageOf? path = some language ∧
        ((parseFile file language).run service).1 = .ok parsed := by
  unfold run
  simp only [Action.run_bind_eq_ok_iff, run_findProject]
  constructor
  · rintro ⟨node, project, found, told⟩
    exact ⟨project, (nodeAt_eq_ok_iff.mp ⟨node, told⟩).imp fun file rest => by simpa [found] using rest⟩
  · rintro ⟨project, file, language, parsed, found, rest⟩
    obtain ⟨node, told⟩ := nodeAt_eq_ok_iff.mpr ⟨file, language, parsed, rest⟩
    exact ⟨node, project, found, told⟩

theorem levelsOf_ne_accessDenied {depth : Value} {fault : Fault} :
    levelsOf depth ≠ .error (.accessDenied fault) := by
  unfold levelsOf
  intro denied
  split at denied
  · cases denied
  · split at denied <;> cases denied

theorem run_getTree {name path : String} {depth : Option Int} {allowed : Value}
    (found : ProjectList.find service.projects name = .ok project)
    (within : depthOr depth service.settings = .ok allowed) (includeText : Bool) :
    (run (.getTree name path depth includeText)).run service =
      (treeTo project path allowed includeText).run service := by
  unfold run
  rw [Action.run_bind, Action.run_get]
  dsimp only
  rw [Action.run_bind, Action.run_lift, within]
  dsimp only
  rw [Action.run_bind, run_findProject, found]

theorem treeTo_of_fileTree {includeText : Bool} {access : Except Fault Unit}
    (tells : ∀ levels, ∃ value, ((fileTree project path levels includeText).run service).1 =
      (access.mapError .accessDenied).map fun _ => value)
    (depth : Value) :
    (∀ fault, ((treeTo project path depth includeText).run service).1 = .error (.accessDenied fault) ↔
      access = .error fault) ∧
    ∀ levels, levelsOf depth = .ok levels →
      ((∃ value, ((treeTo project path depth includeText).run service).1 = .ok value) ↔
        access = .ok ()) := by
  unfold treeTo
  cases known : levelsOf depth with
  | ok levels =>
      obtain ⟨value, ends⟩ := tells levels
      dsimp only
      rw [ends]
      cases access <;> simp [Except.mapError, Except.map]
  | error fault =>
      obtain ⟨value, ends⟩ := tells none
      refine ⟨?_, by simp⟩
      intro other
      dsimp only
      rw [Action.run_bind]
      rcases outcome : (fileTree project path none includeText).run service with ⟨result, after⟩
      rw [outcome] at ends
      dsimp only at ends
      subst ends
      cases access with
      | error denied => simp [Except.mapError, Except.map]
      | ok _ =>
          simp only [Except.mapError, Except.map, Action.run_throw, Except.error.injEq, reduceCtorEq,
            iff_false]
          rintro rfl
          exact levelsOf_ne_accessDenied known

theorem checkAccess_eq_ok_iff_permitted {file : Path} {content : ByteArray} {modified : Binary64}
    (rootProper : project.root.Proper) (accepted : project.filePath service.store path = .ok file)
    (here : service.store.fileAt? file = some (content, modified))
    (stands : service.store.resolve project.root = .ok project.root) :
    Project.checkAccess service.store service.settings file.text project.root.text = .ok () ↔
      Project.Permitted service.store service.settings file file := by
  obtain ⟨place, located⟩ := Store.fileAt?_eq_some_iff.mp here
  obtain ⟨names, rfl⟩ :=
    Project.exists_absolute_of_normalize (Project.filePath_eq_ok_iff.mp accepted).1
  have proper := Project.filePath_proper rootProper accepted
  have resolved := Store.resolve_of_settled rfl (Project.filePath_settled rootProper accepted)
    (Store.not_hasNull_of_locate located)
  rw [Project.checkAccess_eq_ok_iff, Path.ofString_text proper, Path.ofString_text rootProper, resolved,
    stands]
  constructor
  · rintro ⟨_, _, ⟨⟩, ⟨⟩, -, permitted⟩
    exact permitted
  · intro permitted
    exact ⟨_, _, rfl, rfl, (Project.filePath_eq_ok_iff.mp accepted).2, permitted⟩

def excludedFile : Service :=
  { store := { root := [("p", .directory [("x", .directory [("a.c", .file .empty (.finite 0))])])] }
    settings := { security := .fields { excludedDirs := .strings ["x"] } }
    cache := { enabled := .bool false }
    projects := [("p", { name := "p", root := .absolute ["p"] })] }

end Server.Tool

end Arborist
