import Mathlib
import Arborist.Proofs.File.Following
import Arborist.Proofs.Project.Containment
import Arborist.Proofs.Search.Text
import Arborist.Proofs.Service.Listing
import Arborist.Proofs.Text.Lines

/-!
Searching a file and reading it.  A search asks for access by the path that fits the pattern, reading by
the path without links.  Both ask about the same place; they differ in the extension, which is that of
the path in one case and that of the place in the other.
-/

namespace Arborist

namespace Project

def ExtensionAllowed (settings : Settings) (path : Path) : Prop :=
  ∃ allowed, settings.allowedExtensions = .ok allowed ∧ AllowsExtension allowed path

theorem ExtensionAllowed.of_suffix_eq {settings : Settings} {path other : Path}
    (allowed : ExtensionAllowed settings path) (sameSuffix : other.suffix = path.suffix) :
    ExtensionAllowed settings other := by
  obtain ⟨value, listed, member⟩ := allowed
  refine ⟨value, listed, ?_⟩
  unfold AllowsExtension
  rw [sameSuffix]
  exact member

theorem Permitted.of_extension {store : Store} {settings : Settings} {path other place : Path}
    (permitted : Permitted store settings path place) (allowed : ExtensionAllowed settings other) :
    Permitted store settings other place :=
  ⟨permitted.notExcluded, allowed, permitted.size⟩

/-- A place in the root of a project or beside it. -/
def AcceptsPlace (project : Project) (place : Path) : Prop :=
  project.root.anchor = .root ∧
    (project.root.components <+: place.components ∨ place.Beside project.root)

theorem AcceptsPlace.join_anchor {project : Project} {place : Path} (accepts : project.AcceptsPlace place)
    (path : Path) : (project.root.join path).anchor ≠ .relative := by
  apply join_anchor_ne_relative
  simp [accepts.1]

theorem filePath_eq_ok_iff_acceptsPlace {project : Project} {store : Store} {file : String} {place : Path}
    (rootProper : project.root.Proper) :
    project.filePath store file = .ok place ↔
      store.resolve (project.root.join (.ofString file)) = .ok place ∧ project.AcceptsPlace place := by
  rw [filePath_eq_ok_iff_inside_or_beside rootProper, AcceptsPlace]
  constructor
  · rintro ⟨atRoot, resolved, close⟩
    exact ⟨resolved, atRoot, close⟩
  · rintro ⟨resolved, atRoot, close⟩
    exact ⟨atRoot, resolved, close⟩

end Project

namespace Service

variable {project : Project} {service : Service}

theorem run_readablePath (service : Service) (project : Project) (path : String) :
    (readablePath project path).run service =
      (match project.filePath service.store path with
        | .ok file =>
            ((Project.checkAccess service.store service.settings file.text project.root.text).mapError
              .accessDenied).map fun _ => file
        | .error (.outsideProject path) => .error (.outsideForFile (.outsideProject path))
        | .error fault => .error fault, service) := by
  unfold readablePath
  rw [Action.run_bind, Action.run_get]
  dsimp only
  cases project.filePath service.store path with
  | ok file =>
      dsimp only
      rw [pure_bind, Action.run_bind, Action.run_mapFault, Action.run_lift]
      cases Project.checkAccess service.store service.settings file.text project.root.text <;> rfl
  | error fault => cases fault <;> rfl

theorem readablePath_eq_ok_iff {path : String} {file : Path} :
    ((readablePath project path).run service).1 = .ok file ↔
      project.filePath service.store path = .ok file ∧
        Project.checkAccess service.store service.settings file.text project.root.text = .ok () := by
  rw [run_readablePath]
  cases project.filePath service.store path with
  | ok found =>
      simp only [Outcome.map_eq_ok_iff, Outcome.mapError_eq_ok_iff, Except.ok.injEq]
      constructor
      · rintro ⟨_, granted, rfl⟩
        exact ⟨rfl, granted⟩
      · rintro ⟨rfl, granted⟩
        exact ⟨(), granted, rfl⟩
  | error fault => cases fault <;> simp

theorem wholeText_eq_ok_iff {path : String} {content : FileContent} :
    ((fileContent project path false none 0).run service).1 = .ok content ↔
      ∃ file bytes, project.filePath service.store path = .ok file ∧
        Project.checkAccess service.store service.settings file.text project.root.text = .ok () ∧
        File.readBytes service.store file.text = .ok bytes ∧
        content = .text (String.ofList (File.plainText bytes)) := by
  unfold fileContent
  rw [Action.run_bind_eq_ok_iff]
  simp only [readablePath_eq_ok_iff]
  have unchanged : ((readablePath project path).run service).2 = service := by rw [run_readablePath]
  rw [unchanged]
  constructor
  · rintro ⟨file, ⟨accepted, granted⟩, told⟩
    rw [Action.run_bind, Action.run_get] at told
    dsimp only at told
    cases opened : service.store.readBytes file.text with
    | error fault =>
        rw [opened] at told
        cases fault <;> cases told
    | ok bytes =>
        rw [opened] at told
        cases told
        exact ⟨file, bytes, accepted, granted, Outcome.mapError_eq_ok_iff.mpr opened, rfl⟩
  · rintro ⟨file, bytes, accepted, granted, opened, rfl⟩
    refine ⟨file, ⟨accepted, granted⟩, ?_⟩
    rw [Action.run_bind, Action.run_get]
    dsimp only
    rw [Outcome.mapError_eq_ok_iff.mp opened]
    rfl

/-- A file that may be searched can be read if its place is accepted and has an extension that is
allowed; what is read then is what was searched. -/
theorem wholeText_eq_ok_iff_of_searched {file : String} {place : Path} {bytes : ByteArray}
    (rootProper : project.root.Proper) (nullFree : service.store.NullFree)
    (granted : Project.checkAccess service.store service.settings
      (project.root.join (.ofString file)).text project.root.text = .ok ())
    (opened : File.readBytes service.store (project.root.join (.ofString file)).text = .ok bytes)
    (resolved : service.store.resolve (project.root.join (.ofString file)) = .ok place) (content : FileContent) :
    ((fileContent project file false none 0).run service).1 = .ok content ↔
      project.AcceptsPlace place ∧ Project.ExtensionAllowed service.settings place ∧
        content = .text (String.ofList (File.plainText bytes)) := by
  have pathProper := rootProper.join (Path.ofString_proper file)
  obtain ⟨modified, here⟩ := (File.readBytes_text_eq_ok_iff pathProper).mp opened
  obtain ⟨reached, located⟩ := Store.fileAt?_eq_some_iff.mp here
  obtain ⟨other, base, alsoResolved, resolvedRoot, starts, permitted⟩ :=
    Project.checkAccess_eq_ok_iff.mp granted
  rw [Path.ofString_text pathProper] at alsoResolved permitted
  cases resolved.symm.trans alsoResolved
  -- what the path leads to is also found at the place
  have again : project.AcceptsPlace place →
      service.store.locate place = .ok (reached, .file bytes modified) := by
    intro accepts
    exact Store.locate_resolved nullFree (accepts.join_anchor _) resolved located
  have rereads : ∀ {found}, project.filePath service.store file = .ok place →
      (File.readBytes service.store place.text = .ok found ↔ found = bytes) := by
    intro found accepted
    obtain ⟨-, accepts⟩ := (Project.filePath_eq_ok_iff_acceptsPlace rootProper).mp accepted
    have here := Store.fileAt?_eq_some_iff.mpr ⟨reached, again accepts⟩
    rw [File.readBytes_text_eq_ok_iff (Project.filePath_proper rootProper accepted), here]
    simp [eq_comm]
  rw [wholeText_eq_ok_iff]
  constructor
  · rintro ⟨there, found, accepted, allowed, read, rfl⟩
    obtain ⟨resolvedAgain, accepts⟩ := (Project.filePath_eq_ok_iff_acceptsPlace rootProper).mp accepted
    cases resolved.symm.trans resolvedAgain
    obtain ⟨_, _, -, -, -, permittedPlace⟩ := Project.checkAccess_eq_ok_iff.mp allowed
    rw [Path.ofString_text (Project.filePath_proper rootProper accepted)] at permittedPlace
    exact ⟨accepts, permittedPlace.extension, by rw [(rereads accepted).mp read]⟩
  · rintro ⟨accepts, allowed, rfl⟩
    have accepted := (Project.filePath_eq_ok_iff_acceptsPlace rootProper).mpr ⟨resolved, accepts⟩
    have stands := Store.resolve_of_settled (Store.resolve_anchor resolved)
      (Store.resolve_settled resolved (accepts.join_anchor _)) (Store.not_hasNull_of_locate (again accepts))
    refine ⟨place, bytes, accepted, ?_, (rereads accepted).mpr rfl, rfl⟩
    rw [Project.checkAccess_eq_ok_iff, Path.ofString_text (Project.filePath_proper rootProper accepted)]
    exact ⟨place, base, stands, resolvedRoot, starts, permitted.of_extension allowed⟩

theorem exists_bytes_of_found {query : Search.TextQuery} {results : List Search.TextMatch}
    (named : service.store.WellNamed)
    (searched : Search.searchText service.store service.settings project query = .ok results)
    {found : Search.TextMatch} (member : found ∈ results) :
    Project.checkAccess service.store service.settings
        (project.root.join (.ofString found.file)).text project.root.text = .ok () ∧
      ∃ bytes, File.readBytes service.store (project.root.join (.ofString found.file)).text = .ok bytes ∧
        found.Shows found.file (Text.feedLines (File.plainText bytes)) := by
  obtain ⟨test, pattern, paths, path, -, globbed, among, inPath⟩ :=
    Search.exists_path_of_mem_searchText searched member
  obtain ⟨granted, bytes, opened, shows_⟩ := Search.exists_bytes_of_mem_fileMatches inPath
  obtain ⟨selectors, read, select⟩ := Outcome.bind_eq_ok_iff.mp globbed
  cases select
  split at among
  · obtain ⟨names, steps, proper, -⟩ :=
      File.exists_names_of_mem_select named (File.plain_of_selectors read) among
    have relative : ((path.relativeTo? project.root).getD path).text = Path.text ⟨.relative, names⟩ := by
      rw [relativeTo?_of_stepsTo steps]
      rfl
    have file_eq : found.file = Path.text ⟨.relative, names⟩ := shows_.file_eq.trans relative
    have path_eq : project.root.join (.ofString found.file) = path := by
      have readBack : Path.ofString (Path.text ⟨.relative, names⟩) = ⟨.relative, names⟩ :=
        Path.ofString_text proper
      rw [file_eq, readBack, Path.join, if_pos rfl]
      exact steps.symm
    rw [path_eq]
    exact ⟨granted, bytes, opened, rfl, shows_.positive, shows_.text_eq⟩
  · cases among

/-- A match of a search names a path that resolves.  The file can be read under this name exactly if the
place is one that the project accepts and its extension is allowed.  The place of a match is accepted if
the root stands for itself, and its extension is allowed if it is that of the path; so only a link to a
file with another extension is found and not read.  What is read has the text of the match as the line
with the number of the match. -/
theorem found_readable_iff (service : Service) (project : Project) (query : Search.TextQuery)
    (results : List Search.TextMatch) (rootProper : project.root.Proper) (named : service.store.WellNamed)
    (nullFree : service.store.NullFree)
    (searched : Search.searchText service.store service.settings project query = .ok results) :
    ∀ found ∈ results, ∃ place,
      let path := project.root.join (.ofString found.file)
      let read := ((fileContent project found.file false none 0).run service).1
      service.store.resolve path = .ok place ∧
        ((∃ content, read = .ok content) ↔
          project.AcceptsPlace place ∧ Project.ExtensionAllowed service.settings place) ∧
        (service.store.resolve project.root = .ok project.root → project.AcceptsPlace place) ∧
        (place.suffix = path.suffix → Project.ExtensionAllowed service.settings place) ∧
        ∀ content, read = .ok content → ∃ text, content = .text text ∧ 1 ≤ found.line ∧
          (text.toList.splitOn '\n')[found.line - 1]? = some found.text.toList := by
  intro found member
  obtain ⟨granted, bytes, opened, -, positive, line, stands, shown⟩ :=
    exists_bytes_of_found named searched member
  have pathProper := rootProper.join (Path.ofString_proper found.file)
  obtain ⟨place, base, resolved, resolvedRoot, starts, permitted⟩ :=
    Project.checkAccess_eq_ok_iff.mp granted
  rw [Path.ofString_text pathProper] at resolved permitted
  rw [Path.ofString_text rootProper] at resolvedRoot
  have reads := wholeText_eq_ok_iff_of_searched rootProper nullFree granted opened resolved
  refine ⟨place, resolved, ?_, ?_, ?_, ?_⟩
  · simp only [reads]
    constructor
    · rintro ⟨content, accepted, allowed, -⟩
      exact ⟨accepted, allowed⟩
    · rintro ⟨accepted, allowed⟩
      exact ⟨_, accepted, allowed, rfl⟩
  · intro rootStands
    cases resolvedRoot.symm.trans rootStands
    have fromRoot : project.root.anchor ≠ .relative := by simp [Store.resolve_anchor rootStands]
    exact (Project.text_isPrefix_resolved_iff rootProper fromRoot resolved).mp starts
  · intro sameSuffix
    exact Project.ExtensionAllowed.of_suffix_eq permitted.extension sameSuffix
  · intro content told
    obtain ⟨-, -, rfl⟩ := (reads content).mp told
    refine ⟨_, rfl, positive, ?_⟩
    rw [String.toList_ofList, Text.splitOn_feed_getElem? stands, shown, Search.shownLine,
      String.toList_ofList]

def disguised : Service :=
  { store := { root := [("p", .directory [("a.c", .link "s.d"), ("s.d", .file ⟨#[107]⟩ (.finite 0))])] }
    settings := { security := .fields { allowedExtensions := .strings ["c"] } } }

def disguisedProject : Project := { name := "p", root := .absolute ["p"] }

def disguisedQuery : Search.TextQuery := { pattern := "k", filePattern := some "a.c", caseSensitive := true }

theorem resolve_disguised :
    disguised.store.resolve (.absolute ["p", "a.c"]) = .ok (.absolute ["p", "s.d"]) := by
  cbv

theorem checkAccess_disguised :
    Project.checkAccess disguised.store disguised.settings (Path.absolute ["p", "a.c"]).text
      disguisedProject.root.text = .ok () := by
  have resolved : disguised.store.resolve (.ofString (Path.absolute ["p", "a.c"]).text) =
      .ok (.absolute ["p", "s.d"]) := by
    rw [Path.ofString_text (by decide)]
    exact resolve_disguised
  have resolvedRoot : disguised.store.resolve (.ofString disguisedProject.root.text) =
      .ok (.absolute ["p"]) := by
    cbv
  have size : Project.checkSize disguised.store disguised.settings.maxFileSizeMb (.absolute ["p", "s.d"]) =
      .ok () := by
    have here : disguised.store.fileAt? (.absolute ["p", "s.d"]) = some (⟨#[107]⟩, .finite 0) := by
      cbv
    rw [Project.checkSize_eq_ok_iff, here]
    rintro _ _ ⟨⟩
    have fits : (Binary64.finite (5 : Int)).lt (Project.megabytes (ByteArray.size ⟨#[107]⟩)) = false := by
      decide +kernel
    exact ⟨_, rfl, congrArg Except.ok fits⟩
  rw [Project.checkAccess_of_resolved resolved resolvedRoot, if_pos (by decide)]
  exact size

theorem fileMatches_disguised :
    Search.fileMatches disguised.store disguised.settings disguisedProject.root
        (Search.holdsPlainly disguisedQuery.pattern.toList) disguisedQuery (.absolute ["p", "a.c"]) =
      [⟨"a.c", 1, "k", [⟨1, "k", true⟩]⟩] := by
  have read : File.readBytes disguised.store (Path.absolute ["p", "a.c"]).text = .ok ⟨#[107]⟩ := by
    apply (File.readBytes_text_eq_ok_iff (by decide)).mpr
    exact ⟨.finite 0, by cbv⟩
  unfold Search.fileMatches
  simp only [checkAccess_disguised, read, Outcome.ok_bind]
  cbv

theorem disguised_found_unread :
    ∃ results found, Search.searchText disguised.store disguised.settings disguisedProject disguisedQuery =
        .ok results ∧ found ∈ results ∧ found.file = "a.c" ∧
      ¬ ∃ content, ((fileContent disguisedProject found.file false none 0).run disguised).1 =
        .ok content := by
  have globbed : File.glob disguised.store disguisedProject.root "a.c" = .ok [.absolute ["p", "a.c"]] := by
    cbv
  have isFile : [Path.absolute ["p", "a.c"]].filter disguised.store.isFile = [.absolute ["p", "a.c"]] := by
    cbv
  have searched : Search.searchText disguised.store disguised.settings disguisedProject disguisedQuery =
      .ok [⟨"a.c", 1, "k", [⟨1, "k", true⟩]⟩] := by
    have collected : Search.matchesOver (Search.fileMatches disguised.store disguised.settings
        disguisedProject.root (Search.holdsPlainly disguisedQuery.pattern.toList) disguisedQuery)
        disguisedQuery.limit [] [.absolute ["p", "a.c"]] = .ok [⟨"a.c", 1, "k", [⟨1, "k", true⟩]⟩] := by
      rw [Search.matchesOver, fileMatches_disguised]
      cbv
    have tested : disguisedQuery.test = .ok (Search.holdsPlainly disguisedQuery.pattern.toList) := rfl
    unfold Search.searchText
    rw [tested, Outcome.ok_bind]
    change ((File.glob disguised.store disguisedProject.root "a.c").mapError .pattern >>= fun paths =>
      Search.matchesOver _ _ [] (paths.filter disguised.store.isFile) >>= Search.cutTo _) = _
    rw [globbed, Outcome.ok_mapError, Outcome.ok_bind, isFile, collected]
    rfl
  refine ⟨_, _, searched, List.mem_singleton_self _, rfl, ?_⟩
  obtain ⟨place, leads, readable, -, -, -⟩ := found_readable_iff disguised disguisedProject disguisedQuery _
    (by decide) (by decide) (by decide) searched _ (List.mem_singleton_self _)
  have place_eq : place = .absolute ["p", "s.d"] := by
    have joined : disguisedProject.root.join (.ofString "a.c") = .absolute ["p", "a.c"] := by
      decide
    rw [joined, resolve_disguised] at leads
    cases leads
    rfl
  rw [readable, place_eq]
  rintro ⟨-, allowed, listed, member⟩
  cases listed
  rcases member with void | among
  · cases void
  · have denied : (Value.strings ["c"]).hasMember (.string (String.ofList
        ((Text.lower (Path.absolute ["p", "s.d"]).suffix.toList).drop 1))) = .ok false := by
      cbv
    cases denied.symm.trans among

end Service

end Arborist
