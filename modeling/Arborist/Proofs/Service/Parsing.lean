import Arborist.Proofs.Cache.Run
import Arborist.Proofs.File.Reading
import Arborist.Search.Query

/-!
The steps of parsing a file: a parser is loaded, the file is read, and the tree is kept.  All three ways
of parsing go through the cache and differ in what they do if it has nothing.
-/

namespace Arborist.Service

variable {service : Service} {parsed : Parsed} {language : String} {path : Path}

def replaceRegistry (service : Service) : Except Fault LanguageRegistry → Except Fault Unit × Service
  | .ok registry => (.ok (), { service with registry })
  | .error fault => (.error fault, service)

theorem run_loadLanguage (service : Service) (language : String) :
    (loadLanguage language).run service =
      service.replaceRegistry (service.registry.load service.engine language) := by
  unfold loadLanguage
  simp only [Action.run_bind, Action.run_get, Action.run_lift]
  cases service.registry.load service.engine language <;> rfl

theorem run_loadParser (service : Service) (language : String) :
    (loadParser language).run service =
      service.replaceRegistry (service.registry.loadParser service.engine language) := by
  unfold loadParser
  simp only [Action.run_bind, Action.run_get, Action.run_lift]
  cases service.registry.loadParser service.engine language <;> rfl

theorem run_readSource (service : Service) (path : Path) :
    (readSource path).run service = (File.readBytes service.store path.text, service) := rfl

theorem run_parseSource (service : Service) (source : ByteArray) (previous : Option Tree) :
    (parseSource source previous).run service =
      match service.engine.parse service.engineLog source previous with
      | .ok (tree, engineLog) => (.ok tree, { service with engineLog })
      | .error fault => (.error fault, service) := by
  unfold parseSource
  simp only [Action.run_bind, Action.run_get, Action.run_lift]
  cases service.engine.parse service.engineLog source previous <;> rfl

def keepTree (path : Path) (language : String) (source : ByteArray) : Action Parsed := do
  let tree ← parseSource source none
  cachePut path language tree source
  return ⟨tree, source⟩

def throughCache (path : Path) (language : String) (fallback : Action Parsed) : Action Parsed := do
  match ← cacheGet path language with
  | some parsed => return parsed
  | none => fallback

theorem run_throughCache_of_off (off : service.cache.enabled.isVoid = true) (path : Path) (language : String)
    (fallback : Action Parsed) :
    (throughCache path language fallback).run service = fallback.run service := by
  rw [throughCache, Action.run_bind, run_cacheGet]
  simp [TreeCache.isEnabled, off]

theorem parseFile_eq (path : Path) (language : String) :
    parseFile path language = throughCache path language (Action.mapFault
      (loadParser language >>= fun _ => readSource path >>= keepTree path language)
      (.parsing path.text)) := rfl

theorem parseCached_eq (path : Path) (language : String) :
    parseCached path language =
      throughCache path language (readSource path >>= keepTree path language) := rfl

theorem parseForQuery_eq (path : Path) (language : String) :
    Search.parseForQuery path language = throughCache path language (readSource path >>= fun source =>
      loadParser language >>= fun _ => keepTree path language source) := rfl

theorem source_of_keepTree {source : ByteArray} (done : ((keepTree path language source).run service).1 = .ok parsed) :
    parsed.source = source := by
  unfold keepTree at done
  simp only [Action.run_bind] at done
  split at done
  · split at done
    · cases done
      rfl
    · cases done
  · cases done

theorem bytes_of_readAndKeep (done : ((readSource path >>= keepTree path language).run service).1 = .ok parsed) :
    File.readBytes service.store path.text = .ok parsed.source := by
  rw [Action.run_bind, run_readSource] at done
  cases read : File.readBytes service.store path.text with
  | error fault =>
      rw [read] at done
      cases done
  | ok source =>
      rw [read] at done
      rw [source_of_keepTree done]

theorem ok_of_replaceRegistry_bind {load : Action Unit} {outcome : Except Fault LanguageRegistry}
    (loads : load.run service = service.replaceRegistry outcome) {next : Action α} {value : α}
    (done : ((load >>= fun _ => next).run service).1 = .ok value) :
    ∃ registry, (next.run { service with registry }).1 = .ok value := by
  rw [Action.run_bind, loads] at done
  cases outcome with
  | error fault => cases done
  | ok registry => exact ⟨registry, done⟩

theorem exists_fileAt?_or_fallback {fallback : Action Parsed}
    (done : ((throughCache path language fallback).run service).1 = .ok parsed) :
    (∃ content modified, service.store.fileAt? path = some (content, modified)) ∨
      ∃ cache, (fallback.run { service with cache }).1 = .ok parsed := by
  rw [throughCache, Action.run_bind] at done
  have cacheOnly := exists_cache_of_cacheGet service path language
  rcases got : (cacheGet path language).run service with ⟨result, after⟩
  rw [got] at done cacheOnly
  obtain ⟨cache, rfl⟩ := cacheOnly
  cases result with
  | error fault => cases done
  | ok result =>
      cases result with
      | none => exact .inr ⟨cache, done⟩
      | some held =>
          have found : ((cacheGet path language).run service).1 = .ok (some held) := by rw [got]
          obtain ⟨content, modified, -, here, -⟩ := exists_entry_of_cacheGet found
          exact .inl ⟨content, modified, here⟩

theorem exists_fileAt?_of_parseFile (proper : path.Proper)
    (done : ((parseFile path language).run service).1 = .ok parsed) :
    ∃ content modified, service.store.fileAt? path = some (content, modified) := by
  rw [parseFile_eq] at done
  rcases exists_fileAt?_or_fallback done with here | ⟨cache, made⟩
  · exact here
  · rw [Action.run_mapFault] at made
    have inner := Outcome.mapError_eq_ok_iff.mp made
    obtain ⟨registry, kept⟩ := ok_of_replaceRegistry_bind (run_loadParser _ language) inner
    obtain ⟨modified, here⟩ := (File.readBytes_text_eq_ok_iff proper).mp (bytes_of_readAndKeep kept)
    exact ⟨_, modified, here⟩

end Arborist.Service
