import Arborist.Service.Parsing

/-!
Registering and forgetting projects, and clearing the cache for them.
-/

namespace Arborist.Service

def scanProject (project : Project) (force : Bool) : Action Project := do
  let service ← get
  let scanned := project.scan service.store service.registry service.clock force
  modify fun service => { service with projects := ProjectList.replace service.projects scanned }
  return scanned

def registerProject (path : String) (name : Option String) (description : Value) : Action Value := do
  let name := match name with
    | some "" | none => path
    | some name => name
  Action.mapFault
    (do
      let service ← get
      let (project, projects) ←
        Action.lift (ProjectList.register service.projects service.store name path description)
      modify fun service => { service with projects }
      return (← scanProject project false).toValue)
    .registration

def listProjects : Action Value := do
  return .list ((← get).projects.map fun (_, project) => project.toValue)

def success (message : String) : Value :=
  .object [("status", .string "success"), ("message", .string message)]

def removeProject (name : String) : Action Value := do
  let projects ← Action.lift (ProjectList.remove (← get).projects name)
  modify fun service => { service with projects }
  return success s!"Project '{name}' removed"

def describeProject (name : String) : Action Value := do
  Action.mapFault (do return (← findProject name).toValue) .retrieval

def clearCache (project file : Option String) : Action Value := do
  match project, file with
  | some project, some file =>
    if project.isEmpty || file.isEmpty then
      cacheInvalidate none
      return success "Cache cleared"
    else
      let found ← findProject project
      let path ← Action.onStore fun store => found.filePath store file
      cacheInvalidate (some path)
      return success s!"Cache cleared for {file} in {project}"
  | _, _ =>
    cacheInvalidate none
    return success "Cache cleared"

end Arborist.Service
