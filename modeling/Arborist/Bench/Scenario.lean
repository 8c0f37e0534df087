import Arborist.Bench.ProjectWork
import Arborist.Bench.TextWork
import Arborist.Bench.TreeWork
import Arborist.Data.Fields

/-!
All benches by name.  Each has one number, by which its work grows.
-/

namespace Arborist.Bench

inductive Scenario where
  | outlining
  | navigating
  | walking
  | sourceTrees
  | symbols
  | dependencies
  | overview
  | searching
  | files
  | lookups
  | caching
  | parsing
  | settings
  | queries
  | advice
  | tools
  | registration
  | projects
  | access
  | reading
  | progress
  | diagnostics
  | standIns
deriving DecidableEq, Repr

namespace Scenario

def all : List (String × String × Scenario) := [
  ("node_to_dict", "n_funcs", .outlining),
  ("ast_navigation", "n_funcs", .navigating),
  ("tree_helpers", "n_funcs", .walking),
  ("file_ast", "n_files", .sourceTrees),
  ("extract_symbols", "n_funcs", .symbols),
  ("dependencies_and_complexity", "n_funcs", .dependencies),
  ("analyze_project", "n_files", .overview),
  ("search_and_query", "n_funcs", .searching),
  ("file_operations", "n_files", .files),
  ("language_registry", "n_lookups", .lookups),
  ("tree_cache", "n_files", .caching),
  ("parse_helpers", "n_files", .parsing),
  ("config_lifecycle", "n_rounds", .settings),
  ("query_builder", "n_rounds", .queries),
  ("code_patterns", "n_rounds", .advice),
  ("registered_tools", "n_files", .tools),
  ("context_and_api", "n_rounds", .registration),
  ("project_registry", "n_projects", .projects),
  ("security_and_paths", "n_checks", .access),
  ("file_io", "n_reads", .reading),
  ("mcp_context", "n_steps", .progress),
  ("diagnostics", "n_items", .diagnostics),
  ("debug_and_types", "n_rounds", .standIns)]

def run (scenario : Scenario) (size : Nat) : Action Value :=
  match scenario with
  | .outlining => return outlines size
  | .navigating => return navigation size
  | .walking => return treeWalks size
  | .sourceTrees => sourceLanguages size
  | .symbols => symbolCounts size
  | .dependencies => dependencyWork size
  | .overview => overviewWork size
  | .searching => searchWork size
  | .files => fileWork size
  | .lookups => return languageLookups size
  | .caching => cacheWork size
  | .parsing => parseWork size
  | .settings => settingsWork size
  | .queries => return .nat (queryLengths size)
  | .advice => return .nat (adviceLengths size)
  | .tools => toolWork size
  | .registration => registrationRounds size
  | .projects => projectWork size
  | .access => accessWork size
  | .reading => readWork size
  | .progress => return .nat (progressReports size)
  | .diagnostics => do return .nat (diagnosticFields size (← Service.now))
  | .standIns => return emptyStandIns size

def ofCall? (name : String) (parameters : Value) : Option (Scenario × Nat) :=
  (all.lookup name).map fun (parameter, scenario) => (scenario, (Fields.int parameters parameter 0).toNat)

def measure (scenario : Scenario) (size runs : Nat) : Action Value := do
  let before ← get
  let result ← scenario.run size
  let store := (← get).store
  set { before with store }
  return .list (List.replicate runs result)

end Scenario

end Arborist.Bench
