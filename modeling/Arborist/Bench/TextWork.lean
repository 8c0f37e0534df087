import Arborist.Diagnostic.Basic
import Arborist.Engine.Absent
import Arborist.Language.Registry
import Arborist.Language.Template
import Arborist.Progress.Basic
import Arborist.Prompt.Advice

/-!
Benches that need no project: advice, query texts, file names, progress and diagnostics.  Each goes
through a list again and again for a number of rounds.
-/

namespace Arborist.Bench

/-- What stands at a round in a list that is gone through again and again. -/
def atRound (items : List α) (round : Nat) : Option α := items[round % items.length]?

def sumRounds (rounds : Nat) (weight : Nat → Nat) : Nat :=
  (List.range rounds).foldl (fun total round => total + weight round) 0

def conventionTopics : List (String × String) :=
  (Prompt.conventions.flatMap fun (language, topics) => topics.map fun (topic, _) => (language, topic)) ++
    [("cobol", "missing")]

def reviewTopics : List String := Prompt.reviewPoints.map Prod.fst ++ ["missing"]

def adviceLengths (rounds : Nat) : Nat :=
  sumRounds rounds fun round =>
    let convention := (atRound conventionTopics round).map fun (language, topic) =>
      Prompt.convention language topic
    let point := (atRound reviewTopics round).map Prompt.reviewPoint
    (convention.getD "").length + (point.getD "").length

def queryLengths (rounds : Nat) : Nat :=
  sumRounds rounds fun round =>
    match atRound (queryTemplates.map Prod.fst) round with
    | some language =>
      (compoundQuery language ["functions", "classes"] "or").length +
        (adaptQuery "(identifier) @id" "python" language).length
    | none => 0

def fileNames : List String := [
  "main.py", "app.js", "types.ts", "view.jsx", "page.tsx", "tool.rb", "lib.rs", "server.go", "Main.java",
  "core.c", "engine.cpp", "core.h", "Program.cs", "index.php", "run.sh", "conf.yaml", "data.json",
  "README.md", "style.css", "unknown"]

def languageLookups (count : Nat) : Value :=
  let registry := (LanguageRegistry.loadParser {} .sketch "fallback_lang").toOption.getD {}
  let known := sumRounds count fun round =>
    match (atRound fileNames round).bind registry.languageOf? with
    | some _ => 1
    | none => 0
  .list [.nat known, .nat registry.available.length]

def progressSteps (steps : Nat) : ProgressScope → ProgressScope :=
  fun scope => (List.range steps).foldl
    (fun scope step =>
      let scope := scope.update 1
      if (step + 1) % 20 == 0 then { scope with context := scope.context.tell "info" s!"step {step}" }
      else scope)
    scope

def progressReports (steps : Nat) : Nat :=
  let context : ProgressContext := { listener := .full }
  let context := ((context.report 0 steps).tell "info" "start").tell "warning" "slow"
  let context := context.tell "error" "failed"
  let scope := progressSteps steps (ProgressScope.openScope context steps "bench")
  ((scope.setProgress steps).close "bench").context.heard.length

def diagnosticFields (count : Nat) (now : Binary64) : Nat :=
  sumRounds count fun round =>
    let run : Diagnostic := { testId := s!"test::{round}", startTime := now }
    let run := (run.addDetail "round" (.nat round)).addArtifact "name" (.string s!"item {round}")
    match (run.finish now "completed").toValue with
    | .map entries => entries.length
    | _ => 0

def emptyStandIns (rounds : Nat) : Value :=
  .list ((List.range rounds).map fun _ =>
    .bool (!Absent.isEngine && Absent.node.children.isEmpty && (Absent.parse ByteArray.empty).isNone))

end Arborist.Bench
