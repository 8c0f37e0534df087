import Mathlib.Data.List.Infix
import Mathlib.Data.Rat.Defs
import Arborist.Progress.Basic

/-!
What a scope of progress reports.  Whatever is done inside, no report goes beyond the total, updates by
steps that are not negative never go back, and the last report is the total, even if something is raised.
-/

namespace Arborist

def ProgressStep.Sets : ProgressStep → Prop
  | .setProgress _ => True
  | _ => False

def ProgressStep.Forward : ProgressStep → Prop
  | .update step => 0 ≤ step
  | _ => False

structure ProgressReport where
  call : ProgressStep
  progress : Int

/-- Reports that lead from one progress to another, as every step inside a scope makes them. -/
inductive ProgressLog (total : Int) : Int → List ProgressReport → Int → Prop where
  | done {start : Int} : ProgressLog total start [] start
  | next {start stop : Int} {report : ProgressReport} {rest : List ProgressReport}
      (bounded : report.progress ≤ total) (nonneg : report.call.Sets → 0 ≤ report.progress)
      (onward : report.call.Forward → start ≤ report.progress)
      (others : ProgressLog total report.progress rest stop) : ProgressLog total start (report :: rest) stop

namespace ProgressLog

variable {total start stop : Int} {reports : List ProgressReport}

theorem single {report : ProgressReport} (bounded : report.progress ≤ total)
    (nonneg : report.call.Sets → 0 ≤ report.progress) (onward : report.call.Forward → start ≤ report.progress) :
    ProgressLog total start [report] report.progress :=
  .next bounded nonneg onward .done

theorem append {middle : Int} {others : List ProgressReport} (first : ProgressLog total start reports middle)
    (second : ProgressLog total middle others stop) : ProgressLog total start (reports ++ others) stop := by
  induction first with
  | done => exact second
  | next bounded nonneg onward _ ih => exact .next bounded nonneg onward (ih second)

theorem split {others : List ProgressReport} (log : ProgressLog total start (reports ++ others) stop) :
    ∃ middle, ProgressLog total start reports middle ∧ ProgressLog total middle others stop := by
  induction reports generalizing start with
  | nil => exact ⟨start, .done, log⟩
  | cons report rest ih =>
      cases log with
      | next bounded nonneg onward log =>
          obtain ⟨middle, first, second⟩ := ih log
          exact ⟨middle, .next bounded nonneg onward first, second⟩

theorem of_mem (log : ProgressLog total start reports stop) {report : ProgressReport}
    (member : report ∈ reports) : report.progress ≤ total ∧ (report.call.Sets → 0 ≤ report.progress) := by
  induction log with
  | done => cases member
  | next bounded nonneg onward others ih =>
      cases member with
      | head => exact ⟨bounded, nonneg⟩
      | tail _ later => exact ih later

theorem getLast?_eq (log : ProgressLog total start reports stop) (some_report : reports ≠ []) :
    reports.getLast?.map ProgressReport.progress = some stop := by
  induction log with
  | done => exact absurd rfl some_report
  | @next start stop report rest bounded nonneg onward others ih =>
      cases rest with
      | nil =>
          cases others
          rfl
      | cons second rest =>
          rw [List.getLast?_cons_cons]
          exact ih (List.cons_ne_nil second rest)

theorem pairwise_le (log : ProgressLog total start reports stop)
    (forward : ∀ report ∈ reports, report.call.Forward) :
    (start :: reports.map ProgressReport.progress).Pairwise (· ≤ ·) := by
  induction log with
  | done => exact List.pairwise_singleton _ _
  | @next start stop report rest bounded nonneg onward others ih =>
      obtain ⟨first, later⟩ := List.forall_mem_cons.mp forward
      have sorted := ih later
      rw [List.map_cons, List.pairwise_cons]
      refine ⟨?_, sorted⟩
      intro progress member
      have step : start ≤ report.progress := onward first
      rcases List.mem_cons.mp member with rfl | below
      · exact step
      · exact Int.le_trans step ((List.pairwise_cons.mp sorted).1 progress below)

/-- Anywhere in the reports, a run of forward updates never goes back behind the report before it. -/
theorem pairwise_le_inside (log : ProgressLog total start reports stop) {first : ProgressReport}
    {run : List ProgressReport} (inside : first :: run <:+: reports)
    (forward : ∀ report ∈ run, report.call.Forward) :
    ((first :: run).map ProgressReport.progress).Pairwise (· ≤ ·) := by
  obtain ⟨before, after, rfl⟩ := inside
  obtain ⟨_, log, -⟩ := log.split
  obtain ⟨_, -, log⟩ := log.split
  cases log with
  | next bounded nonneg onward others => exact others.pairwise_le forward

end ProgressLog

/-! Contexts. -/

namespace ProgressContext

variable (context : ProgressContext) (report : Report)

@[simp] theorem currentStep_hear : (context.hear report).currentStep = context.currentStep := by
  unfold hear
  split <;> rfl

@[simp] theorem totalSteps_hear : (context.hear report).totalSteps = context.totalSteps := by
  unfold hear
  split <;> rfl

@[simp] theorem listener_hear : (context.hear report).listener = context.listener := by
  unfold hear
  split <;> rfl

variable {context}

theorem heard_hear (hears : context.listener.hears = true) :
    (context.hear report).heard = context.heard ++ [report] := by
  rw [hear, if_pos hears]

end ProgressContext

/-! One step. -/

namespace ProgressScope

variable {scope : ProgressScope} {total : Int}

/-- A scope that has reported where it is, not beyond the total. -/
structure Within (scope : ProgressScope) (total : Int) : Prop where
  total_eq : scope.total = total
  current_le : scope.current ≤ total
  currentStep_eq : scope.context.currentStep = scope.current
  totalSteps_eq : scope.context.totalSteps = total

theorem within_reported {current : Int} (same : scope.total = total) (bounded : current ≤ total) :
    (scope.reported current).Within total where
  total_eq := same
  current_le := bounded
  currentStep_eq := ProgressContext.currentStep_hear _ _
  totalSteps_eq := (ProgressContext.totalSteps_hear _ _).trans same

theorem heard_reported (hears : scope.context.listener.hears = true) (current : Int) :
    (scope.reported current).context.heard = scope.context.heard ++ [.progress current scope.total] :=
  ProgressContext.heard_hear _ hears

theorem listener_reported (scope : ProgressScope) (current : Int) :
    (scope.reported current).context.listener = scope.context.listener :=
  ProgressContext.listener_hear _ _

/-- What a step reports; one that only raises reports nothing. -/
def told (scope : ProgressScope) : ProgressStep → List ProgressReport
  | .raise _ => []
  | step => [⟨step, (scope.perform step).1.context.currentStep⟩]

/-- A step raises and leaves the scope, or it makes one report. -/
theorem perform_cases (nonneg : 0 ≤ total) (within : scope.Within total) (step : ProgressStep) :
    (scope.told step = [] ∧ (scope.perform step).1 = scope ∧ (scope.perform step).2.isSome) ∨
    ∃ progress, scope.told step = [⟨step, progress⟩] ∧ (scope.perform step).1 = scope.reported progress ∧
      progress ≤ total ∧ (step.Sets → 0 ≤ progress) ∧ (step.Forward → scope.current ≤ progress) := by
  obtain rfl := within.total_eq
  cases step with
  | update step =>
      refine .inr ⟨min (scope.current + step) scope.total, ?_, rfl, Int.min_le_right _ _, nofun, ?_⟩
      · rw [told, perform, update, reported, ProgressContext.report, ProgressContext.currentStep_hear]
        nofun
      · intro forward
        exact Int.le_min.mpr ⟨Int.le_add_of_nonneg_right forward, within.current_le⟩
  | setProgress value =>
      refine .inr ⟨max 0 (min value scope.total), ?_, rfl, ?_, fun _ => Int.le_max_left _ _, nofun⟩
      · rw [told, perform, setProgress, reported, ProgressContext.report, ProgressContext.currentStep_hear]
        nofun
      · exact Int.max_le.mpr ⟨nonneg, Int.min_le_right _ _⟩
  | raise message => exact .inl ⟨rfl, rfl, rfl⟩

/-! Steps until one raises. -/

def reports (scope : ProgressScope) : List ProgressStep → List ProgressReport
  | [] => []
  | step :: rest =>
    scope.told step ++
      if (scope.perform step).2.isSome then [] else (scope.perform step).1.reports rest

theorem runSteps_cons_fst (scope : ProgressScope) (step : ProgressStep) (rest : List ProgressStep) :
    (scope.runSteps (step :: rest)).1 =
      if (scope.perform step).2.isSome then (scope.perform step).1 else ((scope.perform step).1.runSteps rest).1 := by
  rw [runSteps]
  cases scope.perform step with
  | mk next raised =>
      cases raised with
      | none => rfl
      | some fault => rfl

theorem perform_within (nonneg : 0 ≤ total) (within : scope.Within total) (step : ProgressStep) :
    (scope.perform step).1.Within total ∧
      ProgressLog total scope.current (scope.told step) (scope.perform step).1.current := by
  rcases perform_cases nonneg within step with ⟨silent, same, -⟩ | ⟨progress, tells, next, bounded, sets, forward⟩
  · rw [silent, same]
    exact ⟨within, .done⟩
  · rw [tells, next]
    exact ⟨within_reported within.total_eq bounded, .single bounded sets forward⟩

theorem runSteps_within (nonneg : 0 ≤ total) (within : scope.Within total) (steps : List ProgressStep) :
    (scope.runSteps steps).1.Within total ∧
      ProgressLog total scope.current (scope.reports steps) (scope.runSteps steps).1.current := by
  induction steps generalizing scope with
  | nil => exact ⟨within, .done⟩
  | cons step rest ih =>
      obtain ⟨next, log⟩ := perform_within nonneg within step
      rw [reports, runSteps_cons_fst]
      split
      · rw [List.append_nil]
        exact ⟨next, log⟩
      · obtain ⟨last, others⟩ := ih next
        exact ⟨last, log.append others⟩

def heardAs (total : Int) (report : ProgressReport) : Report := .progress report.progress total

theorem heard_perform (nonneg : 0 ≤ total) (within : scope.Within total)
    (hears : scope.context.listener.hears = true) (step : ProgressStep) :
    (scope.perform step).1.context.listener.hears = true ∧
      (scope.perform step).1.context.heard = scope.context.heard ++ (scope.told step).map (heardAs total) := by
  rcases perform_cases nonneg within step with ⟨silent, same, -⟩ | ⟨progress, tells, next, -⟩
  · rw [silent, same]
    exact ⟨hears, (List.append_nil _).symm⟩
  · rw [tells, next, listener_reported, heard_reported hears, within.total_eq]
    exact ⟨hears, rfl⟩

theorem heard_runSteps (nonneg : 0 ≤ total) (within : scope.Within total)
    (hears : scope.context.listener.hears = true) (steps : List ProgressStep) :
    (scope.runSteps steps).1.context.listener.hears = true ∧
      (scope.runSteps steps).1.context.heard =
        scope.context.heard ++ (scope.reports steps).map (heardAs total) := by
  induction steps generalizing scope with
  | nil => exact ⟨hears, (List.append_nil _).symm⟩
  | cons step rest ih =>
      obtain ⟨still, heard⟩ := heard_perform nonneg within hears step
      rw [reports, runSteps_cons_fst]
      split
      · rw [List.append_nil]
        exact ⟨still, heard⟩
      · obtain ⟨last, others⟩ := ih (perform_within nonneg within step).1 still
        rw [others, heard, List.map_append, List.append_assoc]
        exact ⟨last, rfl⟩

/-! From opening to closing. -/

def fresh (context : ProgressContext) (total : Int) (description : String) : ProgressScope :=
  { context := context.tell "info" s!"Starting: {description}", total }

theorem heard_openScope {context : ProgressContext} (hears : context.listener.hears = true) (total : Int)
    (description : String) :
    (openScope context total description).context.listener.hears = true ∧
      (openScope context total description).context.heard =
        context.heard ++ .message "info" s!"Starting: {description}" ::
          ((fresh context total description).told (.update 0)).map (heardAs total) := by
  have start : (fresh context total description).context.listener.hears = true := by
    rw [fresh, ProgressContext.tell, ProgressContext.listener_hear]
    exact hears
  have begun : (fresh context total description).context.heard =
      context.heard ++ [.message "info" s!"Starting: {description}"] := ProgressContext.heard_hear _ hears
  have tells : ((fresh context total description).told (.update 0)).map (heardAs total) =
      [.progress (openScope context total description).current total] :=
    congrArg (fun progress => [Report.progress progress total]) (ProgressContext.currentStep_hear _ _)
  constructor
  · exact (congrArg Listener.hears (listener_reported _ _)).trans start
  · rw [tells, List.append_cons, ← begun]
    exact heard_reported start _

theorem openScope_within (nonneg : 0 ≤ total) (context : ProgressContext) (description : String) :
    (openScope context total description).Within total ∧
      ProgressLog total 0 ((fresh context total description).told (.update 0))
        (openScope context total description).current := by
  have within : (openScope context total description).Within total :=
    within_reported rfl (Int.min_le_right _ _)
  refine ⟨within, ?_⟩
  rw [← within.currentStep_eq]
  apply ProgressLog.single
  · exact within.currentStep_eq.trans_le within.current_le
  · nofun
  · intro _
    exact (Int.le_min.mpr ⟨Int.le_refl 0, nonneg⟩).trans_eq within.currentStep_eq.symm

def completed (scope : ProgressScope) : ProgressScope :=
  if scope.current < scope.total then (scope.perform (.setProgress scope.total)).1 else scope

def closing (scope : ProgressScope) : List ProgressReport :=
  if scope.current < scope.total then scope.told (.setProgress scope.total) else []

theorem completed_within (nonneg : 0 ≤ total) (within : scope.Within total) :
    scope.completed.Within total ∧ scope.completed.current = total ∧
      ProgressLog total scope.current scope.closing total := by
  rw [completed, closing]
  split
  next short =>
    obtain ⟨next, log⟩ := perform_within nonneg within (.setProgress scope.total)
    have ends : (scope.perform (.setProgress scope.total)).1.current = total := by
      change max 0 (min scope.total scope.total) = total
      rw [within.total_eq, Int.min_self, Int.max_eq_right nonneg]
    rw [ends] at log
    exact ⟨next, ends, log⟩
  next full =>
    have ends : scope.current = total := by
      have := within.current_le
      have := within.total_eq
      omega
    exact ⟨within, ends, ends ▸ .done⟩

theorem heard_completed (nonneg : 0 ≤ total) (within : scope.Within total)
    (hears : scope.context.listener.hears = true) :
    scope.completed.context.listener.hears = true ∧
      scope.completed.context.heard = scope.context.heard ++ scope.closing.map (heardAs total) := by
  rw [completed, closing]
  split
  · exact heard_perform nonneg within hears _
  · exact ⟨hears, (List.append_nil _).symm⟩

end ProgressScope

namespace ProgressContext

open ProgressScope

/-- All that is reported in a scope: on opening, inside and on closing. -/
def scopeReports (context : ProgressContext) (total : Int) (description : String) (steps : List ProgressStep) :
    List ProgressReport :=
  (fresh context total description).told (.update 0) ++
    (openScope context total description).reports steps ++
    ((openScope context total description).runSteps steps).1.closing

variable {context : ProgressContext} {total : Int} {description : String} {steps : List ProgressStep}

theorem context_runScope : (context.runScope total description steps).1.context =
    ((openScope context total description).runSteps steps).1.completed.context.tell "info"
      s!"Completed: {description}" := by
  rfl

theorem scopeReports_log (nonneg : 0 ≤ total) :
    ProgressLog total 0 (context.scopeReports total description steps) total := by
  obtain ⟨opened, first⟩ := openScope_within nonneg context description
  obtain ⟨ran, inside⟩ := runSteps_within nonneg opened steps
  obtain ⟨-, -, last⟩ := completed_within nonneg ran
  exact (first.append inside).append last

theorem runScope_recorded (context : ProgressContext) (description : String) (steps : List ProgressStep)
    (nonneg : 0 ≤ total) :
    (context.runScope total description steps).1.context.currentStep = total ∧
      (context.runScope total description steps).1.context.totalSteps = total := by
  obtain ⟨opened, -⟩ := openScope_within nonneg context description
  obtain ⟨ran, -⟩ := runSteps_within nonneg opened steps
  obtain ⟨within, ends, -⟩ := completed_within nonneg ran
  rw [context_runScope, tell, currentStep_hear, totalSteps_hear]
  exact ⟨within.currentStep_eq.trans ends, within.totalSteps_eq⟩

theorem percentFault?_zero (total : Int) : percentFault? 0 total = none := by
  have share : Binary64.quotient (0 : Int) total = .finite 0 := by
    rw [Binary64.quotient, Rat.div_def, Rat.intCast_zero, Rat.zero_mul, Binary64.ofRat, if_pos rfl]
  rw [percentFault?, share]
  split
  · rfl
  · decide +kernel

theorem percentFault?_self (total : Int) : percentFault? total total = none := by
  unfold percentFault?
  split
  · rfl
  next positive =>
    have nonzero : (total : Rat) ≠ 0 := by
      rw [Ne, Rat.intCast_eq_zero_iff]
      omega
    have share : Binary64.quotient total total = .finite 1 := by
      rw [Binary64.quotient, Rat.div_def, Rat.mul_inv_cancel _ nonzero]
      decide +kernel
    rw [share]
    decide +kernel

/-- Opening and closing raise nothing by themselves, so that what comes out of a scope was raised inside. -/
theorem failure?_ends (context : ProgressContext) (description : String) (steps : List ProgressStep)
    (nonneg : 0 ≤ total) :
    (openScope context total description).context.failure? = none ∧
      (context.runScope total description steps).1.context.failure? = none := by
  obtain ⟨opened, -⟩ := openScope_within nonneg context description
  obtain ⟨current, whole⟩ := runScope_recorded context description steps nonneg
  have begins : (openScope context total description).current = 0 := Int.min_eq_left nonneg
  rw [failure?, failure?, opened.currentStep_eq, begins, percentFault?_zero, current, whole, percentFault?_self,
    ite_self, ite_self]
  exact ⟨rfl, rfl⟩

theorem heard_runScope (nonneg : 0 ≤ total) (hears : context.listener.hears = true) :
    (context.runScope total description steps).1.context.heard =
      context.heard ++ .message "info" s!"Starting: {description}" ::
        (context.scopeReports total description steps).map (heardAs total) ++
        [.message "info" s!"Completed: {description}"] := by
  obtain ⟨opened, -⟩ := openScope_within nonneg context description
  obtain ⟨ran, -⟩ := runSteps_within nonneg opened steps
  obtain ⟨starts, begun⟩ := heard_openScope hears total description
  obtain ⟨goesOn, inside⟩ := heard_runSteps nonneg opened starts steps
  obtain ⟨ends, ended⟩ := heard_completed nonneg ran goesOn
  rw [context_runScope, tell, heard_hear _ ends, ended, inside, begun, scopeReports, List.map_append, List.map_append]
  simp only [List.append_assoc, List.cons_append]

/-- Every report is at most the total, one that sets progress is not negative, a run of updates that do not
go back never goes back behind the report before it, and the last report is the total, which the context
records.  Whoever listens has heard these reports. -/
theorem scope_bounded_and_complete (context : ProgressContext) (description : String) (steps : List ProgressStep)
    (nonneg : 0 ≤ total) :
    (∀ report ∈ context.scopeReports total description steps,
      report.progress ≤ total ∧ ((∃ value, report.call = .setProgress value) → 0 ≤ report.progress)) ∧
    (∀ first run, first :: run <:+: context.scopeReports total description steps →
      (∀ report ∈ run, ∃ step, report.call = .update step ∧ 0 ≤ step) →
      ((first :: run).map ProgressReport.progress).Pairwise (· ≤ ·)) ∧
    (context.scopeReports total description steps).getLast?.map ProgressReport.progress = some total ∧
    (context.runScope total description steps).1.context.currentStep = total ∧
    (context.runScope total description steps).1.context.totalSteps = total ∧
    (context.listener.hears = true → (context.runScope total description steps).1.context.heard =
      context.heard ++ .message "info" s!"Starting: {description}" ::
        (context.scopeReports total description steps).map (fun report => .progress report.progress total) ++
        [.message "info" s!"Completed: {description}"]) := by
  have log : ProgressLog total 0 (context.scopeReports total description steps) total := scopeReports_log nonneg
  obtain ⟨current, whole⟩ := runScope_recorded context description steps nonneg
  refine ⟨?_, ?_, ?_, current, whole, heard_runScope nonneg⟩
  · intro report member
    obtain ⟨bounded, sets⟩ := log.of_mem member
    refine ⟨bounded, ?_⟩
    intro setting
    obtain ⟨value, call⟩ := setting
    apply sets
    rw [call]
    trivial
  · intro first run inside forward
    apply log.pairwise_le_inside inside
    intro report member
    obtain ⟨step, call, onward⟩ := forward report member
    rw [call]
    exact onward
  · apply log.getLast?_eq
    nofun

def overflowing : List ProgressStep := [.update 2, .setProgress (-4), .update (-Int.pow 10 400), .update 1]

theorem scope_of_overflowing :
    (0 : Int) ≤ 5 ∧ (runScope {} 5 "count" overflowing).2.2.isSome = true ∧
    (scopeReports {} 5 "count" overflowing).map ProgressReport.progress = [0, 2, 0, -Int.pow 10 400, 5] ∧
    (runScope {} 5 "count" overflowing).1.context.currentStep = 5 := by
  have nonneg : (0 : Int) ≤ 5 := by decide
  obtain ⟨-, -, -, recorded, -, -⟩ := scope_bounded_and_complete {} "count" overflowing nonneg
  exact ⟨nonneg, by decide +kernel, by decide +kernel, recorded⟩

end ProgressContext

end Arborist
