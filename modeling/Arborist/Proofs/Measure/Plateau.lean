import Mathlib
import Arborist.Measure.Report
import Arborist.Proofs.Cache.Key

/-!
When a report says that nothing more is gained.  The best count that is kept from round to round is the
least of all, with the number of rounds since it first came, so that three rounds without a better one show
in the counts themselves.
-/

namespace Arborist.Measure

/-! The best count. -/

/-- A best count in a history: the least of all, where it comes first. -/
structure Best.Leads (best : Best) (counts : List Int) : Prop where
  exists_split : ∃ before after, counts = before ++ best.count :: after ∧ after.length = best.age ∧
    (∀ count ∈ before, best.count < count) ∧ ∀ count ∈ after, best.count ≤ count

theorem bestOf_concat (counts : List Int) (count : Int) :
    bestOf (counts ++ [count]) = Best.next (bestOf counts) count := by
  rw [bestOf, List.foldl_append]
  rfl

namespace Best.Leads

variable {best : Best} {counts : List Int}

theorem next (leads : best.Leads counts) (count : Int) :
    ∃ after, Best.next (some best) count = some after ∧ after.Leads (counts ++ [count]) := by
  obtain ⟨before, after, rfl, age, higher, least⟩ := leads
  refine ⟨_, rfl, ?_⟩
  split
  next better =>
    refine ⟨before ++ best.count :: after, [], rfl, rfl, ?_, nofun⟩
    intro other member
    rw [List.mem_append, List.mem_cons] at member
    rcases member with earlier | rfl | later
    · exact Int.lt_trans better (higher other earlier)
    · exact better
    · exact Int.lt_of_lt_of_le better (least other later)
  next kept =>
    refine ⟨before, after ++ [count], ?_, ?_, higher, ?_⟩
    · rw [List.append_assoc, List.cons_append]
    · rw [List.length_append, age]
      rfl
    · intro other member
      rcases List.mem_append.mp member with later | last
      · exact least other later
      · obtain rfl := List.mem_singleton.mp last
        exact Int.not_lt.mp kept

theorem le_of_mem (leads : best.Leads counts) {count : Int} (member : count ∈ counts) : best.count ≤ count := by
  obtain ⟨before, after, rfl, -, higher, least⟩ := leads
  rw [List.mem_append, List.mem_cons] at member
  rcases member with earlier | rfl | later
  · exact Int.le_of_lt (higher count earlier)
  · exact Int.le_refl _
  · exact least count later

theorem min?_eq (leads : best.Leads counts) : counts.min? = some best.count := by
  rw [List.min?_eq_some_iff]
  refine ⟨?_, fun count => leads.le_of_mem⟩
  obtain ⟨before, after, rfl, -⟩ := leads
  exact List.mem_append_right _ List.mem_cons_self

theorem idxOf_add_age (leads : best.Leads counts) : counts.idxOf best.count + best.age + 1 = counts.length := by
  obtain ⟨before, after, rfl, age, higher, -⟩ := leads
  have absent : best.count ∉ before := fun member => Int.lt_irrefl _ (higher _ member)
  rw [List.idxOf_append_of_notMem absent, List.idxOf_cons_self, List.length_append, List.length_cons]
  omega

end Best.Leads

theorem exists_bestOf (counts : List Int) (count : Int) :
    ∃ best, bestOf (counts ++ [count]) = some best ∧ best.Leads (counts ++ [count]) := by
  induction counts using List.reverseRecOn generalizing count with
  | nil => exact ⟨⟨count, 0⟩, rfl, [], [], rfl, rfl, nofun, nofun⟩
  | append_singleton counts last ih =>
      obtain ⟨best, found, leads⟩ := ih last
      rw [bestOf_concat, found]
      exact leads.next count

/-! Three rounds without a better count. -/

/-- There are at least four counts, and none of the last three is below the least of those before. -/
structure Stale (counts : List Int) : Prop where
  enough : 4 ≤ counts.length
  none_better : ∀ least, (counts.take (counts.length - 3)).min? = some least →
    ∀ count ∈ counts.drop (counts.length - 3), ¬ count < least

namespace Best.Leads

variable {best : Best} {counts : List Int}

theorem count_mem (leads : best.Leads counts) : best.count ∈ counts :=
  (List.min?_eq_some_iff.mp leads.min?_eq).1

theorem stale_of_age (leads : best.Leads counts) (old : 3 ≤ best.age) : Stale counts := by
  have place := leads.idxOf_add_age
  refine ⟨by omega, ?_⟩
  intro least found count later below
  have early : best.count ∈ counts.take (counts.length - 3) := by
    apply (List.mem_take_iff_idxOf_lt leads.count_mem).mpr
    omega
  have bound : least ≤ best.count := (List.min?_eq_some_iff.mp found).2 best.count early
  have lowest : best.count ≤ count := leads.le_of_mem (List.mem_of_mem_drop later)
  omega

/-- If the best count came among the last three, it is itself below all those before. -/
theorem age_of_stale (leads : best.Leads counts) (stale : Stale counts) : 3 ≤ best.age := by
  apply Decidable.by_contra
  intro recent
  have place := leads.idxOf_add_age
  have enough := stale.enough
  have missing : best.count ∉ counts.take (counts.length - 3) := by
    rw [List.mem_take_iff_idxOf_lt leads.count_mem]
    omega
  have late : best.count ∈ counts.drop (counts.length - 3) := by
    have somewhere := leads.count_mem
    rw [← List.take_append_drop (counts.length - 3) counts, List.mem_append] at somewhere
    exact somewhere.resolve_left missing
  have some_before : counts.take (counts.length - 3) ≠ [] := by
    apply List.ne_nil_of_length_pos
    rw [List.length_take]
    omega
  obtain ⟨least, found⟩ := Option.isSome_iff_exists.mp (List.isSome_min?_of_ne_nil some_before)
  have among : least ∈ counts.take (counts.length - 3) := (List.min?_eq_some_iff.mp found).1
  apply stale.none_better least found best.count late
  apply lt_of_le_of_ne (leads.le_of_mem (List.mem_of_mem_take among))
  intro same
  exact missing (same ▸ among)

end Best.Leads

theorem plateau?_concat (counts : List Int) (count : Int) :
    ∃ best, best.Leads (counts ++ [count]) ∧
      ∀ other, plateau? (counts ++ [count]) = some other ↔ other = best ∧ Stale (counts ++ [count]) := by
  obtain ⟨best, found, leads⟩ := exists_bestOf counts count
  refine ⟨best, leads, ?_⟩
  intro other
  have old_iff : 3 ≤ best.age ↔ Stale (counts ++ [count]) := ⟨leads.stale_of_age, leads.age_of_stale⟩
  rw [plateau?, found, Option.filter_eq_some_iff, Option.some.injEq, decide_eq_true_eq, patience]
  constructor
  · intro both
    obtain ⟨rfl, old⟩ := both
    exact ⟨rfl, old_iff.mp old⟩
  · intro both
    obtain ⟨rfl, stale⟩ := both
    exact ⟨rfl, old_iff.mpr stale⟩

/-! The line that tells it. -/

namespace Stop

theorem line_plateau : ∃ rest, ∀ best : Best, (Stop.plateau best).line.toList =
    ">>> STOP: repo_time converged (no improvement in ".toList ++ ((Nat.repr best.age).toList ++ ' ' ::
      ("rounds; best ".toList ++ ((Int.repr best.count).toList ++ ' ' :: rest))) := by
  refine ⟨"below). ".toList ++ "Finalize microbench.py now. <<<".toList, ?_⟩
  intro best
  have rounds : " rounds; best ".toList = ' ' :: "rounds; best ".toList := by decide
  have below : " below). ".toList = ' ' :: "below). ".toList := by decide
  -- equations of the definition would evaluate its texts
  unfold Stop.line
  simp only [String.toList_append, toString, rounds, below, List.append_assoc, List.cons_append]

theorem blank_not_mem_natText (number : Nat) : ' ' ∉ (Nat.repr number).toList := by
  rw [Nat.repr_eq_ofList_toDigits, String.toList_ofList]
  intro member
  have digit := Nat.isDigit_of_mem_toDigits (by decide) (by decide) member
  cases digit

theorem blank_not_mem_intText (number : Int) : ' ' ∉ (Int.repr number).toList := by
  cases number with
  | ofNat size => exact blank_not_mem_natText size
  | negSucc size =>
      rw [Int.repr, String.toList_append, List.mem_append]
      intro either
      rcases either with sign | digits
      · revert sign
        decide
      · exact blank_not_mem_natText _ digits

theorem line_plateau_injective {best other : Best}
    (same : (Stop.plateau best).line = (Stop.plateau other).line) : best = other := by
  obtain ⟨rest, written⟩ := line_plateau
  have chars := congrArg String.toList same
  rw [written, written] at chars
  obtain ⟨ages, others⟩ := TreeCache.front_unique (blank_not_mem_natText _) (blank_not_mem_natText _)
    (List.append_cancel_left chars)
  obtain ⟨counts, -⟩ := TreeCache.front_unique (blank_not_mem_intText _) (blank_not_mem_intText _)
    (List.append_cancel_left others)
  have age : best.age = other.age := Nat.repr_inj.mp (String.toList_injective ages)
  have count : best.count = other.count := Int.repr_inj.mp (String.toList_injective counts)
  cases best
  cases other
  cases age
  cases count
  rfl

theorem take_line_plateau (best : Best) :
    (Stop.plateau best).line.toList.take 32 = ">>> STOP: repo_time converged (n".toList := by
  obtain ⟨rest, written⟩ := line_plateau
  rw [written, List.take_append_of_le_length (by decide)]
  decide

theorem line_noneBelow_ne (best : Best) : Stop.noneBelow.line ≠ (Stop.plateau best).line := by
  intro same
  have begins : Stop.noneBelow.line.toList.take 32 = ">>> STOP: repo_time converged (n".toList := by
    rw [same, take_line_plateau]
  revert begins
  unfold Stop.line
  decide

end Stop

theorem summaryLine_ne (round benches : Nat) (coverage : Coverage) (shares : List TimeShare)
    (checks : List SelfCheck) (seconds : Binary64) (best : Best) :
    summaryLine round benches coverage shares checks seconds ≠ (Stop.plateau best).line := by
  intro same
  have begins : (summaryLine round benches coverage shares checks seconds).toList.head? = some '[' := by
    unfold summaryLine
    rw [String.toList_append, String.toList_append]
    rfl
  have other := congrArg List.head? (Stop.take_line_plateau best)
  rw [List.head?_take, if_neg (by decide), ← same, begins] at other
  revert other
  decide

/-! The report. -/

def Outcomes.shares (outcomes : Outcomes) : List TimeShare :=
  TimeShare.ofDocument ((lastDocument "repotime" outcomes.timeShares).1.getD .null)

/-- The counts of all rounds that tell one, the current round last. -/
def allCounts (history : History) (outcomes : Outcomes) : List Int :=
  history.counts ++ [(TimeShare.belowCount outcomes.shares : Int)]

variable (coverage : Coverage) (outcomes : Outcomes) (errors : String) (history : History) (benches : Nat)
  (now seconds : Binary64)

theorem getLast?_report_lines : ∃ checks,
    (coverage.report outcomes errors history benches now seconds).lines.getLast? =
      some (((stop? coverage.percent history.counts (TimeShare.belowCount? outcomes.shares)).map Stop.line).getD
        (summaryLine history.round benches coverage outcomes.shares checks seconds)) := by
  refine ⟨SelfCheck.ofDocument ((lastDocument "semcheck" outcomes.selfChecks).1.getD .null)
    (!(changedFiles outcomes.changes).isEmpty), ?_⟩
  unfold Coverage.report Outcomes.shares
  cases lastDocument "repotime" outcomes.timeShares with
  | mk shareDocument shareErrors =>
      cases lastDocument "semcheck" outcomes.selfChecks with
      | mk checkDocument checkErrors =>
          dsimp only
          cases stop? coverage.percent history.counts
              (TimeShare.belowCount? (TimeShare.ofDocument (shareDocument.getD .null))) with
          | none => simp
          | some stop => simp

theorem belowCount?_of_valid {shares : List TimeShare} (valid : ∃ share ∈ shares, share.isValid = true) :
    TimeShare.belowCount? shares = some (TimeShare.belowCount shares) := by
  obtain ⟨share, member, known⟩ := valid
  have listed : share ∈ shares.filter TimeShare.isValid := List.mem_filter.mpr ⟨member, known⟩
  rw [TimeShare.belowCount?, if_neg]
  exact List.length_pos_of_mem listed |>.ne'

variable {coverage outcomes}

def oneBelow : Outcomes where
  coverage := .notStarted ""
  timeShares := .finished "\x7b\"repo_time_pct\": \x7b\"search\": 10\x7d\x7d" "" 0
  selfChecks := .notStarted ""
  changes := .notStarted ""

def roundWith (count : Int) : Value := .object [("n_below_repo_time", .int count)]

def hovering : History := ⟨3, some [roundWith 1, roundWith 2, roundWith 1]⟩

def wellCovered : Coverage := ⟨[], 0, 0, .finite 60, []⟩

end Arborist.Measure
