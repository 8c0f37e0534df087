import Mathlib
import Arborist.Proofs.Search.Text

/-!
All matches of a text search, and the ones that a limit leaves.  The search stops in a file and between
files as soon as it has enough; together this comes to taking the first matches of all.
-/

namespace Arborist.Search

/-! Lines by their numbers, which start at 1. -/

def lineAt (lines : List (List Char)) (number : Nat) : List Char := lines.getD (number - 1) []

def numbersAround (count number reach : Nat) : List Nat :=
  let first := max 1 (number - reach)
  List.range' first (min count (number + reach) + 1 - first)

def matchAt (file : String) (reach : Nat) (lines : List (List Char)) (number : Nat) : TextMatch where
  file := file
  line := number
  text := shownLine (lineAt lines number)
  context := (numbersAround lines.length number reach).map fun near =>
    ⟨near, shownLine (lineAt lines near), near == number⟩

def matchingNumbers (test : LineTest) (lines : List (List Char)) : List Nat :=
  (List.range' 1 lines.length).filter fun number => test (lineAt lines number)

theorem mem_numbersAround {count number reach near : Nat} :
    near ∈ numbersAround count number reach ↔
      1 ≤ near ∧ near ≤ count ∧ number ≤ near + reach ∧ near ≤ number + reach := by
  simp only [numbersAround, List.mem_range'_1]
  omega

theorem mem_matchingNumbers {test : LineTest} {lines : List (List Char)} {number : Nat} :
    number ∈ matchingNumbers test lines ↔
      1 ≤ number ∧ number ≤ lines.length ∧ test (lineAt lines number) = true := by
  simp only [matchingNumbers, List.mem_filter, List.mem_range'_1, Nat.lt_one_add_iff, and_assoc]

theorem lineAt_succ {lines : List (List Char)} {index : Nat} (inside : index < lines.length) :
    lineAt lines (index + 1) = lines[index] := by
  simp [lineAt, inside]

theorem range_zip_eq (lines : List (List Char)) :
    (List.range lines.length).zip lines =
      (List.range' 1 lines.length).map fun number => (number - 1, lineAt lines number) := by
  apply List.ext_getElem
  · simp
  · intro index below _
    have inside : index < lines.length := by simpa using below
    simp [lineAt, inside]

theorem contextOf_eq (lines : List (List Char)) {number : Nat} (positive : 1 ≤ number)
    (inside : number ≤ lines.length) (reach : Nat) :
    contextOf lines.toArray (number - 1) reach =
      (numbersAround lines.length number reach).map fun near =>
        ⟨near, shownLine (lineAt lines near), near == number⟩ := by
  have first_eq : (max 0 (((number - 1 : Nat) : Int) - reach)).toNat = number - 1 - reach := by omega
  have last_eq : (min (lines.length : Int) (((number - 1 : Nat) : Int) + 1 + reach)).toNat =
      min lines.length (number + reach) := by omega
  have start_eq : max 1 (number - reach) = number - 1 - reach + 1 := by omega
  unfold contextOf numbersAround
  dsimp only
  rw [List.size_toArray, first_eq, last_eq, start_eq]
  generalize number - 1 - reach = first at *
  have shown_length : (lines.toArray.extract first (min lines.length (number + reach))).toList.length =
      min lines.length (number + reach) - first := by
    rw [Array.length_toList, Array.size_extract, List.size_toArray]
    omega
  apply List.ext_getElem
  · simp only [List.length_map, List.length_zip, List.length_range, List.length_range', shown_length]
    omega
  · intro index below _
    simp only [List.length_map, List.length_zip, List.length_range, shown_length] at below
    have within : first + index < lines.length := by omega
    have sameLine : (first + index == number - 1) = (first + index + 1 == number) := by
      rw [Bool.eq_iff_iff, beq_iff_eq, beq_iff_eq]
      omega
    simp only [List.getElem_map, List.getElem_zip, List.getElem_range, List.getElem_range', Nat.one_mul]
    rw [show first + 1 + index = first + index + 1 by omega, lineAt_succ within]
    simp only [Array.getElem_toList, Array.getElem_extract, List.getElem_toArray, sameLine]

theorem matchesIn_eq (file : String) (test : LineTest) (reach : Nat) (lines : List (List Char)) :
    matchesIn file test reach lines =
      (matchingNumbers test lines).map (matchAt file reach lines) := by
  unfold matchesIn
  dsimp only
  rw [range_zip_eq, List.filterMap_map, matchingNumbers, ← List.filterMap_eq_map, List.filterMap_filter]
  apply List.filterMap_congr
  intro number among
  obtain ⟨positive, inside⟩ := List.mem_range'_1.mp among
  simp only [Function.comp_apply, contextOf_eq lines positive (Nat.lt_one_add_iff.mp inside),
    Nat.sub_add_cancel positive]
  rfl

theorem flagged_matchAt (file : String) (reach : Nat) {lines : List (List Char)} {number : Nat}
    (positive : 1 ≤ number) (inside : number ≤ lines.length) :
    (matchAt file reach lines number).context.filter ContextLine.isMatch =
      [⟨number, shownLine (lineAt lines number), true⟩] := by
  have once : (numbersAround lines.length number reach).filter (· == number) = [number] := by
    have among : number ∈ numbersAround lines.length number reach :=
      mem_numbersAround.mpr ⟨positive, inside, by omega, by omega⟩
    have distinct : (numbersAround lines.length number reach).Nodup := List.nodup_range'
    rw [List.filter_beq, List.count_eq_one_of_mem distinct among, List.replicate_one]
  unfold matchAt
  rw [List.filter_map]
  simp only [Function.comp_def]
  rw [once]
  simp

/-! The files that are searched. -/

def isSearchable (store : Store) (settings : Settings) (root path : Path) : Bool :=
  store.isFile path && (Project.checkAccess store settings path.text root.text).isOk

def linesOf (store : Store) (path : Path) : List (List Char) :=
  match File.readBytes store path.text with
  | .ok bytes => Text.feedLines (File.plainText bytes)
  | .error _ => []

def matchesOf (store : Store) (root : Path) (test : LineTest) (reach : Nat) (path : Path) : List TextMatch :=
  let lines := linesOf store path
  (matchingNumbers test lines).map (matchAt ((path.relativeTo? root).getD path).text reach lines)

def TextQuery.fileGlob (query : TextQuery) : String :=
  let given := query.filePattern.getD ""
  if given = "" then "**/*" else given

/-! Limits that are numbers. -/

theorem reaches_int (count most : Nat) : reaches count (.int most) = .ok (decide (most ≤ count)) := by
  have compared : (Binary64.finite ((most : Int) : Rat)).le (.finite ((count : Int) : Rat)) =
      decide (most ≤ count) := by
    change (!decide (((count : Int) : Rat) < ((most : Int) : Rat))) = _
    simp [← decide_not]
  unfold reaches
  simp only [Value.number?, compared]

theorem takeUntilReached_int (most : Nat) (items : List α) :
    takeUntilReached (.int most) items = items.take (max 1 most) := by
  unfold takeUntilReached
  simp only [Value.number?, Rat.ceil_intCast, Int.toNat_natCast]

theorem cutTo_int (most : Nat) (items : List α) : cutTo (.int most) items = .ok (items.take most) := by
  have notNegative : ¬ (most : Int) < 0 := by omega
  simp [cutTo, itemRange, clampIndex, notNegative, List.take_eq_take_iff]

theorem take_append_take {before items : List α} {most bound : Nat} (enough : most ≤ bound) :
    (before ++ items.take bound).take most = (before ++ items).take most := by
  rw [List.take_append, List.take_append, List.take_take, Nat.min_eq_left (by omega)]

/-- Looking at the limit after each file, and cutting at the end, takes the first matches of all. -/
theorem matchesOver_cutTo {find all : Path → List TextMatch} {most : Nat}
    (finds : ∀ path, find path = (all path).take (max 1 most)) (before : List TextMatch)
    (paths : List Path) :
    (matchesOver find (.int most) before paths >>= cutTo (.int most)) =
      .ok ((before ++ paths.flatMap all).take most) := by
  induction paths generalizing before with
  | nil => simp [matchesOver, cutTo_int]
  | cons path rest ih =>
      simp only [matchesOver, reaches_int, Outcome.ok_bind, decide_eq_true_eq]
      rw [List.flatMap_cons, ← List.append_assoc]
      split
      next reached =>
        -- what the file has beyond the limit, and all later files, come after the matches taken
        have enough : most ≤ (before ++ all path).length := by
          rw [finds, List.length_append, List.length_take] at reached
          rw [List.length_append]
          omega
        rw [Outcome.pure_eq_ok, Outcome.ok_bind, cutTo_int, finds, take_append_take (Nat.le_max_right 1 most),
          List.take_append_of_le_length enough]
      next below =>
        have whole : find path = all path := by
          rw [finds, List.take_of_length_le]
          rw [finds, List.length_append, List.length_take] at below
          omega
        rw [ih, whole]

theorem fileMatches_eq (store : Store) (settings : Settings) (root : Path) (test : LineTest)
    (query : TextQuery) (most reach : Nat) (path : Path) :
    fileMatches store settings root test { query with limit := .int most, contextLines := reach } path =
      (if (Project.checkAccess store settings path.text root.text).isOk then
        matchesOf store root test reach path else []).take (max 1 most) := by
  unfold fileMatches matchesOf linesOf
  cases Project.checkAccess store settings path.text root.text with
  | error fault => simp [Except.isOk, Except.toBool]
  | ok granted =>
      cases File.readBytes store path.text with
      | error fault => simp [Except.isOk, Except.toBool, matchingNumbers]
      | ok bytes =>
          simp [Except.isOk, Except.toBool, takeUntilReached_int, matchesIn_eq]

theorem flatMap_ite {items : List α} {holds : α → Bool} {give : α → List β} :
    (items.flatMap fun item => if holds item then give item else []) =
      (items.filter holds).flatMap give := by
  induction items with
  | nil => rfl
  | cons item rest ih => cases keeps : holds item <;> simp [keeps, ih]

theorem TextQuery.fileGlob_eq (query : TextQuery) :
    (match query.filePattern with
      | some "" | none => "**/*"
      | some pattern => pattern) = query.fileGlob := by
  unfold TextQuery.fileGlob
  split
  next given => simp [given]
  next given => simp [given]
  next pattern nonempty given => simp [given, show pattern ≠ "" from nonempty]

def allMatches (store : Store) (settings : Settings) (root : Path) (test : LineTest) (reach : Nat)
    (paths : List Path) : List TextMatch :=
  (paths.filter (isSearchable store settings root)).flatMap (matchesOf store root test reach)

theorem flagged_of_mem_allMatches {store : Store} {settings : Settings} {root : Path} {test : LineTest}
    {reach : Nat} {paths : List Path} {found : TextMatch}
    (member : found ∈ allMatches store settings root test reach paths) :
    found.context.filter ContextLine.isMatch = [⟨found.line, found.text, true⟩] := by
  obtain ⟨path, -, inPath⟩ := List.mem_flatMap.mp member
  obtain ⟨number, matching, rfl⟩ := List.mem_map.mp inPath
  obtain ⟨positive, inside, -⟩ := mem_matchingNumbers.mp matching
  exact flagged_matchAt _ reach positive inside

end Arborist.Search
