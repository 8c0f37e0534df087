import Mathlib.Data.List.TakeWhile
import Arborist.Proofs.Number.Rounding

/-!
The shortest decimal text of a number.  Read as a decimal and rounded, it gives the number back, so
different numbers have different texts.
-/

namespace Arborist

namespace Decimal

def readDigits (digits : List Char) : Nat := Nat.ofDigitChars 10 digits 0

theorem readDigits_zeros_append (count : Nat) (digits : List Char) :
    readDigits (List.replicate count '0' ++ digits) = readDigits digits := by
  simp [readDigits, Nat.ofDigitChars_append]

theorem readDigits_append_zeros (digits : List Char) (count : Nat) :
    readDigits (digits ++ List.replicate count '0') = 10 ^ count * readDigits digits := by
  simp [readDigits, Nat.ofDigitChars_append]

@[simp] theorem readDigits_digitText (value : Nat) : readDigits (digitText value) = value :=
  Nat.ofDigitChars_ten_toDigits

@[simp] theorem readDigits_padZeros (width : Nat) (digits : List Char) :
    readDigits (padZeros width digits) = readDigits digits :=
  readDigits_zeros_append _ digits

theorem isDigit_of_mem_digitText {value : Nat} {char : Char} (member : char ∈ digitText value) :
    char.isDigit :=
  Nat.isDigit_of_mem_toDigits (by decide) (by decide) member

theorem isDigit_of_mem_padZeros {width value : Nat} {char : Char}
    (member : char ∈ padZeros width (digitText value)) : char.isDigit := by
  rcases List.mem_append.mp member with zero | digit
  · rw [List.eq_of_mem_replicate zero]
    decide
  · exact isDigit_of_mem_digitText digit

def readExponent : List Char → Int
  | '-' :: digits => -(readDigits digits)
  | '+' :: digits => readDigits digits
  | digits => readDigits digits

def readPositional (text : List Char) : Rat :=
  let whole := text.takeWhile (· ≠ '.')
  let fraction := (text.dropWhile (· ≠ '.')).drop 1
  readDigits (whole ++ fraction) * 10 ^ (-(fraction.length : Int))

def readMagnitude (text : List Char) : Rat :=
  readPositional (text.takeWhile (· ≠ 'e')) * 10 ^ readExponent ((text.dropWhile (· ≠ 'e')).drop 1)

theorem readPositional_point {whole : List Char} (clear : ∀ char ∈ whole, char ≠ '.')
    (fraction : List Char) :
    readPositional (whole ++ '.' :: fraction) =
      readDigits (whole ++ fraction) * 10 ^ (-(fraction.length : Int)) := by
  have passes : ∀ char ∈ whole, decide (char ≠ '.') = true := by simpa using clear
  unfold readPositional
  rw [List.takeWhile_append_of_pos passes, List.dropWhile_append_of_pos passes]
  simp

theorem readPositional_whole {whole : List Char} (clear : ∀ char ∈ whole, char ≠ '.') :
    readPositional whole = readDigits whole := by
  have passes : ∀ char ∈ whole, decide (char ≠ '.') = true := by simpa using clear
  unfold readPositional
  rw [List.takeWhile_eq_self_iff.mpr passes, List.dropWhile_eq_nil_iff.mpr passes]
  simp

theorem readMagnitude_positional {text : List Char} (clear : ∀ char ∈ text, char ≠ 'e') :
    readMagnitude text = readPositional text := by
  have passes : ∀ char ∈ text, decide (char ≠ 'e') = true := by simpa using clear
  unfold readMagnitude
  rw [List.takeWhile_eq_self_iff.mpr passes, List.dropWhile_eq_nil_iff.mpr passes]
  simp [readExponent, readDigits]

theorem readMagnitude_scientific {mantissa : List Char} (clear : ∀ char ∈ mantissa, char ≠ 'e')
    (exponent : List Char) :
    readMagnitude (mantissa ++ 'e' :: exponent) = readPositional mantissa * 10 ^ readExponent exponent := by
  have passes : ∀ char ∈ mantissa, decide (char ≠ 'e') = true := by simpa using clear
  unfold readMagnitude
  rw [List.takeWhile_append_of_pos passes, List.dropWhile_append_of_pos passes]
  simp

def Digits.value (decimal : Digits) : Rat :=
  readDigits decimal.digits * 10 ^ (decimal.exponent - decimal.digits.length + 1)

theorem ne_of_isDigit {digits : List Char} (clean : ∀ char ∈ digits, char.isDigit) {mark : Char}
    (isMark : mark.isDigit = false) : ∀ char ∈ digits, char ≠ mark := by
  rintro char member rfl
  simp [clean char member] at isMark

theorem readMagnitude_point {whole fraction : List Char} (wholeClean : ∀ char ∈ whole, char.isDigit)
    (fractionClean : ∀ char ∈ fraction, char.isDigit) :
    readMagnitude (whole ++ '.' :: fraction) =
      readDigits (whole ++ fraction) * 10 ^ (-(fraction.length : Int)) := by
  have noLetter : ∀ char ∈ whole ++ '.' :: fraction, char ≠ 'e' := by
    intro char member
    simp only [List.mem_append, List.mem_cons] at member
    rcases member with inWhole | rfl | inFraction
    · exact ne_of_isDigit wholeClean (by decide) char inWhole
    · decide
    · exact ne_of_isDigit fractionClean (by decide) char inFraction
  rw [readMagnitude_positional noLetter,
    readPositional_point (ne_of_isDigit wholeClean (by decide))]

theorem isDigit_append_zeros {digits : List Char} (clean : ∀ char ∈ digits, char.isDigit) (count : Nat) :
    ∀ char ∈ digits ++ List.replicate count '0', char.isDigit := by
  intro char member
  rcases List.mem_append.mp member with digit | zero
  · exact clean char digit
  · rw [List.eq_of_mem_replicate zero]
    decide

theorem readExponent_signed (exponent : Int) :
    readExponent ((if exponent < 0 then '-' else '+') :: padZeros 2 (digitText exponent.natAbs)) =
      exponent := by
  split
  · simp only [readExponent, readDigits_padZeros, readDigits_digitText]
    omega
  · simp only [readExponent, readDigits_padZeros, readDigits_digitText]
    omega

def pointed : List Char → List Char
  | [] => []
  | [only] => [only]
  | first :: others => first :: '.' :: others

theorem mem_pointed {digits : List Char} {char : Char} (member : char ∈ pointed digits) :
    char ∈ digits ∨ char = '.' := by
  match digits with
  | [] => cases member
  | [only] => exact .inl member
  | first :: second :: others =>
      simp only [pointed, List.mem_cons] at member ⊢
      rcases member with same | point | rest
      · exact .inl (.inl same)
      · exact .inr point
      · exact .inl (.inr rest)

theorem ne_of_mem_pointed {digits : List Char} (clean : ∀ char ∈ digits, char.isDigit) {mark : Char}
    (isMark : mark.isDigit = false) (notPoint : mark ≠ '.') : ∀ char ∈ pointed digits, char ≠ mark := by
  rintro char member rfl
  rcases mem_pointed member with digit | point
  · exact ne_of_isDigit clean isMark char digit rfl
  · exact notPoint point

theorem readPositional_pointed {digits : List Char} (clear : ∀ char ∈ digits, char ≠ '.') :
    readPositional (pointed digits) = readDigits digits * 10 ^ (1 - (digits.length : Int)) := by
  match digits with
  | [] => simp [pointed, readPositional, readDigits]
  | [only] => simp [pointed, readPositional_whole clear]
  | first :: second :: others =>
      have firstClear : ∀ char ∈ [first], char ≠ '.' := by simpa using clear first (by simp)
      have read := readPositional_point firstClear (second :: others)
      simp only [pointed, List.singleton_append] at read ⊢
      rw [read]
      simp

theorem Digits.text_cases {decimal : Digits} (clean : ∀ char ∈ decimal.digits, char.isDigit) :
    decimal.text.toList = pointed decimal.digits ++ 'e' :: (if decimal.exponent < 0 then '-' else '+') ::
        padZeros 2 (digitText decimal.exponent.natAbs) ∨
      ∃ whole fraction, decimal.text.toList = whole ++ '.' :: fraction ∧
        (∀ char ∈ whole, char.isDigit) ∧ (∀ char ∈ fraction, char.isDigit) ∧
        decimal.value = readDigits (whole ++ fraction) * 10 ^ (-(fraction.length : Int)) := by
  unfold Digits.text Digits.value
  dsimp only
  split
  next =>
    left
    rw [String.toList_ofList]
    rfl
  next positional =>
    right
    simp only [Bool.or_eq_true, decide_eq_true_eq, not_or, not_lt, not_le] at positional
    split
    next negative =>
      refine ⟨['0'], List.replicate (-decimal.exponent - 1).toNat '0' ++ decimal.digits, ?_, by simp, ?_, ?_⟩
      · rw [String.toList_ofList]
        rfl
      · intro char member
        exact isDigit_append_zeros clean _ char (List.mem_append.mpr (List.mem_append.mp member).symm)
      · have digits := readDigits_zeros_append ((-decimal.exponent - 1).toNat + 1) decimal.digits
        simp only [List.replicate_succ, List.cons_append] at digits
        simp only [List.cons_append, List.nil_append, digits, List.length_append, List.length_replicate]
        congr 2
        omega
    next nonneg =>
      split
      next short =>
        obtain ⟨zeros, zerosEq⟩ := Int.eq_ofNat_of_zero_le
          (by omega : 0 ≤ decimal.exponent - decimal.digits.length + 1)
        have count : (decimal.exponent + 1).toNat - decimal.digits.length = zeros := by omega
        refine ⟨decimal.digits ++ List.replicate zeros '0', ['0'], ?_, isDigit_append_zeros clean zeros,
          by simp, ?_⟩
        · rw [String.toList_ofList, count]
        · have digits := readDigits_append_zeros decimal.digits (zeros + 1)
          rw [List.replicate_succ', ← List.append_assoc] at digits
          rw [digits, zerosEq, zpow_natCast]
          push_cast
          rw [pow_succ, List.length_singleton, Nat.cast_one, zpow_neg_one]
          ring
      next long =>
        refine ⟨decimal.digits.take (decimal.exponent + 1).toNat,
          decimal.digits.drop (decimal.exponent + 1).toNat, by rw [String.toList_ofList],
          fun char member => clean char (List.mem_of_mem_take member),
          fun char member => clean char (List.mem_of_mem_drop member), ?_⟩
        rw [List.take_append_drop, List.length_drop]
        congr 2
        omega

theorem Digits.readMagnitude_text {decimal : Digits} (clean : ∀ char ∈ decimal.digits, char.isDigit) :
    readMagnitude decimal.text.toList = decimal.value := by
  rcases decimal.text_cases clean with scientific | ⟨whole, fraction, written, wholeClean, fractionClean, value⟩
  · have noPoint := ne_of_isDigit clean (by decide : '.'.isDigit = false)
    rw [scientific, readMagnitude_scientific (ne_of_mem_pointed clean (by decide) (by decide)),
      readPositional_pointed noPoint, readExponent_signed, mul_assoc, ← zpow_add₀ (by norm_num),
      Digits.value]
    congr 2
    ring
  · rw [written, readMagnitude_point wholeClean fractionClean, value]

/-! The search for the fewest digits. -/

theorem exists_digitText_length {value : Nat} (positive : 0 < value) :
    ∃ places, (digitText value).length = places + 1 ∧ 10 ^ places ≤ value ∧ value < 10 ^ (places + 1) := by
  obtain ⟨places, length⟩ :=
    Nat.exists_eq_succ_of_ne_zero (Nat.length_toDigits_pos (b := 10) (n := value)).ne'
  refine ⟨places, length, ?_, (Nat.length_toDigits_le_iff (by decide) (by omega)).mp length.le⟩
  cases places with
  | zero => simpa using Nat.succ_le_of_lt positive
  | succ fewer =>
      by_contra small
      have := (Nat.length_toDigits_le_iff (by decide : 1 < 10) (by omega)).mpr (not_le.mp small)
      omega

theorem exponentOf_spec {value : Rat} (positive : 0 < value) :
    (10 : Rat) ^ exponentOf value ≤ value ∧ value < 10 ^ (exponentOf value + 1) := by
  obtain ⟨numerator, same⟩ := Int.eq_ofNat_of_zero_le (Rat.num_pos.mpr positive).le
  have numeratorPositive : 0 < numerator := by
    have := Rat.num_pos.mpr positive
    omega
  obtain ⟨upper, upperLength, numLow, numHigh⟩ := exists_digitText_length numeratorPositive
  obtain ⟨lower, lowerLength, denLow, denHigh⟩ := exists_digitText_length value.den_pos
  have shape : exponentOf value =
      if value < 10 ^ ((upper : Int) - lower) then (upper : Int) - lower - 1 else (upper : Int) - lower := by
    simp [exponentOf, same, tenPow_eq_zpow, upperLength, lowerLength]
  rw [shape]
  apply exponent_of_quotient (by norm_num)
  · rw [same, zpow_natCast]
    exact_mod_cast numLow
  · rw [same]
    exact_mod_cast numHigh
  · rw [zpow_natCast]
    exact_mod_cast denLow
  · exact_mod_cast denHigh

theorem nonneg_of_mem_neighbours {value unit : Rat} (nonneg : 0 ≤ value / unit) {candidate : Int}
    (member : candidate ∈ neighbours value unit) : 0 ≤ candidate := by
  have low : 0 ≤ (value / unit).floor := Rat.le_floor_iff.mpr (by simpa using nonneg)
  unfold neighbours at member
  dsimp only at member
  split_ifs at member <;> simp only [List.mem_cons, List.not_mem_nil, or_false] at member <;> omega

theorem exists_near_neighbour (value : Rat) {unit : Rat} (positive : 0 < unit) :
    ∃ candidate ∈ neighbours value unit, |candidate * unit - value| ≤ unit / 2 := by
  have low := Rat.floor_le (value / unit)
  have high := Rat.lt_floor_add_one (value / unit)
  push_cast at high
  have distance (candidate : Int) (close : |candidate - value / unit| ≤ 1 / 2) :
      |candidate * unit - value| ≤ unit / 2 := by
    have scaled : candidate * unit - value = (candidate - value / unit) * unit := by
      rw [sub_mul, div_mul_cancel₀ value positive.ne']
    rw [scaled, abs_mul, abs_of_pos positive]
    linarith [mul_le_mul_of_nonneg_right close positive.le]
  by_cases nearer : value / unit - (value / unit).floor ≤ 1 / 2
  · refine ⟨(value / unit).floor, ?_, distance _ ?_⟩
    · unfold neighbours
      dsimp only
      split_ifs <;> simp
    · rw [abs_le]
      constructor <;> linarith
  · refine ⟨(value / unit).floor + 1, ?_, distance _ ?_⟩
    · unfold neighbours
      dsimp only
      split_ifs <;> simp
    · push_cast
      rw [abs_le]
      constructor <;> linarith

theorem exists_seventeen_digits {value : Rat} (held : Binary64.Held value) :
    ∃ candidate ∈ neighbours value (tenPow (exponentOf value - (17 : Nat) + 1)),
      Binary64.ofRat (candidate * tenPow (exponentOf value - (17 : Nat) + 1)) = .finite value := by
  have unitEq : tenPow (exponentOf value - (17 : Nat) + 1) * 10 ^ 16 = 10 ^ exponentOf value := by
    rw [tenPow_eq_zpow, ← zpow_natCast, ← zpow_add₀ (by norm_num)]
    congr 1
    push_cast
    ring
  have unitPositive : 0 < tenPow (exponentOf value - (17 : Nat) + 1) := by
    rw [tenPow_eq_zpow]
    positivity
  have low := (exponentOf_spec held.positive).1
  rw [← unitEq] at low
  clear unitEq
  generalize tenPow (exponentOf value - (17 : Nat) + 1) = unit at unitPositive low ⊢
  obtain ⟨candidate, member, near⟩ := exists_near_neighbour value unitPositive
  have valuePositive := held.positive
  have close : |candidate * unit - value| < value / 2 ^ 54 := by
    refine lt_of_le_of_lt near ?_
    norm_num at low ⊢
    linarith
  have nearPositive : 0 < (candidate : Rat) * unit := by
    have := (abs_lt.mp close).1
    norm_num at this
    linarith
  refine ⟨candidate, member, ?_⟩
  rw [Binary64.ofRat_of_pos nearPositive, Binary64.ofPositive_of_close held nearPositive close]

structure Digits.ReadsAs (decimal : Digits) (value : Rat) : Prop where
  clean : ∀ char ∈ decimal.digits, char.isDigit
  rounded : Binary64.ofRat decimal.value = .finite value

theorem readsAs_of_neighbour {value : Rat} (positive : 0 < value) {exponent : Int} {count : Nat}
    {candidate : Int} (member : candidate ∈ neighbours value (tenPow (exponent - count + 1)))
    (exact : Binary64.ofRat (candidate * tenPow (exponent - count + 1)) = .finite value) :
    Digits.ReadsAs ⟨digitText candidate.toNat, exponent + ((digitText candidate.toNat).length - count)⟩
      value where
  clean := fun _ member => isDigit_of_mem_digitText member
  rounded := by
    have unitPositive : 0 < tenPow (exponent - count + 1) := by
      rw [tenPow_eq_zpow]
      positivity
    have nonneg := nonneg_of_mem_neighbours (div_nonneg positive.le unitPositive.le) member
    obtain ⟨whole, rfl⟩ := Int.eq_ofNat_of_zero_le nonneg
    rw [← exact, tenPow_eq_zpow, Digits.value]
    simp only [Int.toNat_natCast, readDigits_digitText, Int.cast_natCast]
    congr 3
    ring

theorem shortestFrom_readsAs {value : Rat} (held : Binary64.Held value) {fuel count : Nat}
    (some : 0 < fuel) (total : fuel + count = 18) :
    (shortestFrom value (exponentOf value) fuel count).ReadsAs value := by
  induction fuel generalizing count with
  | zero => omega
  | succ fuel ih =>
      unfold shortestFrom
      dsimp only
      split
      next candidate found =>
        have exact := List.find?_some found
        exact readsAs_of_neighbour held.positive (List.mem_of_find?_eq_some found)
          (by simpa using exact)
      next none =>
        -- the last count never fails, so there is more to try
        have more : 0 < fuel := by
          rcases Nat.eq_zero_or_pos fuel with rfl | more
          · obtain rfl : count = 17 := by omega
            obtain ⟨candidate, member, exact⟩ := exists_seventeen_digits held
            have absent := List.find?_eq_none.mp none candidate member
            rw [decide_eq_true_eq] at absent
            exact absurd exact absent
          · exact more
        exact ih more (by omega)

theorem exists_zeros_behind (digits : List Char) :
    ∃ zeros, digits = (digits.reverse.dropWhile (· = '0')).reverse ++ List.replicate zeros '0' := by
  refine ⟨(digits.reverse.takeWhile (· = '0')).length, ?_⟩
  have allZeros : digits.reverse.takeWhile (· = '0') =
      List.replicate (digits.reverse.takeWhile (· = '0')).length '0' := by
    apply List.eq_replicate_of_mem
    intro char member
    simpa using List.mem_takeWhile_imp member
  rw [← List.reverse_replicate, ← allZeros, ← List.reverse_append, List.takeWhile_append_dropWhile,
    List.reverse_reverse]

theorem Digits.value_trimmed (decimal : Digits) :
    Digits.value { decimal with digits := (decimal.digits.reverse.dropWhile (· = '0')).reverse } =
      decimal.value := by
  obtain ⟨zeros, split⟩ := exists_zeros_behind decimal.digits
  generalize (decimal.digits.reverse.dropWhile (· = '0')).reverse = trimmed at split ⊢
  simp only [Digits.value, split, readDigits_append_zeros, List.length_append, List.length_replicate]
  push_cast
  rw [mul_comm ((10 : Rat) ^ zeros), mul_assoc, ← zpow_natCast, ← zpow_add₀ (by norm_num)]
  congr 2
  ring

theorem shortest_readsAs {value : Rat} (held : Binary64.Held value) : (shortest value).ReadsAs value := by
  obtain ⟨clean, rounded⟩ := shortestFrom_readsAs held (by decide : 0 < 17) (by decide : 17 + 1 = 18)
  refine ⟨?_, ?_⟩
  · intro char member
    apply clean char
    have inDropped := List.mem_reverse.mp member
    exact List.mem_reverse.mp ((List.dropWhile_sublist _).subset inDropped)
  · unfold shortest
    rw [Digits.value_trimmed, rounded]

def isDecimalChar (char : Char) : Bool := char.isDigit || ['.', 'e', '-', '+'].contains char

theorem Digits.isDecimalChar_of_mem_text {decimal : Digits}
    (clean : ∀ char ∈ decimal.digits, char.isDigit) : ∀ char ∈ decimal.text.toList, isDecimalChar char := by
  have ofDigit {char : Char} (digit : char.isDigit) : isDecimalChar char := by
    simp [isDecimalChar, digit]
  intro char member
  rcases decimal.text_cases clean with scientific | ⟨whole, fraction, written, wholeClean, fractionClean, -⟩
  · rw [scientific] at member
    simp only [List.mem_append, List.mem_cons] at member
    rcases member with mantissa | rfl | sign | exponent
    · rcases mem_pointed mantissa with digit | rfl
      · exact ofDigit (clean char digit)
      · decide
    · decide
    · split at sign <;> subst sign <;> decide
    · exact ofDigit (isDigit_of_mem_padZeros exponent)
  · rw [written] at member
    simp only [List.mem_append, List.mem_cons] at member
    rcases member with inWhole | rfl | inFraction
    · exact ofDigit (wholeClean char inWhole)
    · decide
    · exact ofDigit (fractionClean char inFraction)

private theorem append_ne_minus {front : List Char} (clear : ∀ char ∈ front, char ≠ '-') {mark : Char}
    (notMinus : mark ≠ '-') (behind rest : List Char) : front ++ mark :: behind ≠ '-' :: rest := by
  intro same
  cases front with
  | nil => exact notMinus (List.cons.inj same).1
  | cons first others => exact clear first (by simp) (List.cons.inj same).1

theorem Digits.text_ne_minus {decimal : Digits} (clean : ∀ char ∈ decimal.digits, char.isDigit)
    (rest : List Char) : decimal.text.toList ≠ '-' :: rest := by
  rcases decimal.text_cases clean with scientific | ⟨whole, fraction, written, wholeClean, -⟩
  · rw [scientific]
    exact append_ne_minus (ne_of_mem_pointed clean (by decide) (by decide)) (by decide) _ rest
  · rw [written]
    exact append_ne_minus (ne_of_isDigit wholeClean (by decide)) (by decide) _ rest

def readDecimal : List Char → Rat
  | '-' :: text => -readMagnitude text
  | text => readMagnitude text

theorem readDecimal_text {decimal : Digits} (clean : ∀ char ∈ decimal.digits, char.isDigit) :
    readDecimal decimal.text.toList = decimal.value := by
  rw [← Digits.readMagnitude_text clean]
  unfold readDecimal
  split
  next rest same => exact absurd same (Digits.text_ne_minus clean rest)
  next => rfl

theorem Digits.value_pos {decimal : Digits} {value : Rat} (positive : 0 < value)
    (reads : decimal.ReadsAs value) : 0 < decimal.value := by
  have nonneg : 0 ≤ decimal.value := by
    unfold Digits.value
    positivity
  refine lt_of_le_of_ne nonneg fun zero => positive.ne ?_
  have rounded := reads.rounded
  rw [← zero] at rounded
  exact Binary64.finite.inj rounded

end Decimal

namespace Binary64

open Decimal

/-- A finite number that the format has. -/
def Representable : Binary64 → Prop
  | .finite value => ofRat value = .finite value
  | _ => False

instance : DecidablePred Representable
  | .finite value => inferInstanceAs (Decidable (ofRat value = .finite value))
  | .negativeZero => isFalse id
  | .infinite _ => isFalse id
  | .undefined => isFalse id

theorem held_of_positive {value : Rat} (positive : 0 < value) (exact : ofRat value = .finite value) :
    Held value :=
  ⟨positive, by rwa [ofRat_of_pos positive] at exact⟩

theorem held_neg {value : Rat} (negative : value < 0) (exact : ofRat value = .finite value) :
    Held (-value) := by
  refine ⟨by linarith, ?_⟩
  rw [ofRat, if_neg negative.ne, if_neg (not_lt.mpr negative.le)] at exact
  cases rounded : ofPositive (-value) with
  | finite magnitude =>
      simp only [rounded] at exact
      split at exact
      · cases exact
      · rw [← Binary64.finite.inj exact, neg_neg]
  | negativeZero => simp [rounded] at exact
  | infinite sign => simp [rounded] at exact
  | undefined => simp [rounded] at exact

theorem ofRat_neg {value magnitude : Rat} (positive : 0 < value) (nonzero : magnitude ≠ 0)
    (exact : ofRat value = .finite magnitude) : ofRat (-value) = .finite (-magnitude) := by
  rw [ofRat_of_pos positive] at exact
  rw [ofRat, if_neg (by linarith : ¬ -value = 0), if_neg (by linarith), neg_neg, exact]
  simp [nonzero]

theorem shortestText_cases {number : Binary64} (representable : number.Representable) :
    number = .finite 0 ∨ ∃ decimal value, 0 < value ∧ Digits.ReadsAs decimal value ∧
      (number = .finite value ∧ number.shortestText.toList = decimal.text.toList ∨
        number = .finite (-value) ∧ number.shortestText.toList = '-' :: decimal.text.toList) := by
  match number with
  | .finite value =>
      have exact : ofRat value = .finite value := representable
      rcases lt_trichotomy value 0 with negative | rfl | positive
      · have held := held_neg negative exact
        refine .inr ⟨shortest (-value), -value, held.positive, shortest_readsAs held, .inr ⟨?_, ?_⟩⟩
        · rw [neg_neg]
        · simp [shortestText, negative, negative.ne]
      · exact .inl rfl
      · refine .inr ⟨shortest value, value, positive, shortest_readsAs (held_of_positive positive exact),
          .inl ⟨rfl, ?_⟩⟩
        simp [shortestText, positive.ne', not_lt.mpr positive.le]
  | .negativeZero => cases representable
  | .infinite _ => cases representable
  | .undefined => cases representable

/-- The text of a number, read as a decimal and rounded, gives the number back. -/
theorem ofRat_readDecimal_shortestText {number : Binary64} (representable : number.Representable) :
    ofRat (readDecimal number.shortestText.toList) = number := by
  rcases shortestText_cases representable with
    rfl | ⟨decimal, value, positive, reads, ⟨rfl, text⟩ | ⟨rfl, text⟩⟩
  · decide +kernel
  · rw [text, readDecimal_text reads.clean, reads.rounded]
  · rw [text, readDecimal, Digits.readMagnitude_text reads.clean,
      ofRat_neg (Digits.value_pos positive reads) positive.ne' reads.rounded]

theorem isDecimalChar_of_mem_shortestText {number : Binary64} (representable : number.Representable) :
    ∀ char ∈ number.shortestText.toList, isDecimalChar char := by
  rcases shortestText_cases representable with
    rfl | ⟨decimal, value, positive, reads, ⟨rfl, text⟩ | ⟨rfl, text⟩⟩
  · exact List.all_eq_true.mp (by decide +kernel)
  · rw [text]
    exact Digits.isDecimalChar_of_mem_text reads.clean
  · rw [text]
    intro char member
    rcases List.mem_cons.mp member with rfl | inText
    · decide
    · exact Digits.isDecimalChar_of_mem_text reads.clean char inText

theorem shortestText_injective {first second : Binary64} (firstRepresentable : first.Representable)
    (secondRepresentable : second.Representable) (same : first.shortestText = second.shortestText) :
    first = second := by
  rw [← ofRat_readDecimal_shortestText firstRepresentable,
    ← ofRat_readDecimal_shortestText secondRepresentable, same]

end Binary64

end Arborist
