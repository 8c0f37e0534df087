import Mathlib.Algebra.Order.Field.Power
import Mathlib.Algebra.Order.Field.Rat
import Mathlib.Tactic.Linarith
import Mathlib.Tactic.Positivity
import Mathlib.Tactic.Ring
import Mathlib.Tactic.NormNum
import Arborist.Number.Decimal

/-!
Rounding to the 64-bit binary format.  A rational that lies close enough to a representable number
is rounded to it.
-/

namespace Arborist

theorem intPow_eq_zpow (base : Int) (exponent : Int) :
    (if 0 ≤ exponent then ((Int.pow base exponent.toNat : Int) : Rat)
      else 1 / (Int.pow base (-exponent).toNat : Int)) = (base : Rat) ^ exponent := by
  split
  next nonneg =>
    obtain ⟨power, rfl⟩ := Int.eq_ofNat_of_zero_le nonneg
    simp [Int.pow_eq]
  next negative =>
    obtain ⟨power, same⟩ := Int.eq_ofNat_of_zero_le (by omega : 0 ≤ -exponent)
    obtain rfl : exponent = -(power : Int) := by omega
    simp [Int.pow_eq]

theorem twoPow_eq_zpow (exponent : Int) : twoPow exponent = (2 : Rat) ^ exponent :=
  intPow_eq_zpow 2 exponent

theorem tenPow_eq_zpow (exponent : Int) : tenPow exponent = (10 : Rat) ^ exponent :=
  intPow_eq_zpow 10 exponent

theorem exponent_of_quotient {base value : Rat} (large : 1 < base) {upper lower : Int}
    (numLow : base ^ upper ≤ value.num) (numHigh : (value.num : Rat) < base ^ (upper + 1))
    (denLow : base ^ lower ≤ value.den) (denHigh : (value.den : Rat) < base ^ (lower + 1)) :
    let exponent := if value < base ^ (upper - lower) then upper - lower - 1 else upper - lower
    base ^ exponent ≤ value ∧ value < base ^ (exponent + 1) := by
  have positive : 0 < base := by linarith
  have denPositive : (0 : Rat) < value.den := by exact_mod_cast value.den_pos
  have quotient : value = value.num / value.den := (Rat.num_div_den value).symm
  intro exponent
  by_cases below : value < base ^ (upper - lower)
  · have same : exponent = upper - lower - 1 := if_pos below
    rw [same, sub_add_cancel]
    refine ⟨?_, below⟩
    rw [quotient, le_div_iff₀ denPositive]
    calc base ^ (upper - lower - 1) * value.den
        ≤ base ^ (upper - lower - 1) * base ^ (lower + 1) := by gcongr
      _ = base ^ upper := by rw [← zpow_add₀ positive.ne']; congr 1; ring
      _ ≤ value.num := numLow
  · have same : exponent = upper - lower := if_neg below
    rw [same]
    refine ⟨not_lt.mp below, ?_⟩
    rw [quotient, div_lt_iff₀ denPositive]
    calc (value.num : Rat) < base ^ (upper + 1) := numHigh
      _ = base ^ (upper - lower + 1) * base ^ lower := by rw [← zpow_add₀ positive.ne']; congr 1; ring
      _ ≤ base ^ (upper - lower + 1) * value.den := by gcongr

theorem binaryExponent_spec {value : Rat} (positive : 0 < value) :
    (2 : Rat) ^ binaryExponent value ≤ value ∧ value < 2 ^ (binaryExponent value + 1) := by
  obtain ⟨numerator, same⟩ := Int.eq_ofNat_of_zero_le (Rat.num_pos.mpr positive).le
  have numeratorNe : numerator ≠ 0 := by
    rintro rfl
    exact (Rat.num_pos.mpr positive).ne' same
  have shape : binaryExponent value =
      if value < 2 ^ ((numerator.log2 : Int) - value.den.log2) then
        (numerator.log2 : Int) - value.den.log2 - 1
      else (numerator.log2 : Int) - value.den.log2 := by
    simp [binaryExponent, same, twoPow_eq_zpow]
  rw [shape]
  apply exponent_of_quotient (by norm_num)
  · rw [same, zpow_natCast]
    exact_mod_cast Nat.log2_self_le numeratorNe
  · rw [same]
    exact_mod_cast Nat.lt_log2_self (n := numerator)
  · rw [zpow_natCast]
    exact_mod_cast Nat.log2_self_le value.den_nz
  · exact_mod_cast Nat.lt_log2_self (n := value.den)

theorem nearestInteger_eq_of_close {value : Rat} {whole : Int} (close : |value - whole| < 1 / 2) :
    nearestInteger value = whole := by
  obtain ⟨low, high⟩ := abs_lt.mp close
  have floorLow := Rat.floor_le value
  have floorHigh := Rat.lt_floor_add_one value
  push_cast at floorHigh
  have lower : value.floor < whole + 1 := by
    have : (value.floor : Rat) < whole + 1 := by linarith
    exact_mod_cast this
  have upper : whole - 1 < value.floor + 1 := by
    have : (whole : Rat) - 1 < value.floor + 1 := by linarith
    exact_mod_cast this
  obtain same | same : value.floor = whole ∨ value.floor = whole - 1 := by omega
  · unfold nearestInteger
    rw [if_pos (by rw [same]; linarith), same]
  · have cast : (value.floor : Rat) = whole - 1 := by rw [same]; push_cast; ring
    unfold nearestInteger
    rw [if_neg (by rw [cast]; linarith), if_pos (by rw [cast]; linarith), same]
    ring

theorem nearestInteger_nonneg {value : Rat} (nonneg : 0 ≤ value) : 0 ≤ nearestInteger value := by
  have low : 0 ≤ value.floor := Rat.le_floor_iff.mpr (by simpa using nonneg)
  unfold nearestInteger
  dsimp only
  split_ifs <;> omega

theorem towardZero_nonneg {value : Rat} (nonneg : 0 ≤ value) : 0 ≤ towardZero value :=
  Int.tdiv_nonneg (Rat.num_nonneg.mpr nonneg) (Int.natCast_nonneg _)

namespace Binary64

def lastExponent (value : Rat) : Int := max (binaryExponent value - 52) (-1074)

theorem lt_of_lastExponent {value : Rat} (positive : 0 < value) :
    value < 2 ^ (lastExponent value + 53) :=
  calc value < 2 ^ (binaryExponent value + 1) := (binaryExponent_spec positive).2
    _ ≤ 2 ^ (lastExponent value + 53) := by
        apply zpow_le_zpow_right₀ (by norm_num)
        have := le_max_left (binaryExponent value - 52) (-1074)
        unfold lastExponent
        omega

theorem le_of_lastExponent {value : Rat} (positive : 0 < value) (normal : -1074 < lastExponent value) :
    2 ^ (lastExponent value + 52) ≤ value := by
  have same : lastExponent value + 52 = binaryExponent value := by
    unfold lastExponent at normal ⊢
    omega
  rw [same]
  exact (binaryExponent_spec positive).1

theorem ofPositive_eq (value : Rat) :
    ofPositive value =
      let rounded : Rat := nearestInteger (value / 2 ^ lastExponent value) * 2 ^ lastExponent value
      if 2 ^ (1024 : Int) ≤ rounded then .infinite false else .finite rounded := by
  simp only [ofPositive, twoPow_eq_zpow]
  rfl

structure Held (value : Rat) : Prop where
  positive : 0 < value
  exact : ofPositive value = .finite value

theorem Held.exists_integer {value : Rat} (held : Held value) :
    ∃ mantissa : Int, value = mantissa * 2 ^ lastExponent value := by
  have rounded := held.exact
  rw [ofPositive_eq] at rounded
  dsimp only at rounded
  split at rounded
  · cases rounded
  · exact ⟨_, (Binary64.finite.inj rounded).symm⟩

theorem Held.lt_overflow {value : Rat} (held : Held value) : value < 2 ^ (1024 : Int) := by
  have rounded := held.exact
  rw [ofPositive_eq] at rounded
  dsimp only at rounded
  split at rounded
  · cases rounded
  next small => simpa only [Binary64.finite.inj rounded, not_le] using small

theorem exists_integer_of_le {value : Rat} {high low : Int} {mantissa : Int}
    (multiple : value = mantissa * 2 ^ high) (below : low ≤ high) :
    ∃ finer : Int, value = finer * 2 ^ low := by
  obtain ⟨step, same⟩ := Int.eq_ofNat_of_zero_le (by omega : 0 ≤ high - low)
  refine ⟨mantissa * 2 ^ step, ?_⟩
  rw [multiple, show high = step + low by omega, zpow_add₀ (by norm_num : (2 : Rat) ≠ 0), zpow_natCast]
  push_cast
  ring

theorem unit_le_sub {unit : Rat} (positive : 0 < unit) {first second : Int}
    (less : (first : Rat) * unit < second * unit) : unit ≤ second * unit - first * unit := by
  have apart : first + 1 ≤ second := by
    have : (first : Rat) < second := lt_of_mul_lt_mul_right less positive.le
    exact_mod_cast this
  have cast : (first : Rat) + 1 ≤ second := by exact_mod_cast apart
  calc unit = 1 * unit := (one_mul unit).symm
    _ ≤ (second - first) * unit := by gcongr; linarith
    _ = second * unit - first * unit := by ring

/-! Signs. -/

theorem ofRat_of_pos {value : Rat} (positive : 0 < value) : ofRat value = ofPositive value := by
  rw [ofRat, if_neg positive.ne', if_pos positive]

theorem ofRat_nonneg {value result : Rat} (nonneg : 0 ≤ value)
    (denotes : (ofRat value).toRat? = some result) : 0 ≤ result := by
  unfold ofRat at denotes
  split at denotes
  · simp only [toRat?, Option.some.injEq] at denotes
    exact denotes.le
  next notZero =>
    have positive : 0 < value := lt_of_le_of_ne nonneg (Ne.symm notZero)
    rw [if_pos positive, ofPositive_eq] at denotes
    dsimp only at denotes
    split at denotes
    · simp [toRat?] at denotes
    · simp only [toRat?, Option.some.injEq] at denotes
      have whole := nearestInteger_nonneg (div_nonneg nonneg (by positivity : (0 : Rat) ≤ 2 ^ lastExponent value))
      rw [← denotes]
      have : (0 : Rat) ≤ nearestInteger (value / 2 ^ lastExponent value) := by exact_mod_cast whole
      positivity

theorem toRat?_mul {left right : Binary64} {result : Rat}
    (denotes : (left.mul right).toRat? = some result) :
    ∃ first second, left.toRat? = some first ∧ right.toRat? = some second ∧
      (result = 0 ∨ (ofRat (first * second)).toRat? = some result) := by
  unfold mul at denotes
  dsimp only at denotes
  split at denotes
  · simp [toRat?] at denotes
  · simp [toRat?] at denotes
  · split at denotes <;> simp [toRat?] at denotes
  · split at denotes <;> simp [toRat?] at denotes
  · split at denotes
    next first second leftFinite rightFinite =>
      refine ⟨first, second, leftFinite, rightFinite, ?_⟩
      split at denotes
      · left
        split at denotes <;> simpa [toRat?, eq_comm] using denotes
      · exact .inr denotes
    next => simp [toRat?] at denotes

theorem towardZero_mul_nonneg {left right : Rat} (leftNonneg : 0 ≤ left) (rightNonneg : 0 ≤ right) :
    0 ≤ towardZero (((ofRat left).mul (ofRat right)).toRat?.getD 0) := by
  apply towardZero_nonneg
  cases denotes : ((ofRat left).mul (ofRat right)).toRat? with
  | none => simp
  | some result =>
      obtain ⟨first, second, firstOf, secondOf, rfl | rounded⟩ := toRat?_mul denotes
      · simp
      · exact ofRat_nonneg (mul_nonneg (ofRat_nonneg leftNonneg firstOf) (ofRat_nonneg rightNonneg secondOf))
          rounded

section Close

variable {value near : Rat} (held : Held value) (positive : 0 < near)
  (close : |near - value| < value / 2 ^ 54)

include held positive close

/-- A near number is not rounded more coarsely: else a power of two would lie between the two. -/
theorem lastExponent_le_of_close : lastExponent near ≤ lastExponent value := by
  by_contra coarser
  have coarser := not_le.mp coarser
  obtain ⟨mantissa, multiple⟩ := held.exists_integer
  generalize held_unit : (2 : Rat) ^ lastExponent value = unit at multiple
  have unitPositive : 0 < unit := by rw [← held_unit]; positivity
  have boundary : (2 : Rat) ^ (lastExponent value + 53) = (2 ^ 53 : Int) * unit := by
    rw [zpow_add₀ (by norm_num), held_unit, mul_comm]
    norm_num
  have below : value < (2 ^ 53 : Int) * unit := boundary ▸ lt_of_lastExponent held.positive
  have above : ((2 ^ 53 : Int) : Rat) * unit ≤ near := by
    rw [← boundary]
    calc (2 : Rat) ^ (lastExponent value + 53) ≤ 2 ^ (lastExponent near + 52) := by
          exact zpow_le_zpow_right₀ (by norm_num) (by omega)
      _ ≤ near := le_of_lastExponent positive (lt_of_le_of_lt (le_max_right _ _) coarser)
  have apart : unit ≤ (2 ^ 53 : Int) * unit - value := by
    rw [multiple] at below ⊢
    exact unit_le_sub unitPositive below
  have distance := (abs_lt.mp close).2
  norm_num at below above apart distance
  linarith

theorem le_of_close : value ≤ 2 ^ 53 * 2 ^ lastExponent near := by
  obtain ⟨coarse, multiple⟩ := held.exists_integer
  obtain ⟨mantissa, multiple⟩ :=
    exists_integer_of_le multiple (lastExponent_le_of_close held positive close)
  have bound : near < 2 ^ 53 * 2 ^ lastExponent near := by
    have := lt_of_lastExponent positive
    rwa [zpow_add₀ (by norm_num), mul_comm] at this
  generalize (2 : Rat) ^ lastExponent near = unit at multiple bound ⊢
  have unitPositive : 0 < unit := by linarith
  by_contra above
  have above : ((2 ^ 53 : Int) : Rat) * unit < value := by
    push_cast
    exact not_le.mp above
  have apart : unit ≤ value - (2 ^ 53 : Int) * unit := by
    rw [multiple] at above ⊢
    exact unit_le_sub unitPositive above
  have distance := (abs_lt.mp close).1
  norm_num at bound above apart distance
  linarith

theorem ofPositive_of_close : ofPositive near = .finite value := by
  obtain ⟨coarse, multiple⟩ := held.exists_integer
  obtain ⟨mantissa, multiple⟩ :=
    exists_integer_of_le multiple (lastExponent_le_of_close held positive close)
  have bound := le_of_close held positive close
  have unitPositive : (0 : Rat) < 2 ^ lastExponent near := by positivity
  have nearest : nearestInteger (near / 2 ^ lastExponent near) = mantissa := by
    apply nearestInteger_eq_of_close
    have scaled : near / 2 ^ lastExponent near - mantissa =
        (near - value) / 2 ^ lastExponent near := by
      rw [sub_div, multiple, mul_div_cancel_right₀ _ unitPositive.ne']
    rw [scaled, abs_div, abs_of_pos unitPositive, div_lt_iff₀ unitPositive]
    norm_num at close bound ⊢
    linarith
  rw [ofPositive_eq]
  dsimp only
  rw [nearest, ← multiple, if_neg (not_le.mpr held.lt_overflow)]

end Close

end Binary64

end Arborist
