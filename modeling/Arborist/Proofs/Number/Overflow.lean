import Arborist.Proofs.Number.Rounding

/-!
The upper end of the 64-bit binary format.  A rational is rounded to infinity exactly if it lies at least
half a unit above the largest number of the format.
-/

namespace Arborist

theorem le_nearestInteger {value : Rat} {whole : Int} (low : (whole : Rat) ≤ value) :
    whole ≤ nearestInteger value := by
  have floorLow : whole ≤ value.floor := Rat.le_floor_iff.mpr low
  unfold nearestInteger
  dsimp only
  split_ifs <;> omega

theorem nearestInteger_le {value : Rat} {whole : Int} (high : value ≤ whole) :
    nearestInteger value ≤ whole := by
  have floorLow := Rat.floor_le value
  have floorHigh : value.floor ≤ whole := by
    have : (value.floor : Rat) ≤ whole := floorLow.trans high
    exact_mod_cast this
  unfold nearestInteger
  dsimp only
  rcases floorHigh.eq_or_lt with same | below
  · have exact : value - value.floor < 1 / 2 := by
      rw [same]
      linarith
    rw [if_pos exact, same]
  · split_ifs <;> omega

theorem even_le_nearestInteger_iff {value : Rat} {whole : Int} (even : whole % 2 = 0) :
    whole ≤ nearestInteger value ↔ (whole : Rat) - 1 / 2 ≤ value := by
  have floorLow := Rat.floor_le value
  have floorHigh := Rat.lt_floor_add_one value
  push_cast at floorHigh
  constructor
  · intro reached
    by_contra short
    have short := not_le.mp short
    have below : value.floor ≤ whole - 1 := by
      have : (value.floor : Rat) < whole := by linarith
      have : value.floor < whole := by exact_mod_cast this
      omega
    have cast : (value.floor : Rat) ≤ whole - 1 := by exact_mod_cast below
    unfold nearestInteger at reached
    dsimp only at reached
    rcases below.eq_or_lt with same | lower
    · have exact : value - value.floor < 1 / 2 := by
        rw [same]
        push_cast
        linarith
      rw [if_pos exact] at reached
      omega
    · split_ifs at reached <;> omega
  · intro near
    by_cases reached : whole ≤ value.floor
    · exact le_nearestInteger (Rat.le_floor_iff.mp reached)
    · have same : value.floor = whole - 1 := by
        have : (whole : Rat) - 2 < value.floor := by linarith
        have : whole - 2 < value.floor := by exact_mod_cast this
        omega
      have cast : (value.floor : Rat) = whole - 1 := by
        rw [same]
        push_cast
        ring
      have half : ¬ value - value.floor < 1 / 2 := by
        rw [cast]
        linarith
      have odd : ¬ (whole - 1) % 2 = 0 := by omega
      unfold nearestInteger
      dsimp only
      rw [if_neg half, same, if_neg odd]
      split <;> omega

namespace Binary64

/-- Where the format ends: half a unit of its largest number above that number. -/
def formatEnd : Int := (2 ^ 54 - 1) * 2 ^ 970

theorem cast_formatEnd : (formatEnd : Rat) = (2 ^ 54 - 1) * 2 ^ (970 : Int) := by
  unfold formatEnd
  rw [show (970 : Int) = (970 : Nat) from rfl, zpow_natCast]
  simp only [Int.cast_mul, Int.cast_sub, Int.cast_pow, Int.cast_ofNat, Int.cast_one]

theorem zpow_add_970 (more : Int) : (2 : Rat) ^ (more + 970) = 2 ^ more * 2 ^ (970 : Int) :=
  zpow_add₀ (by norm_num) more 970

theorem zpow_le_formatEnd : (2 : Rat) ^ (1023 : Int) ≤ formatEnd := by
  rw [cast_formatEnd, show (1023 : Int) = 53 + 970 from rfl, zpow_add_970]
  gcongr
  norm_num

theorem formatEnd_le_zpow : (formatEnd : Rat) ≤ 2 ^ (1024 : Int) := by
  rw [cast_formatEnd, show (1024 : Int) = 54 + 970 from rfl, zpow_add_970]
  gcongr
  norm_num

theorem ofPositive_eq_infinite_iff {value : Rat} (positive : 0 < value) :
    ofPositive value = .infinite false ↔ formatEnd ≤ value := by
  generalize unit_eq : (2 : Rat) ^ lastExponent value = unit
  have unitPositive : 0 < unit := by
    rw [← unit_eq]
    positivity
  have overflows : ofPositive value = .infinite false ↔
      (2 : Rat) ^ (1024 : Int) ≤ nearestInteger (value / unit) * unit := by
    rw [ofPositive_eq, unit_eq]
    dsimp only
    split
    next reached => exact iff_of_true rfl reached
    next below => exact iff_of_false (by simp) below
  have scaled (more : Int) : (2 : Rat) ^ (lastExponent value + more) = 2 ^ more * unit := by
    rw [zpow_add₀ (by norm_num), unit_eq, mul_comm]
  rw [overflows]
  obtain lower | same | higher := lt_trichotomy (lastExponent value) 971
  · -- the next power of two is still within the format
    have bound := lt_of_lastExponent positive
    have small : (2 : Rat) ^ (lastExponent value + 53) ≤ 2 ^ (1023 : Int) :=
      zpow_le_zpow_right₀ (by norm_num) (by omega)
    have rounded : nearestInteger (value / unit) ≤ 2 ^ 53 := by
      apply nearestInteger_le
      rw [div_le_iff₀ unitPositive]
      rw [scaled] at bound
      exact_mod_cast bound.le
    apply iff_of_false
    · apply not_le.mpr
      calc (nearestInteger (value / unit) : Rat) * unit ≤ 2 ^ (53 : Int) * unit := by
            gcongr
            exact_mod_cast rounded
        _ = 2 ^ (lastExponent value + 53) := (scaled 53).symm
        _ ≤ 2 ^ (1023 : Int) := small
        _ < 2 ^ (1024 : Int) := zpow_lt_zpow_right₀ (by norm_num) (by norm_num)
    · exact not_le.mpr (bound.trans_le (small.trans zpow_le_formatEnd))
  · -- the last 53 digits that the format has
    have double : unit = 2 ^ (1 : Int) * 2 ^ (970 : Int) := by
      rw [← unit_eq, same, ← zpow_add_970]
      rfl
    have top : (2 : Rat) ^ (1024 : Int) = (2 ^ 53 : Int) * unit := by
      rw [show (1024 : Int) = lastExponent value + 53 by omega, scaled]
      norm_num
    have edge : (formatEnd : Rat) = ((2 ^ 53 : Int) - 1 / 2) * unit := by
      rw [cast_formatEnd, double]
      generalize (2 : Rat) ^ (970 : Int) = last
      push_cast
      ring
    rw [top, mul_le_mul_iff_of_pos_right unitPositive, Int.cast_le,
      even_le_nearestInteger_iff (by norm_num), le_div_iff₀ unitPositive, edge]
  · -- a power of two is reached that the format does not have
    have normal := le_of_lastExponent positive (by omega)
    have large : (2 : Rat) ^ (1024 : Int) ≤ 2 ^ (lastExponent value + 52) :=
      zpow_le_zpow_right₀ (by norm_num) (by omega)
    have rounded : 2 ^ 52 ≤ nearestInteger (value / unit) := by
      apply le_nearestInteger
      rw [le_div_iff₀ unitPositive]
      rw [scaled] at normal
      exact_mod_cast normal
    apply iff_of_true
    · calc (2 : Rat) ^ (1024 : Int) ≤ 2 ^ (lastExponent value + 52) := large
        _ = 2 ^ (52 : Int) * unit := scaled 52
        _ ≤ nearestInteger (value / unit) * unit := by
            gcongr
            exact_mod_cast rounded
    · exact formatEnd_le_zpow.trans (large.trans normal)

theorem ofRat_eq_infinite_iff {value : Rat} : ofRat value = .infinite false ↔ formatEnd ≤ value := by
  by_cases positive : 0 < value
  · rw [ofRat_of_pos positive]
    exact ofPositive_eq_infinite_iff positive
  · apply iff_of_false
    · unfold ofRat
      rw [if_neg positive]
      split
      · simp
      · split
        · split <;> simp
        · simp
        next notInfinite => exact notInfinite false
    · have reached : (0 : Rat) < formatEnd := lt_of_lt_of_le (by positivity) zpow_le_formatEnd
      exact fun beyond => positive (reached.trans_le beyond)

end Binary64

end Arborist
