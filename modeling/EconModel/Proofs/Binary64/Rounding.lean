import EconModel.Binary64
import Mathlib

/-!
# Rounding to doubles

The model of doubles rounds by shifting a mantissa to the right and keeping two bits of what is
lost.  Here the same is said of rational numbers: `mantissaAt` cuts a number off at an exponent, one
shift leads from an exponent to the next, and so the double that a number rounds to, `ofRat`,
depends on nothing but the number.  Products and quotients of doubles are rounded this way, however
their operands are represented.
-/

namespace EconModel

namespace Binary64

open Float.Model Float.Model.UnpackedFloat

/-- The mantissa of a number at an exponent, with the two bits that say what is cut off: whether it
is at least a half, and whether it is neither zero nor a half. -/
def mantissaAt (value : ℚ) (exponent : ℤ) : ExtendedMantissa :=
  let scaled := value / 2 ^ exponent
  let whole := ⌊scaled⌋₊
  ⟨whole, decide (whole + 1 / 2 ≤ scaled), decide (scaled ≠ whole ∧ scaled ≠ whole + 1 / 2)⟩

/-- A number between two whole ones tells its mantissa. -/
theorem mantissaAt_eq {value : ℚ} {exponent : ℤ} {whole : ℕ} {half rest : Bool}
    (below : (whole : ℚ) ≤ value / 2 ^ exponent) (above : value / 2 ^ exponent < whole + 1)
    (half_iff : half = true ↔ (whole : ℚ) + 1 / 2 ≤ value / 2 ^ exponent)
    (rest_iff : rest = true ↔
      value / 2 ^ exponent ≠ whole ∧ value / 2 ^ exponent ≠ whole + 1 / 2) :
    mantissaAt value exponent = ⟨whole, half, rest⟩ := by
  have floor_eq : ⌊value / 2 ^ exponent⌋₊ = whole :=
    (Nat.floor_eq_iff (le_trans (Nat.cast_nonneg whole) below)).mpr ⟨below, above⟩
  rw [mantissaAt, floor_eq]
  congr 1
  · rw [Bool.eq_iff_iff, decide_eq_true_iff, half_iff]
  · rw [Bool.eq_iff_iff, decide_eq_true_iff, rest_iff]

theorem div_two_zpow_succ (value : ℚ) (exponent : ℤ) :
    value / 2 ^ (exponent + 1) = value / 2 ^ exponent / 2 := by
  rw [zpow_add_one₀ two_ne_zero, div_div]

/-- A shift by one place raises the exponent by one. -/
theorem shiftRightOne_mantissaAt {value : ℚ} (nonneg : 0 ≤ value) (exponent : ℤ) :
    (mantissaAt value exponent).shiftRightOne = mantissaAt value (exponent + 1) := by
  have scaled_nonneg : 0 ≤ value / 2 ^ exponent := by positivity
  have below := Nat.floor_le scaled_nonneg
  have above := Nat.lt_floor_add_one (value / 2 ^ exponent)
  have halved := div_two_zpow_succ value exponent
  have cut : mantissaAt value exponent = ⟨⌊value / 2 ^ exponent⌋₊, _, _⟩ := rfl
  symm
  rw [cut, ExtendedMantissa.shiftRightOne]
  dsimp only
  generalize value / 2 ^ exponent = scaled at *
  generalize ⌊scaled⌋₊ = whole at *
  -- The lowest bit of the mantissa becomes the half that is cut off.
  obtain ⟨upper, parity⟩ := Nat.even_or_odd' whole
  rcases parity with rfl | rfl
  · have lower : (2 * upper) / 2 = upper := by omega
    have lowest : (2 * upper) % 2 = 0 := by omega
    push_cast at below above ⊢
    rw [lower, lowest]
    refine mantissaAt_eq ?_ ?_ ?_ ?_ <;> rw [halved]
    · linarith
    · linarith
    · simp only [bne_self_eq_false, Bool.false_eq_true, false_iff, not_le]
      linarith
    · simp only [Bool.or_eq_true, decide_eq_true_eq]
      constructor
      · rintro (half | ⟨nonzero, _⟩)
        · exact ⟨fun same => by linarith, fun same => by linarith⟩
        · exact ⟨fun same => nonzero (by linarith), fun same => by linarith⟩
      · rintro ⟨nonzero, _⟩
        by_cases half : 2 * (upper : ℚ) + 1 / 2 ≤ scaled
        · exact .inl half
        · exact .inr ⟨fun same => nonzero (by linarith), fun same => half same.ge⟩
  · have lower : (2 * upper + 1) / 2 = upper := by omega
    have lowest : (2 * upper + 1) % 2 = 1 := by omega
    push_cast at below above ⊢
    rw [lower, lowest]
    refine mantissaAt_eq ?_ ?_ ?_ ?_ <;> rw [halved]
    · linarith
    · linarith
    · simp only [bne_iff_ne, ne_eq, one_ne_zero, not_false_eq_true, true_iff]
      linarith
    · simp only [Bool.or_eq_true, decide_eq_true_eq]
      constructor
      · rintro (half | ⟨nonzero, _⟩)
        · exact ⟨fun same => by linarith, fun same => by linarith⟩
        · exact ⟨fun same => by linarith, fun same => nonzero (by linarith)⟩
      · rintro ⟨_, nonzero⟩
        by_cases half : 2 * (upper : ℚ) + 1 + 1 / 2 ≤ scaled
        · exact .inl half
        · exact .inr ⟨fun same => nonzero (by linarith), fun same => half same.ge⟩

theorem shiftRight_mantissaAt {value : ℚ} (nonneg : 0 ≤ value) (exponent : ℤ) (places : ℕ) :
    mantissaAt value exponent >>> places = mantissaAt value (exponent + places) := by
  induction places with
  | zero =>
      rw [Nat.cast_zero, add_zero]
      rfl
  | succ places ih =>
      change (mantissaAt value exponent >>> places).shiftRightOne = _
      rw [ih, shiftRightOne_mantissaAt nonneg, Nat.cast_succ, add_assoc]

/-- A mantissa is never rounded down. -/
theorem le_roundedMantissa (cut : ExtendedMantissa) : cut.mantissa ≤ cut.roundedMantissa := by
  obtain ⟨mantissa, half, rest⟩ := cut
  cases half <;> cases rest
  · exact le_refl mantissa
  · exact le_refl mantissa
  · exact Nat.le_add_right mantissa (mantissa % 2)
  · exact Nat.le_add_right mantissa 1

theorem roundedMantissa_le (cut : ExtendedMantissa) : cut.roundedMantissa ≤ cut.mantissa + 1 := by
  obtain ⟨mantissa, half, rest⟩ := cut
  have parity := Nat.mod_lt mantissa two_pos
  cases half <;> cases rest
  · exact Nat.le_succ mantissa
  · exact Nat.le_succ mantissa
  · exact Nat.add_le_add_left (Nat.le_of_lt_succ parity) mantissa
  · exact le_refl (mantissa + 1)

/-! ## What is cut off -/

/-- A whole multiple of a power of two has nothing behind its mantissa. -/
theorem mantissaAt_exact (mantissa : ℕ) (exponent : ℤ) :
    mantissaAt (mantissa * 2 ^ exponent) exponent = ⟨mantissa, false, false⟩ := by
  have scaled : (mantissa : ℚ) * 2 ^ exponent / 2 ^ exponent = mantissa :=
    mul_div_cancel_right₀ _ (by positivity)
  apply mantissaAt_eq <;> rw [scaled]
  · exact lt_add_one _
  · simp only [Bool.false_eq_true, false_iff, not_le]
    linarith
  · simp

/-- The remainder of a division says what is cut off from a quotient. -/
theorem mantissaAt_quotient (numerator : ℕ) {denominator : ℕ} (positive : 0 < denominator)
    (exponent : ℤ) :
    ExtendedMantissa.ofMantissaAndAccuracy (numerator / denominator)
        (accuracyOfFraction (numerator % denominator) denominator) =
      mantissaAt (numerator / denominator * 2 ^ exponent) exponent := by
  have denominator_pos : (0 : ℚ) < denominator := Nat.cast_pos.mpr positive
  have scaled : (numerator : ℚ) / denominator * 2 ^ exponent / 2 ^ exponent =
      (numerator / denominator : ℕ) + (numerator % denominator : ℕ) / denominator := by
    rw [mul_div_cancel_right₀ _ (by positivity), add_div' _ _ _ denominator_pos.ne']
    congr 1
    exact_mod_cast (Nat.div_add_mod' numerator denominator).symm
  have below : (0 : ℚ) ≤ (numerator % denominator : ℕ) / denominator := by positivity
  have above : ((numerator % denominator : ℕ) : ℚ) / denominator < 1 := by
    rw [div_lt_one denominator_pos]
    exact_mod_cast Nat.mod_lt numerator positive
  have half_iff : (1 / 2 : ℚ) ≤ (numerator % denominator : ℕ) / denominator ↔
      denominator ≤ 2 * (numerator % denominator) := by
    rw [div_le_div_iff₀ two_pos denominator_pos, one_mul, mul_comm]
    exact_mod_cast Iff.rfl
  have equal_iff : ((numerator % denominator : ℕ) : ℚ) / denominator = 1 / 2 ↔
      2 * (numerator % denominator) = denominator := by
    rw [div_eq_div_iff denominator_pos.ne' two_ne_zero, one_mul, mul_comm]
    exact_mod_cast Iff.rfl
  have zero_iff : ((numerator % denominator : ℕ) : ℚ) / denominator = 0 ↔
      numerator % denominator = 0 := by
    rw [div_eq_zero_iff, Nat.cast_eq_zero, or_iff_left denominator_pos.ne']
  generalize ((numerator % denominator : ℕ) : ℚ) / denominator = rest at *
  generalize numerator % denominator = remainder at *
  symm
  rw [accuracyOfFraction]
  split
  · next exact =>
    rw [ExtendedMantissa.ofMantissaAndAccuracy]
    have none : rest = 0 := zero_iff.mpr exact
    apply mantissaAt_eq <;> rw [scaled, none]
    · simp
    · simp
    · simp
    · simp
  · next inexact =>
    have some : rest ≠ 0 := fun zero => inexact (zero_iff.mp zero)
    have restBelow : ((numerator / denominator : ℕ) : ℚ) ≤
        (numerator / denominator : ℕ) + rest := by linarith
    have restAbove : ((numerator / denominator : ℕ) : ℚ) + rest <
        (numerator / denominator : ℕ) + 1 := by linarith
    cases order : compare (2 * remainder) denominator <;>
      rw [ExtendedMantissa.ofMantissaAndAccuracy] <;>
      refine mantissaAt_eq (by rwa [scaled]) (by rwa [scaled]) ?_ ?_ <;> rw [scaled]
    · have less := Nat.compare_eq_lt.mp order
      simp only [Bool.false_eq_true, false_iff, not_le, add_lt_add_iff_left]
      exact not_le.mp fun le => absurd (half_iff.mp le) (by omega)
    · have less := Nat.compare_eq_lt.mp order
      simp only [true_iff, ne_eq, add_eq_left, add_right_inj]
      exact ⟨some, fun half => absurd (equal_iff.mp half) (by omega)⟩
    · have equal := Nat.compare_eq_eq.mp order
      simp only [true_iff, add_le_add_iff_left]
      exact half_iff.mpr equal.ge
    · have equal := Nat.compare_eq_eq.mp order
      simp only [Bool.false_eq_true, false_iff, ne_eq, add_right_inj, not_and, not_not]
      exact fun _ => equal_iff.mpr equal
    · have greater := Nat.compare_eq_gt.mp order
      simp only [true_iff, add_le_add_iff_left]
      exact half_iff.mpr (by omega)
    · have greater := Nat.compare_eq_gt.mp order
      simp only [true_iff, ne_eq, add_eq_left, add_right_inj]
      exact ⟨some, fun half => absurd (equal_iff.mp half) (by omega)⟩

/-! ## Rounding -/

/-- The exponent at which a number is cut off. -/
def exponentOf (value : ℚ) : ℤ :=
  Format.binary64.targetExponent (Int.log 2 value + 1)

/-- The float of a mantissa that has been rounded; a mantissa that has become too long is shifted
once more. -/
def settle (sign : Sign) (mantissa : ℕ) (exponent : ℤ) : UnpackedFloat :=
  let shifted := shiftToTargetExponent .binary64 mantissa exponent .exact
  if zero : shifted.1.mantissa = 0 then .zero sign
  else .finite sign shifted.1.mantissa shifted.2 (Nat.pos_of_ne_zero zero)

/-- The float that a positive number rounds to. -/
def ofRat (sign : Sign) (value : ℚ) : UnpackedFloat :=
  settle sign (mantissaAt value (exponentOf value)).roundedMantissa (exponentOf value)

theorem targetExponent_eq (exponent : ℤ) :
    Format.binary64.targetExponent exponent = max (exponent - 53) (-1074) := rfl

theorem exponentOf_eq (value : ℚ) : exponentOf value = max (Int.log 2 value - 52) (-1074) := by
  rw [exponentOf, targetExponent_eq]
  omega

/-- The logarithm of a number from a mantissa of it. -/
theorem log_eq_of_mantissa {value : ℚ} (positive : 0 < value) (exponent : ℤ)
    (nonzero : (mantissaAt value exponent).mantissa ≠ 0) :
    Int.log 2 value = (mantissaAt value exponent).mantissa.log2 + exponent := by
  have scaled_nonneg : 0 ≤ value / 2 ^ exponent := by positivity
  have scale_pos : (0 : ℚ) < 2 ^ exponent := by positivity
  change ⌊value / 2 ^ exponent⌋₊ ≠ 0 at nonzero
  change Int.log 2 value = (⌊value / 2 ^ exponent⌋₊.log2 : ℤ) + exponent
  have below := Nat.floor_le scaled_nonneg
  have above := Nat.lt_floor_add_one (value / 2 ^ exponent)
  generalize ⌊value / 2 ^ exponent⌋₊ = mantissa at *
  have lower : ((2 ^ mantissa.log2 : ℕ) : ℚ) ≤ mantissa := by
    exact_mod_cast Nat.log2_self_le nonzero
  have upper : (mantissa : ℚ) + 1 ≤ ((2 ^ (mantissa.log2 + 1) : ℕ) : ℚ) := by
    exact_mod_cast Nat.lt_log2_self
  rw [le_div_iff₀ scale_pos] at below
  rw [div_lt_iff₀ scale_pos] at above
  apply le_antisymm
  · rw [← Int.lt_add_one_iff, ← Int.lt_zpow_iff_log_lt (by decide) positive]
    calc
      value < (mantissa + 1) * 2 ^ exponent := above
      _ ≤ (2 ^ (mantissa.log2 + 1) : ℕ) * 2 ^ exponent := by gcongr
      _ = ((2 : ℕ) : ℚ) ^ ((mantissa.log2 : ℤ) + exponent + 1) := by
        rw [show (mantissa.log2 : ℤ) + exponent + 1 = ((mantissa.log2 + 1 : ℕ) : ℤ) + exponent by
          push_cast; ring, zpow_add₀ (by norm_num), zpow_natCast]
        push_cast
        rfl
  · rw [← Int.zpow_le_iff_le_log (by decide) positive]
    calc
      ((2 : ℕ) : ℚ) ^ ((mantissa.log2 : ℤ) + exponent) =
          (2 ^ mantissa.log2 : ℕ) * 2 ^ exponent := by
        rw [zpow_add₀ (by norm_num), zpow_natCast]
        push_cast
        rfl
      _ ≤ mantissa * 2 ^ exponent := by gcongr
      _ ≤ value := below

/-- A number whose mantissa is zero lies below the unit. -/
theorem log_lt_of_mantissa_eq_zero {value : ℚ} (positive : 0 < value) {exponent : ℤ}
    (zero : (mantissaAt value exponent).mantissa = 0) : Int.log 2 value < exponent := by
  have scale_pos : (0 : ℚ) < 2 ^ exponent := by positivity
  change ⌊value / 2 ^ exponent⌋₊ = 0 at zero
  rw [Nat.floor_eq_zero, div_lt_one scale_pos] at zero
  rw [← Int.lt_zpow_iff_log_lt (by decide) positive]
  exact_mod_cast zero

/-- The float depends on the number alone: a mantissa at any exponent that is low enough leads to
the same one. -/
theorem roundWithAccuracy_eq (sign : Sign) {value : ℚ} (positive : 0 < value) {mantissa : ℕ}
    {exponent : ℤ} {accuracy : Accuracy}
    (cut : ExtendedMantissa.ofMantissaAndAccuracy mantissa accuracy = mantissaAt value exponent)
    (low : exponent ≤ exponentOf value) :
    roundWithAccuracy .binary64 sign mantissa exponent accuracy = ofRat sign value := by
  have mantissa_eq : mantissa = (mantissaAt value exponent).mantissa := by
    rw [← cut]
    cases accuracy with
    | exact => rfl
    | inexact order => cases order <;> rfl
  have target : Format.binary64.targetExponent (totalExponent mantissa exponent) =
      exponentOf value := by
    rw [totalExponent, targetExponent_eq]
    rw [exponentOf_eq] at low ⊢
    by_cases zero : mantissa = 0
    · have below := log_lt_of_mantissa_eq_zero positive (mantissa_eq.symm.trans zero)
      have bits : mantissa.log2 = 0 := by rw [zero, Nat.log2_zero]
      omega
    · have exact := log_eq_of_mantissa positive _ (mantissa_eq ▸ zero)
      rw [← mantissa_eq] at exact
      omega
  have shifted : shiftToTargetExponent .binary64 mantissa exponent accuracy =
      (mantissaAt value (exponentOf value), exponentOf value) := by
    have reached : exponent + ((exponentOf value - exponent).toNat : ℤ) = exponentOf value := by
      omega
    rw [shiftToTargetExponent, shiftToExponent, target, cut, shiftRight_mantissaAt positive.le,
      reached]
  rw [roundWithAccuracy, shifted]
  rfl

theorem exponentOf_mul_two_zpow {mantissa : ℕ} (positive : 0 < mantissa) (exponent : ℤ) :
    exponentOf (mantissa * 2 ^ exponent) = max (mantissa.log2 + exponent - 52) (-1074) := by
  have value_pos : (0 : ℚ) < mantissa * 2 ^ exponent := by positivity
  have exact := log_eq_of_mantissa value_pos exponent
  rw [mantissaAt_exact] at exact
  rw [exponentOf_eq, exact positive.ne']

/-- A whole multiple of a power of two that is low enough is rounded as a number. -/
theorem roundWithAccuracy_exact (sign : Sign) {mantissa : ℕ} (positive : 0 < mantissa)
    {exponent : ℤ} (low : exponent ≤ exponentOf (mantissa * 2 ^ exponent)) :
    roundWithAccuracy .binary64 sign mantissa exponent .exact =
      ofRat sign (mantissa * 2 ^ exponent) :=
  roundWithAccuracy_eq sign (by positivity) (mantissaAt_exact mantissa exponent).symm low

/-- A longer mantissa with a lower exponent is the same number. -/
theorem shiftLeft_mul_two_zpow (mantissa : ℕ) (exponent : ℤ) (places : ℕ) :
    ((mantissa <<< places : ℕ) : ℚ) * 2 ^ (exponent - places) = mantissa * 2 ^ exponent := by
  rw [Nat.shiftLeft_eq, zpow_sub₀ two_ne_zero, zpow_natCast]
  push_cast
  field_simp

theorem round_eq (sign : Sign) {mantissa : ℕ} (positive : 0 < mantissa) (exponent : ℤ) :
    round .binary64 sign mantissa exponent = ofRat sign (mantissa * 2 ^ exponent) := by
  rw [UnpackedFloat.round, decreaseExponent]
  dsimp only
  -- The exponent is first lowered as far as the number asks for.
  rw [← shiftLeft_mul_two_zpow]
  refine roundWithAccuracy_exact sign (Nat.shiftLeft_pos_iff.mpr positive) ?_
  rw [shiftLeft_mul_two_zpow, exponentOf_mul_two_zpow positive, totalExponent, targetExponent_eq]
  omega

/-- A product is rounded as a number, if the exponents of the factors are low enough. -/
theorem mul_finite (left right : Sign) {m n : ℕ} {d e : ℤ} (m_pos : 0 < m) (n_pos : 0 < n)
    (low : d + e ≤ exponentOf ((m * n : ℕ) * 2 ^ (d + e))) :
    mul .binary64 (.finite left m d m_pos) (.finite right n e n_pos) =
      ofRat (left * right) (m * 2 ^ d * (n * 2 ^ e)) := by
  have product : (m : ℚ) * 2 ^ d * (n * 2 ^ e) = (m * n : ℕ) * 2 ^ (d + e) := by
    rw [zpow_add₀ two_ne_zero]
    push_cast
    ring
  rw [product]
  exact roundWithAccuracy_exact _ (Nat.mul_pos m_pos n_pos) low

/-- A quotient loses at most one place against the lengths of its operands. -/
theorem le_log_quotient {m n : ℕ} (m_pos : 0 < m) (n_pos : 0 < n) (d e : ℤ) :
    (m.log2 : ℤ) + d - (n.log2 + 1 + e) ≤ Int.log 2 ((m : ℚ) * 2 ^ d / (n * 2 ^ e)) := by
  have lower : ((2 ^ m.log2 : ℕ) : ℚ) ≤ m := by exact_mod_cast Nat.log2_self_le m_pos.ne'
  have upper : (n : ℚ) ≤ (2 ^ (n.log2 + 1) : ℕ) := by exact_mod_cast Nat.lt_log2_self.le
  rw [← Int.zpow_le_iff_le_log (by decide) (by positivity), le_div_iff₀ (by positivity)]
  calc
    ((2 : ℕ) : ℚ) ^ ((m.log2 : ℤ) + d - (n.log2 + 1 + e)) * (n * 2 ^ e) ≤
        (2 : ℕ) ^ ((m.log2 : ℤ) + d - (n.log2 + 1 + e)) * ((2 ^ (n.log2 + 1) : ℕ) * 2 ^ e) := by
      gcongr
    _ = (2 ^ m.log2 : ℕ) * 2 ^ d := by
      push_cast
      rw [← zpow_natCast, ← zpow_natCast, ← zpow_add₀ two_ne_zero, ← zpow_add₀ two_ne_zero,
        ← zpow_add₀ two_ne_zero]
      congr 1
      push_cast
      ring
    _ ≤ m * 2 ^ d := by gcongr

/-- A quotient is rounded as a number. -/
theorem div_finite (left right : Sign) {m n : ℕ} {d e : ℤ} (m_pos : 0 < m) (n_pos : 0 < n) :
    div .binary64 (.finite left m d m_pos) (.finite right n e n_pos) =
      ofRat (left / right) (m * 2 ^ d / (n * 2 ^ e)) := by
  have length := le_log_quotient m_pos n_pos d e
  -- The exponent of the quotient is chosen so low that all its places are there.
  rw [UnpackedFloat.div, divCore]
  dsimp only
  generalize chosen : min (d - e) (Format.binary64.targetExponent
    (totalExponent m d - totalExponent n e)) = exponent
  rw [totalExponent, totalExponent, targetExponent_eq] at chosen
  have lowered : d - e = exponent + ((d - e - exponent).toNat : ℤ) := by omega
  have value_eq : (m : ℚ) * 2 ^ d / (n * 2 ^ e) =
      (m <<< (d - e - exponent).toNat : ℕ) / n * 2 ^ exponent := by
    have scale : (2 : ℚ) ^ d = 2 ^ (d - e - exponent).toNat * 2 ^ exponent * 2 ^ e := by
      rw [← zpow_natCast, ← zpow_add₀ two_ne_zero, ← zpow_add₀ two_ne_zero]
      congr 1
      omega
    rw [Nat.shiftLeft_eq, scale]
    push_cast
    field_simp
  refine roundWithAccuracy_eq _ (by positivity) ?_ ?_
  · rw [value_eq]
    exact mantissaAt_quotient _ n_pos exponent
  · rw [exponentOf_eq]
    omega

end Binary64

end EconModel
