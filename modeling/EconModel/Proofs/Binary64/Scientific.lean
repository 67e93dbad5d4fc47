import EconModel.Proofs.Binary64.Packing
import Mathlib.Tactic.IntervalCases

/-!
# Reading decimal fractions

`Float.ofScientific` takes several ways: short numbers are multiplied by a tabulated power of ten,
others go through exact arithmetic, and exponents far out of range are cut short.  All of them lead
to the double nearest to the number, so the double depends on the number alone.
-/

namespace EconModel

namespace Binary64

open Float.Model Float.Model.UnpackedFloat

/-- The double that a positive number rounds to. -/
def ofPositive (value : ℚ) : Float := .ofModel (.pack (ofRat .positive value))

/-! ## The table of powers -/

/-- A whole number of at most 53 bits is a double. -/
theorem exists_canonical {whole : ℕ} (positive : 0 < whole) (short : whole < 2 ^ 53) :
    ∃ mantissa exponent, Canonical mantissa exponent ∧ 2 ^ 52 ≤ mantissa ∧ exponent ≤ 0 ∧
      (mantissa : ℚ) * 2 ^ exponent = whole := by
  have bits_lt := (Nat.log2_lt positive.ne').mpr short
  have lower := Nat.log2_self_le positive.ne'
  have upper := Nat.lt_log2_self (n := whole)
  have full : 2 ^ 52 ≤ whole <<< (52 - whole.log2) := by
    rw [Nat.shiftLeft_eq]
    calc
      2 ^ 52 = 2 ^ whole.log2 * 2 ^ (52 - whole.log2) := by
        rw [← Nat.pow_add, Nat.add_sub_cancel' (by omega)]
      _ ≤ whole * 2 ^ (52 - whole.log2) := Nat.mul_le_mul_right _ lower
  have fits : whole <<< (52 - whole.log2) < 2 ^ 53 := by
    rw [Nat.shiftLeft_eq]
    calc
      whole * 2 ^ (52 - whole.log2) < 2 ^ (whole.log2 + 1) * 2 ^ (52 - whole.log2) :=
        Nat.mul_lt_mul_of_pos_right upper (Nat.two_pow_pos _)
      _ = 2 ^ 53 := by
        rw [← Nat.pow_add]
        congr 1
        omega
  refine ⟨whole <<< (52 - whole.log2), -(52 - whole.log2 : ℕ), ⟨fits, by omega, .inl full⟩, full,
    by omega, ?_⟩
  rw [Nat.shiftLeft_eq, zpow_neg, zpow_natCast]
  push_cast
  field_simp

/-- A double that is a given positive number, with all bits of its mantissa. -/
def IsFull (x : Float) (value : ℚ) : Prop :=
  ∃ mantissa exponent, ∃ positive : 0 < mantissa,
    x.toModel.unpack = .finite .positive mantissa exponent positive ∧ 2 ^ 52 ≤ mantissa ∧
      (mantissa : ℚ) * 2 ^ exponent = value

/-- A short whole number is converted without loss. -/
theorem isFull_toFloat {whole : ℕ} (positive : 0 < whole) (short : whole < 2 ^ 53) :
    IsFull whole.toUInt64.toFloat whole := by
  obtain ⟨mantissa, exponent, canonical, full, low, value_eq⟩ := exists_canonical positive short
  refine ⟨mantissa, exponent, by omega, ?_, full, value_eq⟩
  have same : whole.toUInt64.toNat = whole :=
    UInt64.toNat_ofNat_of_lt (lt_of_lt_of_le short (by decide))
  have converted : UnpackedFloat.ofNat .binary64 whole =
      UnpackedFloat.round .binary64 .positive whole 0 := by
    rw [UnpackedFloat.ofNat, UnpackedFloat.ofInt, UnpackedFloat.normalize,
      Int.compare_eq_gt.mpr (by omega)]
    rfl
  change (Float.Model.pack (UnpackedFloat.ofNat .binary64 whole.toUInt64.toNat)).unpack = _
  rw [same, converted, round_eq _ positive, zpow_zero, mul_one, ← value_eq,
    canonical.ofRat_eq (by omega), unpack_pack _ _ canonical (by omega)]

/-- Whether a double is the power of ten with a given exponent, written with all its bits. -/
def isPowerOfTen (x : Float) (exponent : ℕ) : Bool :=
  match x.toModel.unpack with
  | .finite .positive mantissa scale _ =>
      decide (2 ^ 52 ≤ mantissa) &&
        decide (mantissa * 2 ^ scale.toNat = 10 ^ exponent * 2 ^ (-scale).toNat)
  | _ => false

theorem isPowerOfTen_table :
    ∀ exponent : Fin Float.exactlyRepresentablePowersOfTen.size,
      isPowerOfTen Float.exactlyRepresentablePowersOfTen[exponent] exponent = true := by
  decide +kernel

theorem isFull_of_isPowerOfTen {x : Float} {exponent : ℕ}
    (power : isPowerOfTen x exponent = true) : IsFull x (10 ^ exponent) := by
  unfold isPowerOfTen at power
  split at power
  · next mantissa scale positive unpack_eq =>
    rw [Bool.and_eq_true, decide_eq_true_iff, decide_eq_true_iff] at power
    refine ⟨mantissa, scale, positive, unpack_eq, power.1, ?_⟩
    have scaled : (mantissa : ℚ) * 2 ^ scale.toNat = 10 ^ exponent * 2 ^ (-scale).toNat := by
      exact_mod_cast power.2
    have split : (2 : ℚ) ^ scale * 2 ^ (-scale).toNat = 2 ^ scale.toNat := by
      rw [← zpow_natCast, ← zpow_natCast, ← zpow_add₀ two_ne_zero]
      congr 1
      omega
    have nonzero : (2 : ℚ) ^ (-scale).toNat ≠ 0 := by positivity
    rw [← split, ← mul_assoc] at scaled
    exact mul_right_cancel₀ nonzero scaled
  · cases power

/-! ## Products and quotients -/

theorem mul_of_isFull {x y : Float} {left right : ℚ} (x_full : IsFull x left)
    (y_full : IsFull y right) : x * y = ofPositive (left * right) := by
  obtain ⟨m, d, m_pos, x_eq, m_full, rfl⟩ := x_full
  obtain ⟨n, e, n_pos, y_eq, n_full, rfl⟩ := y_full
  have long : 104 ≤ (m * n).log2 := by
    rw [Nat.le_log2 (Nat.mul_pos m_pos n_pos).ne', show 104 = 52 + 52 from rfl, Nat.pow_add]
    exact Nat.mul_le_mul m_full n_full
  change Float.ofModel (.pack (UnpackedFloat.mul .binary64 x.toModel.unpack y.toModel.unpack)) = _
  rw [x_eq, y_eq, mul_finite _ _ m_pos n_pos]
  · rfl
  · rw [exponentOf_mul_two_zpow (Nat.mul_pos m_pos n_pos)]
    omega

theorem div_of_isFull {x y : Float} {left right : ℚ} (x_full : IsFull x left)
    (y_full : IsFull y right) : x / y = ofPositive (left / right) := by
  obtain ⟨m, d, m_pos, x_eq, -, rfl⟩ := x_full
  obtain ⟨n, e, n_pos, y_eq, -, rfl⟩ := y_full
  change Float.ofModel (.pack (UnpackedFloat.div .binary64 x.toModel.unpack y.toModel.unpack)) = _
  rw [x_eq, y_eq, div_finite _ _ m_pos n_pos]
  rfl

theorem zero_mul_of_isFull {x y : Float} {value : ℚ} (zero : x.toModel.unpack = .zero .positive)
    (full : IsFull y value) : x * y = .ofModel (.pack (.zero .positive)) := by
  obtain ⟨n, e, n_pos, y_eq, -, -⟩ := full
  change Float.ofModel (.pack (UnpackedFloat.mul .binary64 x.toModel.unpack y.toModel.unpack)) = _
  rw [zero, y_eq]
  rfl

theorem zero_div_of_isFull {x y : Float} {value : ℚ} (zero : x.toModel.unpack = .zero .positive)
    (full : IsFull y value) : x / y = .ofModel (.pack (.zero .positive)) := by
  obtain ⟨n, e, n_pos, y_eq, -, -⟩ := full
  change Float.ofModel (.pack (UnpackedFloat.div .binary64 x.toModel.unpack y.toModel.unpack)) = _
  rw [zero, y_eq]
  rfl

/-! ## Out of range -/

/-- The shift that ends a rounding raises the exponent as far as the mantissa is too long. -/
theorem shiftToTargetExponent_exact (mantissa : ℕ) {exponent : ℤ} (low : -1074 ≤ exponent) :
    shiftToTargetExponent .binary64 mantissa exponent .exact =
      (mantissaAt (mantissa * 2 ^ exponent) (max exponent (mantissa.log2 + exponent - 52)),
        max exponent (mantissa.log2 + exponent - 52)) := by
  let places := (Format.binary64.targetExponent (totalExponent mantissa exponent) - exponent).toNat
  have reached : exponent + places = max exponent (mantissa.log2 + exponent - 52) := by
    change exponent + ((max ((mantissa.log2 : ℤ) + 1 + exponent - 53) (-1074) - exponent).toNat : ℤ)
      = _
    omega
  rw [← reached, ← shiftRight_mantissaAt (by positivity), mantissaAt_exact]
  rfl

theorem exists_settle_eq (sign : Sign) {mantissa : ℕ} (positive : 0 < mantissa) (exponent : ℤ)
    (low : -1074 ≤ exponent) :
    ∃ settled, ∃ settled_pos : 0 < settled,
      settle sign mantissa exponent =
        .finite sign settled (max exponent (mantissa.log2 + exponent - 52)) settled_pos := by
  have settled_pos : 0 < (mantissaAt (mantissa * 2 ^ exponent)
      (max exponent (mantissa.log2 + exponent - 52))).mantissa := by
    refine Nat.pos_of_ne_zero fun zero => ?_
    have value_pos : (0 : ℚ) < mantissa * 2 ^ exponent := by positivity
    have below := log_lt_of_mantissa_eq_zero value_pos zero
    have exact := log_eq_of_mantissa value_pos exponent
    rw [mantissaAt_exact] at exact
    have log_eq : Int.log 2 ((mantissa : ℚ) * 2 ^ exponent) = mantissa.log2 + exponent :=
      exact positive.ne'
    omega
  refine ⟨_, settled_pos, ?_⟩
  rw [settle]
  simp only [shiftToTargetExponent_exact mantissa low]
  exact dif_neg settled_pos.ne'

/-- A float whose exponent is too high becomes infinite. -/
theorem pack_eq_infinity (sign : Sign) {mantissa : ℕ} (positive : 0 < mantissa) {exponent : ℤ}
    (high : 972 ≤ exponent) :
    Float.Model.pack (.finite sign mantissa exponent positive) =
      Float.Model.pack (.infinity sign) := by
  have overflows : 2 ^ 11 ≤ (exponent + Format.binary64.exponentBias + (52 : ℕ)).toNat + 1 := by
    change 2 ^ 11 ≤ (exponent + 1023 + 52).toNat + 1
    omega
  rw [Float.Model.pack, Float.Model.pack, Float.Model.mk.injEq]
  refine congrArg UInt64.ofBitVec ?_
  rw [UnpackedFloat.pack]
  exact if_pos overflows

/-- A number above all doubles becomes infinite. -/
theorem ofPositive_of_large {value : ℚ} (large : 2 ^ 1024 ≤ value) :
    ofPositive value = .ofModel (.pack (.infinity .positive)) := by
  have value_pos : 0 < value := lt_of_lt_of_le (by positivity) large
  have log_large : 1024 ≤ Int.log 2 value := by
    rw [← Int.zpow_le_iff_le_log (by decide) value_pos]
    exact_mod_cast large
  have exponent_large : 972 ≤ exponentOf value := by
    rw [exponentOf_eq]
    omega
  have mantissa_pos : 0 < (mantissaAt value (exponentOf value)).mantissa := by
    refine Nat.pos_of_ne_zero fun zero => ?_
    have below := log_lt_of_mantissa_eq_zero value_pos zero
    rw [exponentOf_eq] at below
    omega
  have rounded_pos : 0 < (mantissaAt value (exponentOf value)).roundedMantissa :=
    lt_of_lt_of_le mantissa_pos (le_roundedMantissa _)
  obtain ⟨settled, settled_pos, settle_eq⟩ :=
    exists_settle_eq .positive rounded_pos (exponentOf value) (by omega)
  rw [ofPositive, ofRat, settle_eq, pack_eq_infinity _ settled_pos (by omega)]

/-- A float whose exponent is not too high is finite. -/
theorem isFinite_pack (sign : Sign) {mantissa : ℕ} (positive : 0 < mantissa) {exponent : ℤ}
    (high : exponent ≤ 971) :
    (Float.Model.pack (.finite sign mantissa exponent positive)).unpack.isFinite = true := by
  change (UnpackedFloat.unpack .binary64 (UnpackedFloat.pack .binary64 _)).isFinite = true
  have below : ¬ 2 ^ 11 ≤ (exponent + Format.binary64.exponentBias + (52 : ℕ)).toNat + 1 := by
    change ¬ 2 ^ 11 ≤ (exponent + 1023 + 52).toNat + 1
    omega
  have finite (field : BitVec 11) (fraction : BitVec 52) (notTop : field.toNat ≠ 2047) :
      (UnpackedFloat.unpack .binary64
        (packComponents .binary64 sign field fraction)).isFinite = true := by
    by_cases bottom : field.toNat = 0
    · have field_eq : field = 0 := BitVec.eq_of_toNat_eq bottom
      subst field_eq
      by_cases empty : fraction.toNat = 0
      · rw [unpack_bottom sign empty]
        rfl
      · rw [unpack_short sign empty]
        rfl
    · rw [unpack_full sign _ notTop bottom]
      rfl
  rw [UnpackedFloat.pack]
  dsimp only
  rw [if_neg below]
  split
  · refine finite _ _ ?_
    rw [BitVec.toNat_ofNat]
    change (exponent + 1023 + 52).toNat % 2 ^ 11 ≠ 2047
    change ¬ 2 ^ 11 ≤ (exponent + 1023 + 52).toNat + 1 at below
    omega
  · exact finite 0 _ (by decide)

/-- A number well below the greatest double does not become infinite. -/
theorem isFinite_ofPositive {value : ℚ} (large : 1 ≤ value) (small : value < 2 ^ 1023) :
    (ofPositive value).isFinite = true := by
  have positive : 0 < value := lt_of_lt_of_le one_pos large
  have log_nonneg : 0 ≤ Int.log 2 value := by
    rw [← Int.zpow_le_iff_le_log (by decide) positive]
    exact_mod_cast large
  have log_small : Int.log 2 value < 1023 := by
    rw [← Int.lt_zpow_iff_log_lt (by decide) positive]
    exact_mod_cast small
  have exponent_eq := exponentOf_eq value
  have nonzero : (mantissaAt value (exponentOf value)).mantissa ≠ 0 := fun zero => by
    have below := log_lt_of_mantissa_eq_zero positive zero
    omega
  have log_eq := log_eq_of_mantissa positive _ nonzero
  have short : (mantissaAt value (exponentOf value)).mantissa < 2 ^ 53 :=
    (Nat.log2_lt nonzero).mp (by omega)
  have rounded_ge := le_roundedMantissa (mantissaAt value (exponentOf value))
  have rounded_le := roundedMantissa_le (mantissaAt value (exponentOf value))
  have rounded_pos : 0 < (mantissaAt value (exponentOf value)).roundedMantissa := by omega
  have bits_lt : (mantissaAt value (exponentOf value)).roundedMantissa.log2 < 54 :=
    (Nat.log2_lt (by omega)).mpr (by omega)
  obtain ⟨settled, settled_pos, settle_eq⟩ :=
    exists_settle_eq .positive rounded_pos (exponentOf value) (by omega)
  change (Float.Model.pack (ofRat .positive value)).unpack.isFinite = true
  rw [ofRat, settle_eq]
  exact isFinite_pack _ settled_pos (by omega)

/-- A number below half of the least double becomes zero. -/
theorem ofPositive_of_small {value : ℚ} (positive : 0 < value) (small : value < 2 ^ (-1075 : ℤ)) :
    ofPositive value = .ofModel (.pack (.zero .positive)) := by
  have log_small : Int.log 2 value < -1075 := by
    rw [← Int.lt_zpow_iff_log_lt (by decide) positive]
    exact_mod_cast small
  have exponent_eq : exponentOf value = -1074 := by
    rw [exponentOf_eq]
    omega
  have half : value / 2 ^ (-1074 : ℤ) < 1 / 2 := by
    rw [div_lt_iff₀ (by positivity)]
    calc
      value < 2 ^ (-1075 : ℤ) := small
      _ = 1 / 2 * 2 ^ (-1074 : ℤ) := by
        rw [show (-1075 : ℤ) = -1 + -1074 by decide, zpow_add₀ two_ne_zero, zpow_neg_one, one_div]
  have scaled_pos : 0 < value / 2 ^ (-1074 : ℤ) := by positivity
  have cut : mantissaAt value (-1074) = ⟨0, false, true⟩ := by
    apply mantissaAt_eq <;> rw [Nat.cast_zero]
    · exact scaled_pos.le
    · linarith
    · simp only [Bool.false_eq_true, false_iff, not_le, zero_add]
      exact half
    · simp only [true_iff, zero_add]
      exact ⟨scaled_pos.ne', half.ne⟩
  rw [ofPositive, ofRat, exponent_eq, cut]
  rfl

/-! ## All ways together -/

/-- A power of ten between powers of two. -/
theorem two_pow_le_ten_pow (places : ℕ) : (2 : ℚ) ^ places ≤ 10 ^ places := by gcongr; norm_num

/-- The exact way, with its guards against exponents far out of range. -/
theorem modelOfScientific_eq {digits : ℕ} (positive : 0 < digits) (exponent : ℤ) :
    Float.ofModel (Float.Model.ofScientific digits exponent) =
      ofPositive (digits * 10 ^ exponent) := by
  have digits_ge : (1 : ℚ) ≤ digits := by exact_mod_cast positive
  rw [Float.Model.ofScientific, UnpackedFloat.ofScientific, dif_neg positive.ne']
  change Float.ofModel (.pack (if exponent > 2048 then _
    else if exponent < -(2048 + (digits.log2 : ℤ)) then _ else _)) = _
  split
  · next large =>
    symm
    apply ofPositive_of_large
    obtain ⟨places, rfl⟩ := Int.eq_ofNat_of_zero_le (show 0 ≤ exponent by omega)
    rw [zpow_natCast]
    calc
      (2 : ℚ) ^ 1024 ≤ 2 ^ places := pow_le_pow_right₀ one_le_two (by omega)
      _ ≤ 10 ^ places := two_pow_le_ten_pow places
      _ ≤ digits * 10 ^ places := le_mul_of_one_le_left (by positivity) digits_ge
  · split
    · next notLarge small =>
      symm
      apply ofPositive_of_small (by positivity)
      obtain ⟨places, rfl⟩ : ∃ places : ℕ, exponent = -places := ⟨exponent.natAbs, by omega⟩
      have upper : (digits : ℚ) ≤ 2 ^ (digits.log2 + 1) := by
        exact_mod_cast Nat.lt_log2_self.le
      rw [zpow_neg, zpow_natCast, ← div_eq_mul_inv, div_lt_iff₀ (by positivity)]
      calc
        (digits : ℚ) ≤ 2 ^ (digits.log2 + 1) := upper
        _ < 2 ^ (-1075 : ℤ) * 2 ^ places := by
          rw [← zpow_natCast, ← zpow_natCast, ← zpow_add₀ two_ne_zero]
          exact zpow_lt_zpow_right₀ one_lt_two (by omega)
        _ ≤ 2 ^ (-1075 : ℤ) * 10 ^ places := by
          gcongr
          norm_num
    · split
      · next whole =>
        have power : ((10 ^ exponent.toNat : ℕ) : ℚ) * 2 ^ (0 : ℤ) = 10 ^ exponent := by
          rw [zpow_zero, mul_one, Nat.cast_pow, ← zpow_natCast, Int.toNat_of_nonneg whole]
          rfl
        have shifted : ((digits <<< 53 : ℕ) : ℚ) * 2 ^ (-53 : ℤ) = digits := by
          rw [Nat.shiftLeft_eq]
          push_cast
          rw [zpow_neg, mul_assoc]
          norm_num
        have shifted_pos : 0 < digits <<< 53 := by rwa [Nat.shiftLeft_pos_iff]
        change Float.ofModel (.pack (UnpackedFloat.mul .binary64
          (.finite .positive (digits <<< 53) (-53) _) (.finite .positive _ 0 _))) = _
        rw [mul_finite _ _ shifted_pos (Nat.pow_pos (by decide)), shifted, power]
        · rfl
        · rw [exponentOf_mul_two_zpow (Nat.mul_pos shifted_pos (Nat.pow_pos (by decide)))]
          have long : 53 ≤ (digits <<< 53 * 10 ^ exponent.toNat).log2 := by
            rw [Nat.le_log2 (Nat.mul_pos shifted_pos (Nat.pow_pos (by decide))).ne',
              Nat.shiftLeft_eq, mul_comm digits, mul_assoc]
            exact Nat.le_mul_of_pos_right _ (Nat.mul_pos positive (Nat.pow_pos (by decide)))
          omega
      · next notWhole =>
        have power : ((10 ^ (-exponent).toNat : ℕ) : ℚ) * 2 ^ (0 : ℤ) = (10 ^ exponent)⁻¹ := by
          rw [zpow_zero, mul_one, Nat.cast_pow, ← zpow_natCast, Int.toNat_of_nonneg (by omega),
            zpow_neg]
          rfl
        rw [div_finite _ _ positive (Nat.pow_pos (by decide)), power, zpow_zero, mul_one,
          div_inv_eq_mul]
        rfl

/-- A decimal fraction is read as the double nearest to it. -/
theorem ofScientific_eq {digits : ℕ} (positive : 0 < digits) (below : Bool) (places : ℕ) :
    Float.ofScientific digits below places =
      ofPositive (digits * 10 ^ (if below then -places else places : ℤ)) := by
  rw [Float.ofScientific]
  split
  · next short =>
    have digits_full := isFull_toFloat positive short.1
    have size : Float.exactlyRepresentablePowersOfTen.size = 23 := rfl
    have power_full := isFull_of_isPowerOfTen (isPowerOfTen_table ⟨places, by omega⟩)
    cases below
    · rw [if_neg Bool.false_ne_true, if_neg Bool.false_ne_true, zpow_natCast]
      exact mul_of_isFull digits_full power_full
    · rw [if_pos rfl, if_pos rfl, zpow_neg, zpow_natCast, ← div_eq_mul_inv]
      exact div_of_isFull digits_full power_full
  · have exponent_eq : (if below then Int.negOfNat places else Int.ofNat places) =
        (if below then -places else places : ℤ) := by
      cases below
      · rfl
      · exact Int.negOfNat_eq
    rw [← exponent_eq]
    exact modelOfScientific_eq positive _

theorem ofScientific_zero (below : Bool) (places : ℕ) :
    Float.ofScientific 0 below places = .ofModel (.pack (.zero .positive)) := by
  rw [Float.ofScientific]
  split
  · next short =>
    have size : Float.exactlyRepresentablePowersOfTen.size = 23 := rfl
    have power_full := isFull_of_isPowerOfTen (isPowerOfTen_table ⟨places, by omega⟩)
    cases below
    · exact zero_mul_of_isFull rfl power_full
    · exact zero_div_of_isFull rfl power_full
  · rfl

end Binary64

end EconModel
