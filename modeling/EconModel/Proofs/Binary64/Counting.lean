import EconModel.Proofs.Binary64.Distance
import EconModel.Scalar

/-!
# Counting with doubles

A natural number becomes the double that it rounds to, which is the number itself, and so is half of
it, unless the number is too long.  Rounding adds at most a part of 2 ^ 52 to a number that is not
too small.  Cutting a double that is not negative off to a natural number does not raise it.
-/

namespace EconModel

namespace Binary64

open Float.Model Float.Model.UnpackedFloat

/-! ## Natural numbers -/

theorem rounds_ofNat (count : ℕ) : Rounds count (Float.ofNat count) := by
  have read : Float.ofNat count = Float.ofScientific count false 0 := rfl
  rcases Nat.eq_zero_or_pos count with rfl | positive
  · exact .zero .positive Nat.cast_zero (read.trans (ofScientific_zero false 0))
  · have size_eq : (count : ℚ) * 10 ^ (if false then -(0 : ℕ) else (0 : ℕ) : ℤ) = count := by simp
    refine .signed .positive (Nat.cast_pos.mpr positive) rfl ?_
    rw [read, ofScientific_eq positive, size_eq]
    rfl

/-- What a positive number rounds to has the positive sign. -/
theorem Rounds.eq_of_pos {value : ℚ} {x : Float} (rounds : Rounds value x) (positive : 0 < value) :
    x = .ofModel (.pack (ofRat .positive value)) := by
  cases rounds with
  | zero sign zero _ => exact absurd zero positive.ne'
  | @signed sign size size_pos signed_eq x_eq =>
      cases sign with
      | negative =>
          rw [signed_eq] at positive
          exact absurd positive (not_lt.mpr (neg_nonpos.mpr size_pos.le))
      | positive =>
          have size_eq : size = value := signed_eq.symm
          rwa [size_eq] at x_eq

/-- What is a double already is rounded to itself. -/
theorem Rounds.toRat_eq {value : ℚ} {x : Float} (rounds : Rounds value x) {mantissa : ℕ}
    {exponent : ℤ} (positive : 0 < mantissa) (canonical : Canonical mantissa exponent)
    (high : exponent ≤ 971) (value_eq : value = mantissa * 2 ^ exponent) :
    x.isFinite = true ∧ toRat x = value := by
  subst value_eq
  have unpacked : x.toModel.unpack = .finite .positive mantissa exponent positive := by
    rw [rounds.eq_of_pos (by positivity), canonical.ofRat_eq positive]
    exact unpack_pack .positive positive canonical high
  refine ⟨?_, ?_⟩
  · change x.toModel.unpack.isFinite = true
    rw [unpacked]
    rfl
  · rw [toRat, unpacked]
    rfl

section Short

variable {count : ℕ} (positive : 0 < count) (short : count < 2 ^ 53)

include positive short

theorem toRat_ofNat : (Float.ofNat count).isFinite = true ∧ toRat (Float.ofNat count) = count := by
  obtain ⟨mantissa, exponent, canonical, full, low, value_eq⟩ := exists_canonical positive short
  exact (rounds_ofNat count).toRat_eq (by omega) canonical (by omega) value_eq.symm

/-- Half of a natural number needs one place more behind the point. -/
theorem toRat_half_ofNat : (Float.ofNat count / 2.0).isFinite = true ∧
    toRat (Float.ofNat count / 2.0) = count / 2 := by
  obtain ⟨mantissa, exponent, canonical, full, low, value_eq⟩ := exists_canonical positive short
  obtain ⟨finite, count_eq⟩ := toRat_ofNat positive short
  have two_eq : toRat 2.0 = 2 := by decide +kernel
  have two_finite : (2.0 : Float).isFinite = true := by decide +kernel
  have exponent_ge : -52 ≤ exponent := by
    have same := canonical.exponentOf_eq (by omega)
    rw [value_eq, exponentOf_eq, Int.log_natCast] at same
    omega
  have rounds : Rounds (toRat (Float.ofNat count) / toRat 2.0) (Float.ofNat count / 2.0) :=
    rounds_div (finite_unpack finite) (finite_unpack two_finite)
      (by rw [← toRat, two_eq]; norm_num)
  rw [count_eq, two_eq] at rounds
  have half_eq : (count : ℚ) / 2 = mantissa * 2 ^ (exponent - 1) := by
    rw [← value_eq, zpow_sub_one₀ two_ne_zero]
    ring
  exact rounds.toRat_eq (by omega) ⟨canonical.short, by omega, .inl full⟩ (by omega) half_eq

end Short

/-! ## Relative errors -/

/-- Rounding adds at most a part of 2 ^ 52, unless the number is too small. -/
theorem rounded_le {size : ℚ} (large : 2 ^ (-1022 : ℤ) ≤ size) :
    rounded size ≤ size * (1 + 2 ^ (-52 : ℤ)) := by
  have positive : 0 < size := lt_of_lt_of_le (by positivity) large
  have log_ge : -1022 ≤ Int.log 2 size := by
    rw [← Int.zpow_le_iff_le_log (by decide) positive]
    exact_mod_cast large
  have exponent_eq : exponentOf size = Int.log 2 size + -52 := by
    rw [Binary64.exponentOf_eq]
    omega
  have power_le : (2 : ℚ) ^ Int.log 2 size ≤ size := by
    exact_mod_cast Int.zpow_log_le_self (R := ℚ) one_lt_two positive
  have cut_le : ((mantissaAt size (exponentOf size)).mantissa : ℚ) ≤ size / 2 ^ exponentOf size :=
    Nat.floor_le (by positivity)
  have mantissa_le : ((mantissaAt size (exponentOf size)).roundedMantissa : ℚ) ≤
      size / 2 ^ exponentOf size + 1 := by
    have whole_le : ((mantissaAt size (exponentOf size)).roundedMantissa : ℚ) ≤
        (mantissaAt size (exponentOf size)).mantissa + 1 := by
      exact_mod_cast roundedMantissa_le _
    linarith
  calc
    rounded size ≤ (size / 2 ^ exponentOf size + 1) * 2 ^ exponentOf size := by
      rw [rounded]
      gcongr
    _ = size + 2 ^ Int.log 2 size * 2 ^ (-52 : ℤ) := by
      rw [add_mul, div_mul_cancel₀ _ (by positivity), one_mul, exponent_eq,
        zpow_add₀ two_ne_zero]
    _ ≤ size + size * 2 ^ (-52 : ℤ) := by gcongr
    _ = size * (1 + 2 ^ (-52 : ℤ)) := by ring

namespace Rounds

variable {value : ℚ} {x : Float} (rounds : Rounds value x) (fits : Fits value)

include rounds fits

/-- A positive number is rounded to a double by its size. -/
theorem toRat_eq_rounded (positive : 0 < value) : toRat x = rounded value := by
  rw [Fits, abs_of_pos positive] at fits
  rw [rounds.eq_of_pos positive]
  exact (unpack_pack_ofRat .positive positive).2 fits

theorem toRat_le (large : 2 ^ (-1022 : ℤ) ≤ value) : toRat x ≤ value * (1 + 2 ^ (-52 : ℤ)) := by
  rw [rounds.toRat_eq_rounded fits (lt_of_lt_of_le (by positivity) large)]
  exact rounded_le large

theorem one_le_toRat (large : 1 ≤ value) : 1 ≤ toRat x := by
  have log_nonneg : 0 ≤ Int.log 2 value := by
    rw [← Int.zpow_le_iff_le_log (by decide) (by linarith)]
    exact_mod_cast large
  rw [rounds.toRat_eq_rounded fits (by linarith)]
  exact (one_le_zpow₀ one_le_two log_nonneg).trans (two_zpow_log_le_rounded large)

end Rounds

theorem two_pow_lt_overflow : (2 : ℚ) ^ 65 < overflow :=
  lt_of_lt_of_le (pow_lt_pow_right₀ one_lt_two (by decide)) overflow_between.1

/-- A count of at most 64 bits is rounded to a double that is hardly greater. -/
theorem toRat_ofNat_between {count : ℕ} (positive : 0 < count) (short : count < 2 ^ 64) :
    (Float.ofNat count).isFinite = true ∧ 1 ≤ toRat (Float.ofNat count) ∧
      toRat (Float.ofNat count) ≤ count * (1 + 2 ^ (-52 : ℤ)) := by
  have one_le : (1 : ℚ) ≤ count := by exact_mod_cast positive
  have tiny : (2 : ℚ) ^ (-1022 : ℤ) ≤ 1 := zpow_le_one_of_nonpos₀ one_le_two (by decide)
  have fits : Fits count := by
    have count_lt : (count : ℚ) < 2 ^ 64 := by exact_mod_cast short
    rw [Fits, abs_of_nonneg (by positivity)]
    linarith [two_pow_lt_overflow]
  have rounds := rounds_ofNat count
  exact ⟨rounds.isFinite_iff.mpr fits, rounds.one_le_toRat fits one_le,
    rounds.toRat_le fits (tiny.trans one_le)⟩

/-! ## Cutting off -/

/-- Cutting off takes the whole part of the size. -/
theorem roundToInt_eq (sign : Sign) (mantissa : ℕ) (exponent : ℤ) :
    roundToInt sign mantissa exponent = sign.apply ⌊(mantissa : ℚ) * 2 ^ exponent⌋₊ := by
  rw [roundToInt, decreaseExponent]
  change sign.apply (shiftToExponent (mantissa <<< (exponent - 0).toNat)
    (exponent - (exponent - 0).toNat) .exact 0).1.mantissa = _
  generalize places_eq : (exponent - 0).toNat = places
  have cut : (shiftToExponent (mantissa <<< places) (exponent - places) .exact 0).1 =
      mantissaAt (mantissa * 2 ^ exponent) 0 := by
    have reached : exponent - places + (0 - (exponent - places)).toNat = 0 := by omega
    have shifted := shiftRight_mantissaAt (show 0 ≤ (mantissa : ℚ) * 2 ^ exponent by positivity)
      (exponent - places) (0 - (exponent - places)).toNat
    rw [reached, ← shiftLeft_mul_two_zpow mantissa exponent places, mantissaAt_exact] at shifted
    rw [← shiftLeft_mul_two_zpow mantissa exponent places]
    exact shifted
  rw [cut, mantissaAt, zpow_zero, div_one]

theorem toNat_ofNatClamp_le (count : ℕ) : (UInt64.ofNatClamp count).toNat ≤ count := by
  rw [UInt64.ofNatClamp]
  split
  · exact UInt64.toNat_ofNatLT.le
  · next large =>
    rw [UInt64.toNat_ofNatLT]
    exact (Nat.sub_le _ _).trans (not_lt.mp large)

section Cut

variable {x : Float}

theorem floor_lt : Elementary.floor x < 2 ^ 64 := x.toUInt64.toNat_lt

/-- A double that is not negative is not raised by cutting it off. -/
theorem floor_le (finite : x.isFinite = true) (nonneg : 0 ≤ toRat x) :
    (Elementary.floor x : ℚ) ≤ toRat x := by
  have unpacked := finite_unpack finite
  change ((UInt64.ofNatClamp (x.toModel.unpack.toInt 0 (UInt64.size - 1)).toNat).toNat : ℚ) ≤ _
  rw [toRat] at nonneg ⊢
  generalize x.toModel.unpack = float at unpacked nonneg ⊢
  refine le_trans (Nat.cast_le.mpr (toNat_ofNatClamp_le _)) ?_
  cases unpacked with
  | zero sign => exact Nat.cast_zero.le
  | canonical sign positive canonical high =>
      cases sign with
      | negative => exact absurd nonneg (not_le.mpr (neg_neg_of_pos (by positivity)))
      | positive =>
          rw [UnpackedFloat.toInt, roundToInt_eq]
          exact Nat.floor_le nonneg

theorem ceil_lt : Elementary.ceil x < 2 ^ 64 := by
  change (if _ then _ else _) < _
  split
  · exact lt_of_le_of_lt (min_le_right _ _) (by decide)
  · exact floor_lt

theorem ceil_le : Elementary.ceil x ≤ Elementary.floor x + 1 := by
  change (if _ then _ else _) ≤ _
  split
  · exact min_le_left _ _
  · exact Nat.le_succ _

/-- Nothing is cut off a zero. -/
theorem floor_eq_zero (finite : x.isFinite = true) (zero : toRat x = 0) :
    Elementary.floor x = 0 := by
  have floor_le := floor_le finite zero.ge
  rw [zero] at floor_le
  exact Nat.le_zero.mp (by exact_mod_cast floor_le)

theorem ceil_eq_zero (finite : x.isFinite = true) (zero : toRat x = 0) :
    Elementary.ceil x = 0 := by
  have word_eq : x.toUInt64 = 0 := UInt64.toNat_inj.mp (floor_eq_zero finite zero)
  have notBelow : ¬UInt64.toFloat 0 < x := by
    have zero_finite : (UInt64.toFloat 0).isFinite = true := by decide +kernel
    have zero_eq : toRat (UInt64.toFloat 0) = 0 := by decide +kernel
    rw [toRat_lt_iff zero_finite finite, zero_eq, zero]
    exact lt_irrefl 0
  change (if x.toUInt64.toFloat < x then _ else _) = 0
  rw [word_eq, if_neg notBelow]
  rfl

end Cut

/-! ## Positions in a list -/

section Position

variable {part : Float} (finite : part.isFinite = true)

include finite

theorem mul_ofNat_zero :
    (part * Float.ofNat 0).isFinite = true ∧ toRat (part * Float.ofNat 0) = 0 := by
  have zero := rounds_ofNat 0
  rw [Nat.cast_zero] at zero
  have zero_finite := zero.isFinite_iff.mpr fits_zero
  have rounds : Rounds (toRat part * toRat (Float.ofNat 0)) (part * Float.ofNat 0) :=
    rounds_mul (finite_unpack finite) (finite_unpack zero_finite)
  rw [zero.toRat_eq_zero, mul_zero] at rounds
  exact ⟨rounds.isFinite_iff.mpr fits_zero, rounds.toRat_eq_zero⟩

variable (low : 1 / 32 ≤ toRat part) (high : toRat part ≤ 24 / 25)

include low high

/-- A part of a count is rounded to less than it. -/
theorem mul_ofNat_between {count : ℕ} (positive : 0 < count) (short : count < 2 ^ 64) :
    (part * Float.ofNat count).isFinite = true ∧ 0 ≤ toRat (part * Float.ofNat count) ∧
      toRat (part * Float.ofNat count) < count := by
  have one_le : (1 : ℚ) ≤ count := by exact_mod_cast positive
  have count_lt : (count : ℚ) < 2 ^ 64 := by exact_mod_cast short
  have step : (2 : ℚ) ^ (-52 : ℤ) ≤ 1 / 100 := by
    rw [zpow_neg]
    norm_num
  have tiny : (2 : ℚ) ^ (-1022 : ℤ) ≤ 1 / 32 :=
    (zpow_le_zpow_right₀ one_le_two (by decide : (-1022 : ℤ) ≤ -5)).trans_eq (by norm_num)
  obtain ⟨count_finite, count_ge, count_le⟩ := toRat_ofNat_between positive short
  have rounds : Rounds (toRat part * toRat (Float.ofNat count)) (part * Float.ofNat count) :=
    rounds_mul (finite_unpack finite) (finite_unpack count_finite)
  generalize toRat (Float.ofNat count) = double at count_ge count_le rounds
  have product_ge : 1 / 32 ≤ toRat part * double := by nlinarith
  have product_le : toRat part * double ≤ 24 / 25 * (count * (1 + 2 ^ (-52 : ℤ))) := by gcongr
  have fits : Fits (toRat part * double) := by
    rw [Fits, abs_of_nonneg (by linarith)]
    nlinarith [two_pow_lt_overflow]
  refine ⟨rounds.isFinite_iff.mpr fits, rounds.toRat_nonneg fits (by linarith), ?_⟩
  calc
    toRat (part * Float.ofNat count) ≤ toRat part * double * (1 + 2 ^ (-52 : ℤ)) :=
      rounds.toRat_le fits (tiny.trans product_ge)
    _ ≤ 24 / 25 * (count * (1 + 2 ^ (-52 : ℤ))) * (1 + 2 ^ (-52 : ℤ)) := by gcongr
    _ ≤ 24 / 25 * (count * (1 + 1 / 100)) * (1 + 1 / 100) := by gcongr
    _ < count := by linarith

/-- A part of a count is cut off to no more than it, however great the count is. -/
theorem cut_mul_ofNat_le (count : ℕ) : Elementary.floor (part * Float.ofNat count) ≤ count ∧
    Elementary.ceil (part * Float.ofNat count) ≤ count := by
  rcases Nat.eq_zero_or_pos count with rfl | positive
  · obtain ⟨product_finite, zero⟩ := mul_ofNat_zero finite
    exact ⟨(floor_eq_zero product_finite zero).le, (ceil_eq_zero product_finite zero).le⟩
  rcases lt_or_ge count (2 ^ 64) with short | long
  · obtain ⟨product_finite, nonneg, less⟩ := mul_ofNat_between finite low high positive short
    have floor_less : Elementary.floor (part * Float.ofNat count) < count := by
      exact_mod_cast (floor_le product_finite nonneg).trans_lt less
    exact ⟨floor_less.le, ceil_le.trans floor_less⟩
  · exact ⟨floor_lt.le.trans long, ceil_lt.le.trans long⟩

end Position

end Binary64

end EconModel
