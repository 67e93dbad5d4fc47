import EconModel.Decimal.Basic
import EconModel.Proofs.Binary64.Scientific

/-!
# Numerals as numbers

Which double a numeral is read as depends only on its sign and on the number that its digits and its
exponent denote.  So dropping trailing zeros changes nothing, the exact numeral of a double reads
back to it, and with it every numeral that `shortest` selects.
-/

namespace EconModel

namespace Decimal

open Binary64 Float.Model Float.Model.UnpackedFloat

/-- The number that a numeral denotes, less its sign. -/
def magnitude (numeral : Decimal) : ℚ := numeral.digits * 10 ^ numeral.exponent

theorem magnitude_eq_zero_iff (numeral : Decimal) : numeral.magnitude = 0 ↔ numeral.digits = 0 := by
  have power : (10 : ℚ) ^ numeral.exponent ≠ 0 := by positivity
  rw [magnitude, mul_eq_zero, or_iff_left power, Nat.cast_eq_zero]

/-- The double of a sign and a number. -/
def ofMagnitude (negative : Bool) (value : ℚ) : Float :=
  let unsigned := if value = 0 then .ofModel (.pack (.zero .positive)) else ofPositive value
  if negative then -unsigned else unsigned

/-- The double that a numeral is read as depends on its sign and its number alone. -/
theorem toFloat_eq (numeral : Decimal) :
    numeral.toFloat = ofMagnitude numeral.negative numeral.magnitude := by
  suffices unsigned : (if 0 ≤ numeral.exponent then
        Float.ofScientific numeral.digits false numeral.exponent.toNat
      else Float.ofScientific numeral.digits true (-numeral.exponent).toNat) =
      if numeral.magnitude = 0 then .ofModel (.pack (.zero .positive))
      else ofPositive numeral.magnitude by
    rw [toFloat, ofMagnitude, unsigned]
  simp only [magnitude_eq_zero_iff]
  by_cases zero : numeral.digits = 0
  · rw [if_pos zero, zero, ofScientific_zero, ofScientific_zero, ite_self]
  · have positive := Nat.pos_of_ne_zero zero
    rw [if_neg zero, ofScientific_eq positive, ofScientific_eq positive, if_neg Bool.false_ne_true,
      if_pos rfl, magnitude]
    split
    · next whole => rw [Int.toNat_of_nonneg whole]
    · next notWhole => rw [Int.toNat_of_nonneg (by omega), neg_neg]

theorem toFloat_congr {left right : Decimal} (sign : left.negative = right.negative)
    (magnitude : left.magnitude = right.magnitude) : left.toFloat = right.toFloat := by
  rw [toFloat_eq, toFloat_eq, sign, magnitude]

theorem isFinite_neg {x : Float} (finite : x.isFinite = true) : (-x).isFinite = true := by
  obtain ⟨value, exact⟩ := isFinite_iff.mp finite
  obtain ⟨unpack_eq, isDouble⟩ := unpack_of_decompose? exact
  change (Float.Model.pack x.toModel.unpack.neg).unpack.isFinite = true
  rw [unpack_eq, ExactBinary.unpacked]
  split
  · next positive => exact isFinite_pack _ positive isDouble.high
  · rw [UnpackedFloat.neg, unpack_zero]
    rfl

/-- A whole number of the size of a machine word is read as a finite double. -/
theorem isFinite_toFloat {numeral : Decimal} (whole : numeral.exponent = 0)
    (small : numeral.digits ≤ 2 ^ 64) : numeral.toFloat.isFinite = true := by
  have magnitude_eq : numeral.magnitude = numeral.digits := by
    rw [magnitude, whole, zpow_zero, mul_one]
  have unsigned : (if (numeral.digits : ℚ) = 0 then .ofModel (.pack (.zero .positive))
      else ofPositive numeral.digits).isFinite = true := by
    split
    · rfl
    · next nonzero =>
      rw [Nat.cast_eq_zero] at nonzero
      refine isFinite_ofPositive (by exact_mod_cast Nat.pos_of_ne_zero nonzero) ?_
      calc
        (numeral.digits : ℚ) ≤ 2 ^ 64 := by exact_mod_cast small
        _ < 2 ^ 1023 := pow_lt_pow_right₀ one_lt_two (by decide)
  rw [toFloat_eq, magnitude_eq, ofMagnitude]
  split
  · exact isFinite_neg unsigned
  · exact unsigned

/-! ## Trailing zeros -/

theorem negative_trim (limit : ℕ) (numeral : Decimal) :
    (numeral.trim limit).negative = numeral.negative := by
  induction limit generalizing numeral with
  | zero => rfl
  | succ limit ih =>
      rw [trim]
      split
      · rfl
      · exact ih _

/-- Dropping trailing zeros keeps the number. -/
theorem magnitude_trim (limit : ℕ) (numeral : Decimal) :
    (numeral.trim limit).magnitude = numeral.magnitude := by
  induction limit generalizing numeral with
  | zero => rfl
  | succ limit ih =>
      rw [trim]
      split
      · rfl
      · next trailing =>
        have digits_eq : ((numeral.digits / 10 : ℕ) : ℚ) * 10 = numeral.digits := by
          exact_mod_cast show numeral.digits / 10 * 10 = numeral.digits by omega
        rw [ih, magnitude, magnitude, zpow_add_one₀ (by norm_num), ← digits_eq]
        ring

theorem toFloat_trim (limit : ℕ) (numeral : Decimal) :
    (numeral.trim limit).toFloat = numeral.toFloat :=
  toFloat_congr (negative_trim limit numeral) (magnitude_trim limit numeral)

/-! ## Exact numerals -/

theorem magnitude_ofExact (value : ExactBinary) :
    (ofExact value).magnitude = value.magnitude * 2 ^ value.exponent := by
  rw [ofExact]
  split
  · next whole =>
    have scale : ((Nat.pow 2 value.exponent.toNat : ℕ) : ℚ) = 2 ^ value.exponent := by
      rw [Nat.pow_eq, Nat.cast_pow, ← zpow_natCast, Int.toNat_of_nonneg whole]
      rfl
    rw [magnitude, zpow_zero, mul_one, Nat.cast_mul, scale]
  · next notWhole =>
    obtain ⟨places, exponent_eq⟩ : ∃ places : ℕ, value.exponent = -places :=
      ⟨value.exponent.natAbs, by omega⟩
    have scale : (5 : ℚ) ^ places * (10 ^ places)⁻¹ = (2 ^ places)⁻¹ := by
      rw [show (10 : ℚ) = 5 * 2 by norm_num, mul_pow, mul_inv, mul_inv_cancel_left₀ (by positivity)]
    rw [magnitude, exponent_eq, neg_neg, Int.toNat_natCast, zpow_neg, zpow_neg, zpow_natCast,
      zpow_natCast, Nat.cast_mul, Nat.pow_eq, Nat.cast_pow, mul_assoc]
    exact congrArg _ scale

/-- A number that is a finite double is read as that double. -/
theorem ofMagnitude_of_decompose? {x : Float} {value : ExactBinary}
    (exact : decompose? x = some value) :
    ofMagnitude value.negative (value.magnitude * 2 ^ value.exponent) = x := by
  obtain ⟨unpack_eq, isDouble⟩ := unpack_of_decompose? exact
  have same : x = .ofModel (.pack value.unpacked) := by
    rw [← unpack_eq, pack_unpack_model]
  rw [same, ofMagnitude, ExactBinary.unpacked, ExactBinary.sign]
  by_cases positive : 0 < value.magnitude
  · have nonzero : (value.magnitude : ℚ) * 2 ^ value.exponent ≠ 0 := by positivity
    rw [dif_pos positive, if_neg nonzero, ofPositive, isDouble.ofRat_eq positive]
    cases value.negative
    · rfl
    · change Float.ofModel (.pack (Float.Model.pack _).unpack.neg) = _
      rw [unpack_pack _ _ isDouble.toCanonical isDouble.high]
      rfl
  · rw [dif_neg positive, Nat.eq_zero_of_not_pos positive, Nat.cast_zero, zero_mul, if_pos rfl]
    cases value.negative <;> rfl

/-- The exact numeral of a double reads back to it. -/
theorem toFloat_ofExact {x : Float} {value : ExactBinary} (exact : decompose? x = some value) :
    (ofExact value).toFloat = x := by
  have sign : (ofExact value).negative = value.negative := by
    rw [ofExact]
    split <;> rfl
  rw [toFloat_eq, sign, magnitude_ofExact, ofMagnitude_of_decompose? exact]

/-- The numeral that is selected for a double reads back to it. -/
theorem toFloat_shortest (tie : Tie) {x : Float} {value : ExactBinary}
    (exact : decompose? x = some value) : (shortest tie x value).toFloat = x := by
  rw [shortest]
  split
  · next zero =>
    rw [← ofMagnitude_of_decompose? exact, toFloat_eq, magnitude, zero, Nat.cast_zero, zero_mul,
      zero_mul]
  · dsimp only
    split
    · next numeral hit =>
      obtain ⟨further, -, found⟩ := List.exists_of_findSome?_eq_some hit
      have reads := List.find?_some found
      rw [toFloat_trim]
      exact of_decide_eq_true reads
    · exact toFloat_ofExact exact

/-- A zero numeral is selected for a zero double only, and is not scaled. -/
theorem exponent_shortest_of_zero (tie : Tie) {x : Float} {value : ExactBinary}
    (exact : decompose? x = some value) (zero : (shortest tie x value).digits = 0) :
    (shortest tie x value).exponent = 0 := by
  have reads := toFloat_shortest tie exact
  rw [toFloat_eq, (magnitude_eq_zero_iff _).mpr zero, ofMagnitude, if_pos rfl] at reads
  have unpack_eq : ∃ sign, x.toModel.unpack = .zero sign := by
    rw [← reads]
    cases (shortest tie x value).negative
    · exact ⟨.positive, rfl⟩
    · exact ⟨.negative, rfl⟩
  have magnitude_zero : value.magnitude = 0 := by
    obtain ⟨sign, unpack_eq⟩ := unpack_eq
    rw [(unpack_of_decompose? exact).1, ExactBinary.unpacked] at unpack_eq
    split at unpack_eq
    · cases unpack_eq
    · next empty => exact Nat.eq_zero_of_not_pos empty
  rw [shortest, if_pos magnitude_zero]

end Decimal

end EconModel
