import EconModel.Proofs.Binary64.Overflow

/-!
# Doubles in exact arithmetic

An operation on finite doubles yields what the exact result rounds to, and an operation on other
ones yields no finite double.  So whether a sum, a difference, a product or a quotient is finite can
be told from exact results.
-/

namespace EconModel

namespace Binary64

open Float.Model Float.Model.UnpackedFloat

/-! ## Operations -/

/-- A whole multiple of a power of two is rounded as a number. -/
theorem rounds_round (sign : Sign) {mantissa : ℕ} (positive : 0 < mantissa) (exponent : ℤ) :
    Rounds (signed sign (mantissa * 2 ^ exponent))
      (.ofModel (.pack (UnpackedFloat.round .binary64 sign mantissa exponent))) :=
  .signed sign (by positivity) rfl (by rw [round_eq sign positive])

theorem rounds_normalize (mantissa exponent : ℤ) (zeroSign : Sign) :
    Rounds (mantissa * 2 ^ exponent)
      (.ofModel (.pack (normalize .binary64 mantissa exponent zeroSign))) := by
  rw [UnpackedFloat.normalize]
  split
  · next negative =>
    have negative : mantissa < 0 := Int.compare_eq_lt.mp negative
    have size_eq : ((-mantissa).toNat : ℚ) = -mantissa := by
      exact_mod_cast Int.toNat_of_nonneg (show 0 ≤ -mantissa by omega)
    have rounds := rounds_round .negative (show 0 < (-mantissa).toNat by omega) exponent
    rwa [signed, size_eq, neg_mul, neg_neg] at rounds
  · next zero =>
    refine .zero zeroSign ?_ rfl
    rw [Int.compare_eq_eq.mp zero, Int.cast_zero, zero_mul]
  · next positive =>
    have positive : 0 < mantissa := Int.compare_eq_gt.mp positive
    have size_eq : (mantissa.toNat : ℚ) = mantissa := by
      exact_mod_cast Int.toNat_of_nonneg positive.le
    have rounds := rounds_round .positive (show 0 < mantissa.toNat by omega) exponent
    rwa [signed, size_eq] at rounds

/-- Lowering an exponent keeps the number. -/
theorem decreaseExponent_eq (sign : Sign) (mantissa : ℕ) {exponent lower : ℤ}
    (low : lower ≤ exponent) :
    ((sign.apply (decreaseExponent mantissa exponent lower).1 : ℤ) : ℚ) * 2 ^ lower =
      signed sign (mantissa * 2 ^ exponent) := by
  have scale : (2 : ℚ) ^ exponent = 2 ^ (exponent - lower).toNat * 2 ^ lower := by
    rw [← zpow_natCast, ← zpow_add₀ two_ne_zero]
    congr 1
    omega
  have shifted : ((decreaseExponent mantissa exponent lower).1 : ℚ) * 2 ^ lower =
      mantissa * 2 ^ exponent := by
    rw [decreaseExponent, Nat.shiftLeft_eq, scale]
    push_cast
    ring
  cases sign with
  | negative =>
      rw [signed, ← shifted, Sign.apply]
      push_cast
      ring
  | positive =>
      rw [signed, ← shifted, Sign.apply]
      push_cast
      rfl

theorem rounds_add {left right : UnpackedFloat} (left_finite : Finite left)
    (right_finite : Finite right) :
    Rounds (valueOf left + valueOf right)
      (.ofModel (.pack (UnpackedFloat.add .binary64 left right))) := by
  cases left_finite with
  | zero sign =>
      rw [show valueOf (.zero sign) = 0 from rfl, zero_add]
      cases right_finite with
      | zero other =>
          rw [UnpackedFloat.add]
          split
          · exact .zero _ rfl rfl
          · exact .zero _ rfl rfl
      | canonical other positive canonical high =>
          exact (Finite.canonical other positive canonical high).rounds
  | canonical sign positive canonical high =>
      cases right_finite with
      | zero other =>
          rw [show valueOf (.zero other) = 0 from rfl, add_zero]
          exact (Finite.canonical sign positive canonical high).rounds
      | canonical other other_pos other_canonical other_high =>
          rw [valueOf, valueOf, ← decreaseExponent_eq sign _ (min_le_left _ _),
            ← decreaseExponent_eq other _ (min_le_right _ _), ← add_mul, ← Int.cast_add]
          exact rounds_normalize _ _ _

theorem signed_mul (left right : Sign) (a b : ℚ) :
    signed (left * right) (a * b) = signed left a * signed right b := by
  cases left with
  | negative =>
      cases right with
      | negative => exact (neg_mul_neg a b).symm
      | positive => exact (neg_mul a b).symm
  | positive =>
      cases right with
      | negative => exact (mul_neg a b).symm
      | positive => rfl

theorem signed_div (left right : Sign) (a b : ℚ) :
    signed (left / right) (a / b) = signed left a / signed right b := by
  cases left with
  | negative =>
      cases right with
      | negative => exact (neg_div_neg_eq a b).symm
      | positive => exact (neg_div b a).symm
  | positive =>
      cases right with
      | negative => exact (div_neg a).symm
      | positive => rfl

section Operations

variable {left right : UnpackedFloat}

theorem Finite.neg (finite : Finite left) : Finite left.neg := by
  cases finite with
  | zero sign => exact .zero _
  | canonical sign positive canonical high => exact .canonical _ positive canonical high

theorem valueOf_neg (float : UnpackedFloat) : valueOf float.neg = -valueOf float := by
  cases float with
  | infinity | notANumber | zero => exact neg_zero.symm
  | finite sign mantissa exponent positive =>
      cases sign with
      | negative => exact (neg_neg _).symm
      | positive => rfl

theorem sub_eq_add (left right : UnpackedFloat) :
    UnpackedFloat.sub .binary64 left right = UnpackedFloat.add .binary64 left right.neg := by
  cases left with
  | notANumber => rfl
  | infinity sign => cases right <;> rfl
  | zero sign => cases right <;> rfl
  | finite sign mantissa exponent positive =>
      cases right with
      | notANumber | infinity | zero => rfl
      | finite other other_mantissa other_exponent other_pos =>
          cases other with
          | negative =>
              rw [UnpackedFloat.sub, UnpackedFloat.neg, UnpackedFloat.add]
              exact congrArg (normalize .binary64 · _ _) (sub_neg_eq_add _ _)
          | positive => rfl

theorem rounds_sub (left_finite : Finite left) (right_finite : Finite right) :
    Rounds (valueOf left - valueOf right)
      (.ofModel (.pack (UnpackedFloat.sub .binary64 left right))) := by
  rw [sub_eq_add, sub_eq_add_neg, ← valueOf_neg]
  exact rounds_add left_finite right_finite.neg

theorem rounds_mul (left_finite : Finite left) (right_finite : Finite right) :
    Rounds (valueOf left * valueOf right)
      (.ofModel (.pack (UnpackedFloat.mul .binary64 left right))) := by
  cases left_finite with
  | zero sign =>
      rw [show valueOf (.zero sign) = 0 from rfl, zero_mul]
      cases right_finite with
      | zero other => exact .zero _ rfl rfl
      | canonical other positive canonical high => exact .zero _ rfl rfl
  | @canonical sign m d m_pos m_canonical m_high =>
      cases right_finite with
      | zero other =>
          rw [show valueOf (.zero other) = 0 from rfl, mul_zero]
          exact .zero _ rfl rfl
      | @canonical other n e n_pos n_canonical n_high =>
          rw [valueOf, valueOf, ← signed_mul, mul_finite]
          · exact .signed _ (by positivity) rfl rfl
          · -- Either a factor has all its bits, or both exponents are the least one.
            rw [exponentOf_mul_two_zpow (Nat.mul_pos m_pos n_pos)]
            have m_low := m_canonical.low
            have n_low := n_canonical.low
            by_cases full : 2 ^ 52 ≤ m * n
            · have bits := (Nat.le_log2 (Nat.mul_pos m_pos n_pos).ne').mpr full
              omega
            · have m_least := m_canonical.full.resolve_left fun m_full =>
                full (m_full.trans (Nat.le_mul_of_pos_right m n_pos))
              have n_least := n_canonical.full.resolve_left fun n_full =>
                full (n_full.trans (Nat.le_mul_of_pos_left n m_pos))
              omega

theorem rounds_div (left_finite : Finite left) (right_finite : Finite right)
    (nonzero : valueOf right ≠ 0) :
    Rounds (valueOf left / valueOf right)
      (.ofModel (.pack (UnpackedFloat.div .binary64 left right))) := by
  cases right_finite with
  | zero other => exact absurd rfl nonzero
  | @canonical other n e n_pos n_canonical n_high =>
      cases left_finite with
      | zero sign =>
          rw [show valueOf (.zero sign) = 0 from rfl, zero_div]
          exact .zero _ rfl rfl
      | @canonical sign m d m_pos m_canonical m_high =>
          rw [valueOf, valueOf, ← signed_div, div_finite]
          exact .signed _ (by positivity) rfl rfl

/-! ## Results that are finite -/

/-- A sum is finite only if both its terms are. -/
theorem isFinite_of_add (finite : (UnpackedFloat.add .binary64 left right).isFinite = true) :
    left.isFinite = true ∧ right.isFinite = true := by
  cases left with
  | notANumber => cases finite
  | infinity sign =>
      cases right with
      | notANumber | zero | finite => cases finite
      | infinity other => cases sign <;> cases other <;> cases finite
  | zero | finite =>
      cases right with
      | notANumber | infinity => cases finite
      | zero | finite => exact ⟨rfl, rfl⟩

theorem isFinite_of_sub (finite : (UnpackedFloat.sub .binary64 left right).isFinite = true) :
    left.isFinite = true ∧ right.isFinite = true := by
  rw [sub_eq_add] at finite
  obtain ⟨left_finite, right_finite⟩ := isFinite_of_add finite
  refine ⟨left_finite, ?_⟩
  cases right with
  | notANumber | infinity => cases right_finite
  | zero | finite => rfl

theorem isFinite_of_mul (finite : (UnpackedFloat.mul .binary64 left right).isFinite = true) :
    left.isFinite = true ∧ right.isFinite = true := by
  cases left with
  | notANumber => cases finite
  | infinity sign => cases right <;> cases finite
  | zero | finite =>
      cases right with
      | notANumber | infinity => cases finite
      | zero | finite => exact ⟨rfl, rfl⟩

/-- A quotient by a finite divisor is finite only if its dividend is. -/
theorem isFinite_of_div (right_finite : Finite right)
    (finite : (UnpackedFloat.div .binary64 left right).isFinite = true) :
    left.isFinite = true := by
  cases left with
  | notANumber => cases finite
  | infinity sign => cases right_finite <;> cases finite
  | zero | finite => rfl

/-- Packing does not make a float finite. -/
theorem isFinite_of_pack (finite : (Float.Model.pack left).unpack.isFinite = true) :
    left.isFinite = true := by
  cases left with
  | notANumber => exact finite
  | infinity sign => cases sign <;> exact finite
  | zero | finite => rfl

end Operations

section Doubles

theorem toRat_one : toRat 1.0 = 1 := by decide +kernel

variable {x y : Float}

theorem isFinite_add_iff : (x + y).isFinite = true ↔
    x.isFinite = true ∧ y.isFinite = true ∧ Fits (toRat x + toRat y) := by
  constructor
  · intro finite
    obtain ⟨x_finite, y_finite⟩ := isFinite_of_add (isFinite_of_pack finite)
    exact ⟨x_finite, y_finite, (rounds_add (finite_unpack x_finite)
      (finite_unpack y_finite)).isFinite_iff.mp finite⟩
  · rintro ⟨x_finite, y_finite, fits⟩
    exact (rounds_add (finite_unpack x_finite) (finite_unpack y_finite)).isFinite_iff.mpr fits

theorem isFinite_sub_iff : (x - y).isFinite = true ↔
    x.isFinite = true ∧ y.isFinite = true ∧ Fits (toRat x - toRat y) := by
  constructor
  · intro finite
    obtain ⟨x_finite, y_finite⟩ := isFinite_of_sub (isFinite_of_pack finite)
    exact ⟨x_finite, y_finite, (rounds_sub (finite_unpack x_finite)
      (finite_unpack y_finite)).isFinite_iff.mp finite⟩
  · rintro ⟨x_finite, y_finite, fits⟩
    exact (rounds_sub (finite_unpack x_finite) (finite_unpack y_finite)).isFinite_iff.mpr fits

theorem isFinite_mul_iff : (x * y).isFinite = true ↔
    x.isFinite = true ∧ y.isFinite = true ∧ Fits (toRat x * toRat y) := by
  constructor
  · intro finite
    obtain ⟨x_finite, y_finite⟩ := isFinite_of_mul (isFinite_of_pack finite)
    exact ⟨x_finite, y_finite, (rounds_mul (finite_unpack x_finite)
      (finite_unpack y_finite)).isFinite_iff.mp finite⟩
  · rintro ⟨x_finite, y_finite, fits⟩
    exact (rounds_mul (finite_unpack x_finite) (finite_unpack y_finite)).isFinite_iff.mpr fits

theorem isFinite_div_iff (y_finite : y.isFinite = true) (nonzero : toRat y ≠ 0) :
    (x / y).isFinite = true ↔ x.isFinite = true ∧ Fits (toRat x / toRat y) := by
  have rounds (x_finite : x.isFinite = true) : Rounds (toRat x / toRat y) (x / y) :=
    rounds_div (finite_unpack x_finite) (finite_unpack y_finite) nonzero
  constructor
  · intro finite
    have x_finite : x.isFinite = true := isFinite_of_div (finite_unpack y_finite)
      (isFinite_of_pack finite)
    exact ⟨x_finite, (rounds x_finite).isFinite_iff.mp finite⟩
  · rintro ⟨x_finite, fits⟩
    exact (rounds x_finite).isFinite_iff.mpr fits

/-- A quotient does not overflow unless its divisor is below one. -/
theorem isFinite_div_iff_of_one_le (y_finite : y.isFinite = true) (large : 1 ≤ toRat y) :
    (x / y).isFinite = true ↔ x.isFinite = true := by
  rw [isFinite_div_iff y_finite (by linarith)]
  refine ⟨And.left, fun x_finite => ⟨x_finite, (fits_toRat x_finite).of_abs_le ?_⟩⟩
  rw [abs_div]
  exact div_le_self (abs_nonneg _) (large.trans (le_abs_self _))

/-- A product of numbers that are not negative is not negative. -/
theorem toRat_mul_nonneg (x_nonneg : 0 ≤ toRat x) (y_nonneg : 0 ≤ toRat y)
    (finite : (x * y).isFinite = true) : 0 ≤ toRat (x * y) := by
  obtain ⟨x_finite, y_finite, fits⟩ := isFinite_mul_iff.mp finite
  exact (rounds_mul (finite_unpack x_finite) (finite_unpack y_finite)).toRat_nonneg fits
    (mul_nonneg x_nonneg y_nonneg)

/-- A difference of numbers in order is not negative. -/
theorem toRat_sub_nonneg (le : toRat y ≤ toRat x) (finite : (x - y).isFinite = true) :
    0 ≤ toRat (x - y) := by
  obtain ⟨x_finite, y_finite, fits⟩ := isFinite_sub_iff.mp finite
  exact (rounds_sub (finite_unpack x_finite) (finite_unpack y_finite)).toRat_nonneg fits
    (sub_nonneg.mpr le)

end Doubles

end Binary64

end EconModel
