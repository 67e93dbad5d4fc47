import EconModel.Proofs.Binary64.Arithmetic

/-!
# Order and square roots of doubles

Finite doubles are compared as the numbers that they are.  The square root of a double is finite
exactly where the double is finite and not negative: it cannot overflow.
-/

namespace EconModel

namespace Binary64

open Float.Model Float.Model.UnpackedFloat

/-! ## Order -/

section Canonical

variable {m n : ℕ} {d e : ℤ}

/-- A canonical float with a higher exponent is greater. -/
theorem Canonical.lt_of_exponent_lt (left : Canonical m d) (right : Canonical n e)
    (higher : d < e) : (m : ℚ) * 2 ^ d < n * 2 ^ e := by
  have full : (2 : ℚ) ^ 52 ≤ n := by
    have low := left.low
    exact_mod_cast right.full.resolve_right (by omega)
  have short : (m : ℚ) < 2 ^ 53 := by exact_mod_cast left.short
  calc
    (m : ℚ) * 2 ^ d < 2 ^ 53 * 2 ^ d := by gcongr
    _ = 2 ^ 52 * 2 ^ (d + 1) := by
      rw [zpow_add_one₀ two_ne_zero]
      ring
    _ ≤ n * 2 ^ e := by
      gcongr
      · exact one_le_two
      · omega

/-- Canonical floats are compared by their exponents first. -/
theorem Canonical.compare_eq (left : Canonical m d) (right : Canonical n e) :
    (compare d e).then (compare m n) = cmp ((m : ℚ) * 2 ^ d) (n * 2 ^ e) := by
  rcases lt_trichotomy d e with higher | rfl | lower
  · rw [Int.compare_eq_lt.mpr higher, (cmp_eq_lt_iff _ _).mpr (left.lt_of_exponent_lt right higher)]
    rfl
  · have scale : (0 : ℚ) < 2 ^ d := by positivity
    rw [Int.compare_eq_eq.mpr rfl, cmp_mul_pos_right scale]
    rcases lt_trichotomy m n with less | rfl | greater
    · rw [Nat.compare_eq_lt.mpr less, (cmp_eq_lt_iff _ _).mpr (by exact_mod_cast less)]
      rfl
    · rw [Nat.compare_eq_eq.mpr rfl, cmp_self_eq_eq]
      rfl
    · rw [Nat.compare_eq_gt.mpr greater, (cmp_eq_gt_iff _ _).mpr (by exact_mod_cast greater)]
      rfl
  · rw [Int.compare_eq_gt.mpr lower, (cmp_eq_gt_iff _ _).mpr (right.lt_of_exponent_lt left lower)]
    rfl

end Canonical

/-- Finite doubles are compared as numbers. -/
theorem Finite.compare_eq {left right : UnpackedFloat} (left_finite : Finite left)
    (right_finite : Finite right) :
    left.compare right = some (cmp (valueOf left) (valueOf right)) := by
  have less {a b : ℚ} (a_lt : a < b) : cmp a b = .lt := (cmp_eq_lt_iff a b).mpr a_lt
  have greater {a b : ℚ} (b_lt : b < a) : cmp a b = .gt := (cmp_eq_gt_iff a b).mpr b_lt
  cases left_finite with
  | zero sign =>
      cases right_finite with
      | zero other =>
          rw [valueOf, valueOf, cmp_self_eq_eq]
          rfl
      | canonical other positive canonical high =>
          rw [valueOf, valueOf]
          cases other with
          | negative =>
              rw [signed, greater (neg_neg_of_pos (by positivity))]
              rfl
          | positive =>
              rw [signed, less (by positivity)]
              rfl
  | canonical sign positive canonical high =>
      cases right_finite with
      | zero other =>
          rw [valueOf, valueOf]
          cases sign with
          | negative =>
              rw [signed, less (neg_neg_of_pos (by positivity))]
              rfl
          | positive =>
              rw [signed, greater (by positivity)]
              rfl
      | canonical other other_pos other_canonical other_high =>
          rw [valueOf, valueOf]
          cases sign with
          | negative =>
              cases other with
              | negative =>
                  rw [signed, signed, ← neg_one_mul, ← neg_one_mul (_ * _),
                    cmp_mul_neg_left (by norm_num), ← cmp_swap,
                    ← canonical.compare_eq other_canonical]
                  rfl
              | positive =>
                  rw [signed, signed, less ((neg_neg_of_pos (by positivity)).trans (by positivity))]
                  rfl
          | positive =>
              cases other with
              | negative =>
                  rw [signed, signed,
                    greater ((neg_neg_of_pos (by positivity)).trans (by positivity))]
                  rfl
              | positive =>
                  rw [signed, signed, ← canonical.compare_eq other_canonical]
                  rfl

section Doubles

variable {x y : Float} (x_finite : x.isFinite = true) (y_finite : y.isFinite = true)

include x_finite y_finite

theorem toRat_le_iff : x ≤ y ↔ toRat x ≤ toRat y := by
  have compared := (finite_unpack x_finite).compare_eq (finite_unpack y_finite)
  change decide (x.toModel.unpack.le y.toModel.unpack = true) = true ↔ _
  rw [decide_eq_true_iff, UnpackedFloat.le, compared, ← not_lt, ← cmp_eq_gt_iff]
  change (cmp (toRat x) (toRat y)).isLE = true ↔ _
  cases cmp (toRat x) (toRat y) <;> decide

theorem toRat_lt_iff : x < y ↔ toRat x < toRat y := by
  have compared := (finite_unpack x_finite).compare_eq (finite_unpack y_finite)
  change decide (x.toModel.unpack.lt y.toModel.unpack = true) = true ↔ _
  rw [decide_eq_true_iff, UnpackedFloat.lt, compared, ← cmp_eq_lt_iff]
  change (some (cmp (toRat x) (toRat y)) == some .lt) = true ↔ _
  cases cmp (toRat x) (toRat y) <;> decide

/-- Finite doubles are equal as doubles where they are equal as numbers; the zeros are. -/
theorem toRat_eq_iff : (x == y) = true ↔ toRat x = toRat y := by
  have compared := (finite_unpack x_finite).compare_eq (finite_unpack y_finite)
  change x.toModel.unpack.beq y.toModel.unpack = true ↔ _
  rw [UnpackedFloat.beq, compared, ← cmp_eq_eq_iff (toRat x) (toRat y)]
  change (some (cmp (toRat x) (toRat y)) == some .eq) = true ↔ _
  cases cmp (toRat x) (toRat y) <;> decide

end Doubles

/-! ## Square roots -/

/-- What is cut off behind a mantissa is less than one. -/
theorem exists_mantissaAt (mantissa : ℕ) (exponent : ℤ) (accuracy : Accuracy) :
    ∃ rest : ℚ, 0 ≤ rest ∧ rest < 1 ∧
      ExtendedMantissa.ofMantissaAndAccuracy mantissa accuracy =
        mantissaAt ((mantissa + rest) * 2 ^ exponent) exponent := by
  have cut {rest : ℚ} {half some : Bool} (nonneg : 0 ≤ rest) (less : rest < 1)
      (half_iff : half = true ↔ 1 / 2 ≤ rest) (some_iff : some = true ↔ rest ≠ 0 ∧ rest ≠ 1 / 2) :
      mantissaAt ((mantissa + rest) * 2 ^ exponent) exponent = ⟨mantissa, half, some⟩ := by
    have scaled : ((mantissa : ℚ) + rest) * 2 ^ exponent / 2 ^ exponent = mantissa + rest :=
      mul_div_cancel_right₀ _ (by positivity)
    apply mantissaAt_eq <;> rw [scaled]
    · exact le_add_of_nonneg_right nonneg
    · exact add_lt_add_right less _
    · rw [half_iff, add_le_add_iff_left]
    · rw [some_iff, Ne, Ne, Ne, Ne, add_eq_left, add_right_inj]
  cases accuracy with
  | exact => exact ⟨0, by norm_num, by norm_num, (cut (by norm_num) (by norm_num) (by norm_num)
      (by norm_num)).symm⟩
  | inexact order =>
      cases order with
      | lt => exact ⟨1 / 4, by norm_num, by norm_num, (cut (by norm_num) (by norm_num)
          (by norm_num) (by norm_num)).symm⟩
      | eq => exact ⟨1 / 2, by norm_num, by norm_num, (cut (by norm_num) (by norm_num)
          (by norm_num) (by norm_num)).symm⟩
      | gt => exact ⟨3 / 4, by norm_num, by norm_num, (cut (by norm_num) (by norm_num)
          (by norm_num) (by norm_num)).symm⟩

/-- A root has half as many places as what it is taken of. -/
theorem half_log2_le_log2_sqrt {whole : ℕ} (positive : 0 < whole) :
    0 < Nat.sqrt whole ∧ whole.log2 / 2 ≤ (Nat.sqrt whole).log2 := by
  have root_ge : 2 ^ (whole.log2 / 2) ≤ Nat.sqrt whole := by
    rw [Nat.le_sqrt, ← Nat.pow_add]
    exact (Nat.pow_le_pow_right two_pos (by omega)).trans (Nat.log2_self_le positive.ne')
  have root_pos : 0 < Nat.sqrt whole := lt_of_lt_of_le (Nat.two_pow_pos _) root_ge
  exact ⟨root_pos, (Nat.le_log2 root_pos.ne').mpr root_ge⟩

/-- The root of a number below all overflow is far below it. -/
theorem sqrt_mul_two_zpow_lt {whole : ℕ} {lower : ℤ}
    (size_lt : (whole : ℚ) * (2 ^ lower * 2 ^ lower) < 2 ^ 1024) :
    (Nat.sqrt whole : ℚ) * 2 ^ lower < 2 ^ 512 := by
  have square : (Nat.sqrt whole : ℚ) * Nat.sqrt whole ≤ whole := by
    exact_mod_cast Nat.sqrt_le whole
  refine lt_of_pow_lt_pow_left₀ 2 (by positivity) ?_
  calc
    ((Nat.sqrt whole : ℚ) * 2 ^ lower) ^ 2 =
        Nat.sqrt whole * Nat.sqrt whole * (2 ^ lower * 2 ^ lower) := by ring
    _ ≤ whole * (2 ^ lower * 2 ^ lower) := by gcongr
    _ < 2 ^ 1024 := size_lt
    _ = (2 ^ 512) ^ 2 := pow_mul 2 512 2

/-- A mantissa whose number lies well below the overflow is rounded to a finite double, whatever is
cut off behind it. -/
theorem isFinite_roundWithAccuracy (sign : Sign) {mantissa : ℕ} (positive : 0 < mantissa)
    {exponent : ℤ} (accuracy : Accuracy) (small : (mantissa : ℚ) * 2 ^ exponent < 2 ^ 512)
    (low : exponent ≤ max (mantissa.log2 + exponent - 52) (-1074)) :
    (Float.Model.pack (roundWithAccuracy .binary64 sign mantissa exponent
      accuracy)).unpack.isFinite = true := by
  obtain ⟨rest, rest_nonneg, rest_lt, cut⟩ := exists_mantissaAt mantissa exponent accuracy
  have one_le : (1 : ℚ) ≤ mantissa := by exact_mod_cast positive
  have value_pos : (0 : ℚ) < (mantissa + rest) * 2 ^ exponent := by positivity
  have value_lt : ((mantissa : ℚ) + rest) * 2 ^ exponent < overflow := by
    refine lt_of_lt_of_le ?_ overflow_between.1
    calc
      ((mantissa : ℚ) + rest) * 2 ^ exponent ≤ 2 * (mantissa * 2 ^ exponent) := by
        rw [← mul_assoc]
        gcongr
        linarith
      _ < 2 * 2 ^ 512 := by gcongr
      _ = 2 ^ 513 := (pow_succ' 2 512).symm
      _ ≤ 2 ^ 1023 := pow_le_pow_right₀ one_le_two (by decide)
  have mantissa_eq :
      (mantissaAt ((mantissa + rest) * 2 ^ exponent) exponent).mantissa = mantissa := by
    rw [← cut]
    cases accuracy with
    | exact => rfl
    | inexact order => cases order <;> rfl
  have log_eq := log_eq_of_mantissa value_pos exponent
  rw [mantissa_eq] at log_eq
  rw [roundWithAccuracy_eq sign value_pos cut]
  · exact (unpack_pack_ofRat sign value_pos).1.mpr value_lt
  · rwa [exponentOf_eq, log_eq positive.ne']

/-- The square root of a canonical float does not overflow. -/
theorem isFinite_sqrt_canonical {mantissa : ℕ} {exponent : ℤ} (positive : 0 < mantissa)
    (canonical : Canonical mantissa exponent) (high : exponent ≤ 971) :
    (Float.Model.pack (UnpackedFloat.sqrt .binary64
      (.finite .positive mantissa exponent positive))).unpack.isFinite = true := by
  rw [UnpackedFloat.sqrt, sqrtCore]
  dsimp only
  -- The exponent of the root is chosen so low that all its places are there.
  generalize chosen : min (exponent.ediv 2) (Format.binary64.targetExponent
    ((totalExponent mantissa exponent + 1).ediv 2)) = lower
  rw [totalExponent, targetExponent_eq] at chosen
  change min (exponent / 2) (max (((mantissa.log2 : ℤ) + 1 + exponent + 1) / 2 - 53) (-1074)) =
    lower at chosen
  have shifted_pos : 0 < mantissa <<< (exponent - 2 * lower).toNat := by
    rwa [Nat.shiftLeft_pos_iff]
  have shifted_log : mantissa.log2 + (exponent - 2 * lower).toNat ≤
      (mantissa <<< (exponent - 2 * lower).toNat).log2 := by
    rw [Nat.le_log2 shifted_pos.ne', Nat.shiftLeft_eq, Nat.pow_add]
    exact Nat.mul_le_mul_right _ (Nat.log2_self_le positive.ne')
  obtain ⟨root_pos, root_log⟩ := half_log2_le_log2_sqrt shifted_pos
  refine isFinite_roundWithAccuracy .positive root_pos _ (sqrt_mul_two_zpow_lt ?_) (by omega)
  have size_eq : ((mantissa <<< (exponent - 2 * lower).toNat : ℕ) : ℚ) * (2 ^ lower * 2 ^ lower) =
      mantissa * 2 ^ exponent := by
    rw [Nat.shiftLeft_eq, ← zpow_add₀ two_ne_zero]
    push_cast
    rw [mul_assoc, ← zpow_natCast, ← zpow_add₀ two_ne_zero]
    congr 2
    omega
  rw [size_eq]
  exact canonical.lt_two_pow_iff.mpr high

theorem isFinite_sqrt_iff {x : Float} :
    x.sqrt.isFinite = true ↔ x.isFinite = true ∧ 0 ≤ toRat x := by
  have unpacked : x.sqrt.isFinite =
      (Float.Model.pack (UnpackedFloat.sqrt .binary64 x.toModel.unpack)).unpack.isFinite := rfl
  rw [unpacked]
  constructor
  · intro packed
    have finite := isFinite_of_pack packed
    change x.toModel.unpack.isFinite = true ∧ 0 ≤ valueOf x.toModel.unpack
    cases unpack_eq : x.toModel.unpack with
    | notANumber =>
        rw [unpack_eq] at finite
        cases finite
    | infinity sign =>
        rw [unpack_eq] at finite
        cases sign <;> cases finite
    | zero sign => exact ⟨rfl, le_refl 0⟩
    | finite sign mantissa exponent positive =>
        rw [unpack_eq] at finite
        cases sign with
        | negative => cases finite
        | positive =>
            refine ⟨rfl, ?_⟩
            rw [valueOf, signed]
            positivity
  · rintro ⟨x_finite, nonneg⟩
    have finite := finite_unpack x_finite
    rw [toRat] at nonneg
    generalize x.toModel.unpack = float at finite nonneg ⊢
    cases finite with
    | zero sign => cases sign <;> rfl
    | canonical sign positive canonical high =>
        cases sign with
        | negative => exact absurd nonneg (not_le.mpr (neg_neg_of_pos (by positivity)))
        | positive => exact isFinite_sqrt_canonical positive canonical high

end Binary64

end EconModel
