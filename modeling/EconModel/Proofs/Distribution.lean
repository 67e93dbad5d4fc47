import EconModel.Proofs.Binary64.Order
import EconModel.Proofs.RoundTrip.Model

/-!
# Means and draws that are finite

A distribution that is in order has finite numbers, but what is computed from them may overflow.
Here it is said for every family which exact results have to fit into the doubles for its mean, and
for a draw, to be finite; what the exponential function and the logarithm yield is taken as it is.
-/

namespace EconModel

open Binary64

/-! ## Distributions in order -/

namespace Distribution

/-- The numbers of a distribution are in order. -/
def InOrder : Distribution Float → Prop
  | .normal _ deviation => ¬deviation < 0.0
  | .logNormal _ sigma => ¬sigma < 0.0
  | .uniform min max => ¬max ≤ min
  | .triangular min mode max => ¬max ≤ min ∧ min ≤ mode ∧ mode ≤ max
  | .exponential rate => ¬rate ≤ 0.0
  | .fixed _ => True

/-- A check that begins with the named numbers passes where they are finite and the rest passes. -/
theorem finite_then_eq_ok_iff {fields : List (String × Float)} {rest : Except (Defect Float) Unit} :
    (firstNotFinite fields >>= fun _ => rest) = .ok () ↔
      (∀ field ∈ fields, field.2.isFinite = true) ∧ rest = .ok () := by
  have none_iff : (fields.find? fun field => !Elementary.isFinite field.2) = none ↔
      ∀ field ∈ fields, field.2.isFinite = true := by
    rw [List.find?_eq_none]
    simp only [Bool.not_eq_true, Bool.not_eq_false']
    exact Iff.rfl
  rw [← none_iff, firstNotFinite]
  cases fields.find? fun field => !Elementary.isFinite field.2 with
  | none => simp [bind, Except.bind]
  | some field => simp [bind, Except.bind]

/-- A distribution is valid where its numbers are finite and in order. -/
theorem validate_eq_ok_iff (marginal : Distribution Float) :
    marginal.validate = .ok () ↔
      (∀ number ∈ marginal.numbers, number.isFinite = true) ∧ marginal.InOrder := by
  have checked {condition : Prop} [Decidable condition] {defect : Defect Float}
      {rest : Except (Defect Float) Unit} :
      (if condition then .error defect else rest) = .ok () ↔ ¬condition ∧ rest = .ok () := by
    split <;> simp [*]
  cases marginal with
  | normal mean deviation =>
      refine finite_then_eq_ok_iff.trans ?_
      simp [checked, numbers, InOrder]
  | logNormal mu sigma =>
      refine finite_then_eq_ok_iff.trans ?_
      simp [checked, numbers, InOrder]
  | uniform min max =>
      refine finite_then_eq_ok_iff.trans ?_
      simp [checked, numbers, InOrder]
  | triangular min mode max =>
      refine finite_then_eq_ok_iff.trans ?_
      simp [checked, numbers, InOrder, Scalar.within]
  | exponential rate =>
      refine finite_then_eq_ok_iff.trans ?_
      simp [checked, numbers, InOrder]
  | fixed value =>
      have check_eq : validate (.fixed value) =
          (firstNotFinite [("value", value)] >>= fun _ => .ok ()) := by
        rw [validate]
        cases firstNotFinite [("value", value)] <;> rfl
      rw [check_eq]
      refine finite_then_eq_ok_iff.trans ?_
      simp [numbers, InOrder]

/-! ## Means -/

/-- The exact results that the mean is computed from fit into the doubles. -/
def MeanFits : Distribution Float → Prop
  | .normal _ _ | .fixed _ => True
  | .logNormal mu sigma => (Float.exp (mu + sigma * sigma / 2.0)).isFinite = true
  | .uniform min max => Fits (toRat min + toRat max)
  | .triangular min mode max =>
      Fits (toRat min + toRat mode) ∧ Fits (toRat (min + mode) + toRat max)
  | .exponential rate => Fits (1 / toRat rate)

/-- A rate that is in order is not zero. -/
theorem rate_ne_zero {rate : Float} (finite : rate.isFinite = true)
    (inOrder : (exponential rate).InOrder) : toRat rate ≠ 0 := by
  have zero_eq : toRat 0.0 = 0 := by decide +kernel
  intro rate_eq
  exact inOrder ((toRat_le_iff finite rfl).mpr (by rw [rate_eq, zero_eq]))

/-- The mean of a valid distribution is finite exactly where nothing overflows in it. -/
theorem isFinite_mean_iff {marginal : Distribution Float} (valid : marginal.validate = .ok ()) :
    marginal.mean.isFinite = true ↔ marginal.MeanFits := by
  obtain ⟨finite, inOrder⟩ := (validate_eq_ok_iff marginal).mp valid
  cases marginal with
  | normal mean deviation => exact iff_of_true (finite mean (by simp [numbers])) trivial
  | fixed value => exact iff_of_true (finite value (by simp [numbers])) trivial
  | logNormal mu sigma => exact Iff.rfl
  | uniform min max =>
      have min_finite := finite min (by simp [numbers])
      have max_finite := finite max (by simp [numbers])
      rw [mean, isFinite_div_iff_of_one_le rfl (by decide +kernel), isFinite_add_iff, MeanFits,
        and_iff_right min_finite, and_iff_right max_finite]
  | triangular min mode max =>
      have min_finite := finite min (by simp [numbers])
      have mode_finite := finite mode (by simp [numbers])
      have max_finite := finite max (by simp [numbers])
      rw [mean, isFinite_div_iff_of_one_le rfl (by decide +kernel), isFinite_add_iff,
        isFinite_add_iff, MeanFits, and_iff_right min_finite, and_iff_right mode_finite,
        and_iff_right max_finite]
  | exponential rate =>
      have rate_finite := finite rate (by simp [numbers])
      rw [mean, isFinite_div_iff rate_finite (rate_ne_zero rate_finite inOrder), toRat_one]
      exact and_iff_right rfl

/-! ## Draws -/

/-- A probability that is a finite double lies between zero and one. -/
theorem toRat_cdf_mem {z : Float} (finite : (Normal.cdf z).isFinite = true) :
    0 ≤ toRat (Normal.cdf z) ∧ toRat (Normal.cdf z) ≤ 1 := by
  have low_eq : toRat 2.2250738585072014e-308 = 2 ^ (-1022 : ℤ) := by decide +kernel
  have low_finite : (2.2250738585072014e-308 : Float).isFinite = true := by decide +kernel
  have low_nonneg : (0 : ℚ) ≤ 2 ^ (-1022 : ℤ) := (zpow_pos two_pos _).le
  have low_le : (2 : ℚ) ^ (-1022 : ℤ) ≤ 1 := zpow_le_one_of_nonpos₀ one_le_two (by decide)
  rw [Normal.cdf, Scalar.clamp] at finite ⊢
  -- What the fit yields is clamped, unless it is undefined.
  generalize 0.5 * Normal.erfc (-z / 1.4142135623730951) = x at finite ⊢
  split at finite
  · next below =>
    rw [if_pos below, low_eq]
    exact ⟨low_nonneg, low_le⟩
  · next notBelow =>
    rw [if_neg notBelow]
    split at finite
    · next above =>
      rw [if_pos above, toRat_one]
      exact ⟨zero_le_one, le_refl 1⟩
    · next notAbove =>
      rw [toRat_lt_iff finite low_finite, low_eq, not_lt] at notBelow
      rw [if_neg notAbove]
      rw [toRat_lt_iff rfl finite, toRat_one, not_lt] at notAbove
      exact ⟨low_nonneg.trans notBelow, notAbove⟩

/-- The exact results that a draw is computed from fit into the doubles. -/
def DrawFits (z : Float) : Distribution Float → Prop
  | .normal mean deviation =>
      z.isFinite = true ∧ Fits (toRat deviation * toRat z) ∧
        Fits (toRat mean + toRat (deviation * z))
  | .logNormal mu sigma => (Float.exp (mu + sigma * z)).isFinite = true
  | .uniform min max =>
      (Normal.cdf z).isFinite = true ∧ Fits (toRat max - toRat min) ∧
        Fits (toRat min + toRat ((max - min) * Normal.cdf z))
  | .triangular min mode max =>
      let below := Normal.cdf z * (max - min)
      let above := (1.0 - Normal.cdf z) * (max - min)
      (Normal.cdf z).isFinite = true ∧ Fits (toRat max - toRat min) ∧
        if Normal.cdf z < (mode - min) / (max - min) then
          Fits (toRat below * toRat (mode - min)) ∧
            Fits (toRat min + toRat (Float.sqrt (below * (mode - min))))
        else
          Fits (toRat above * toRat (max - mode)) ∧
            Fits (toRat max - toRat (Float.sqrt (above * (max - mode))))
  | .exponential rate =>
      let exponent := -(Float.log (Normal.cdf (-z)))
      exponent.isFinite = true ∧ Fits (toRat exponent / toRat rate)
  | .fixed _ => True

theorem isFinite_width_iff {min max : Float} (min_finite : min.isFinite = true)
    (max_finite : max.isFinite = true) :
    (max - min).isFinite = true ↔ Fits (toRat max - toRat min) := by
  rw [isFinite_sub_iff, and_iff_right max_finite, and_iff_right min_finite]

/-- A share of a width does not overflow. -/
theorem isFinite_share_mul_iff {share width : Float}
    (share_mem : share.isFinite = true → 0 ≤ toRat share ∧ toRat share ≤ 1) :
    (share * width).isFinite = true ↔ share.isFinite = true ∧ width.isFinite = true := by
  rw [isFinite_mul_iff]
  constructor
  · rintro ⟨share_finite, width_finite, _⟩
    exact ⟨share_finite, width_finite⟩
  · rintro ⟨share_finite, width_finite⟩
    obtain ⟨nonneg, le_one⟩ := share_mem share_finite
    exact ⟨share_finite, width_finite,
      (fits_toRat width_finite).mul_of_abs_le_one ((abs_of_nonneg nonneg).trans_le le_one)⟩

/-- The square root in a triangular draw is finite where the product under it fits into the doubles:
it is taken of a share of the width and a part of the width. -/
theorem isFinite_sqrt_share_iff {share width part : Float}
    (share_mem : share.isFinite = true → 0 ≤ toRat share ∧ toRat share ≤ 1)
    (width_nonneg : width.isFinite = true → 0 ≤ toRat width)
    (part_mem : width.isFinite = true → part.isFinite = true ∧ 0 ≤ toRat part) :
    (Float.sqrt (share * width * part)).isFinite = true ↔
      share.isFinite = true ∧ width.isFinite = true ∧
        Fits (toRat (share * width) * toRat part) := by
  rw [isFinite_sqrt_iff, isFinite_mul_iff, isFinite_share_mul_iff share_mem]
  constructor
  · rintro ⟨⟨⟨share_finite, width_finite⟩, _, fits⟩, _⟩
    exact ⟨share_finite, width_finite, fits⟩
  · rintro ⟨share_finite, width_finite, fits⟩
    obtain ⟨part_finite, part_nonneg⟩ := part_mem width_finite
    have product_finite := (isFinite_share_mul_iff share_mem).mpr ⟨share_finite, width_finite⟩
    have product_nonneg := toRat_mul_nonneg (share_mem share_finite).1 (width_nonneg width_finite)
      product_finite
    refine ⟨⟨⟨share_finite, width_finite⟩, part_finite, fits⟩,
      toRat_mul_nonneg product_nonneg part_nonneg ?_⟩
    exact isFinite_mul_iff.mpr ⟨product_finite, part_finite, fits⟩

/-- What a probability leaves of one is a probability. -/
theorem toRat_one_sub_mem {share : Float} (nonneg : 0 ≤ toRat share) (le_one : toRat share ≤ 1)
    (finite : (1.0 - share).isFinite = true) :
    0 ≤ toRat (1.0 - share) ∧ toRat (1.0 - share) ≤ 1 := by
  obtain ⟨one_finite, share_finite, fits⟩ := isFinite_sub_iff.mp finite
  have rounds : Rounds (toRat 1.0 - toRat share) (1.0 - share) :=
    rounds_sub (finite_unpack one_finite) (finite_unpack share_finite)
  rw [toRat_one] at rounds fits
  have rest_nonneg : 0 ≤ 1 - toRat share := sub_nonneg.mpr le_one
  have rest_le : |1 - toRat share| ≤ 2 ^ (0 : ℤ) := by
    rw [abs_of_nonneg rest_nonneg, zpow_zero]
    linarith
  have rounded_le := rounds.abs_toRat_le fits (by decide) rest_le
  rw [zpow_zero] at rounded_le
  exact ⟨rounds.toRat_nonneg fits rest_nonneg, (le_abs_self _).trans rounded_le⟩

section Triangular

variable {min mode max : Float} (valid : (triangular min mode max).validate = .ok ())

include valid

/-- The peak divides the width into two parts, neither of which overflows unless the width does. -/
theorem triangular_parts (width_finite : (max - min).isFinite = true) :
    0 ≤ toRat (max - min) ∧ ((mode - min).isFinite = true ∧ 0 ≤ toRat (mode - min)) ∧
      (max - mode).isFinite = true ∧ 0 ≤ toRat (max - mode) := by
  obtain ⟨finite, _, min_le, le_max⟩ := (validate_eq_ok_iff _).mp valid
  have min_finite := finite min (by simp [numbers])
  have mode_finite := finite mode (by simp [numbers])
  have max_finite := finite max (by simp [numbers])
  rw [toRat_le_iff min_finite mode_finite] at min_le
  rw [toRat_le_iff mode_finite max_finite] at le_max
  obtain ⟨_, _, fits⟩ := isFinite_sub_iff.mp width_finite
  have whole_eq := abs_of_nonneg (sub_nonneg.mpr (min_le.trans le_max))
  have lower_finite : (mode - min).isFinite = true := by
    refine isFinite_sub_iff.mpr ⟨mode_finite, min_finite, fits.of_abs_le ?_⟩
    rw [whole_eq, abs_of_nonneg (sub_nonneg.mpr min_le)]
    linarith
  have upper_finite : (max - mode).isFinite = true := by
    refine isFinite_sub_iff.mpr ⟨max_finite, mode_finite, fits.of_abs_le ?_⟩
    rw [whole_eq, abs_of_nonneg (sub_nonneg.mpr le_max)]
    linarith
  exact ⟨toRat_sub_nonneg (min_le.trans le_max) width_finite,
    ⟨lower_finite, toRat_sub_nonneg min_le lower_finite⟩, upper_finite,
    toRat_sub_nonneg le_max upper_finite⟩

theorem isFinite_triangular_iff (z : Float) :
    ((triangular min mode max).fromStandardNormal z).isFinite = true ↔
      (triangular min mode max).DrawFits z := by
  obtain ⟨finite, _⟩ := (validate_eq_ok_iff _).mp valid
  have min_finite := finite min (by simp [numbers])
  have max_finite := finite max (by simp [numbers])
  have width_iff := isFinite_width_iff min_finite max_finite
  have rest_iff : (1.0 - Normal.cdf z).isFinite = true ↔ (Normal.cdf z).isFinite = true := by
    rw [isFinite_sub_iff, toRat_one]
    refine ⟨fun finite => finite.2.1, fun cdf_finite => ⟨rfl, cdf_finite, ?_⟩⟩
    obtain ⟨nonneg, le_one⟩ := toRat_cdf_mem cdf_finite
    have one_fits : Fits 1 := toRat_one ▸ fits_toRat rfl
    refine one_fits.of_abs_le ?_
    rw [abs_one, abs_of_nonneg (sub_nonneg.mpr le_one)]
    linarith
  have rest_mem (rest_finite : (1.0 - Normal.cdf z).isFinite = true) :
      0 ≤ toRat (1.0 - Normal.cdf z) ∧ toRat (1.0 - Normal.cdf z) ≤ 1 := by
    obtain ⟨nonneg, le_one⟩ := toRat_cdf_mem (rest_iff.mp rest_finite)
    exact toRat_one_sub_mem nonneg le_one rest_finite
  have parts := triangular_parts valid
  rw [fromStandardNormal, DrawFits, ← width_iff]
  split
  · rw [isFinite_add_iff, and_iff_right min_finite]
    change (Float.sqrt _).isFinite = true ∧ _ ↔ _
    rw [isFinite_sqrt_share_iff toRat_cdf_mem (fun width => (parts width).1)
      fun width => (parts width).2.1, and_assoc, and_assoc]
    exact Iff.rfl
  · rw [isFinite_sub_iff, and_iff_right max_finite]
    change (Float.sqrt _).isFinite = true ∧ _ ↔ _
    rw [isFinite_sqrt_share_iff rest_mem (fun width => (parts width).1)
      fun width => (parts width).2.2, rest_iff, and_assoc, and_assoc]
    exact Iff.rfl

end Triangular

/-- A draw from a valid distribution is finite exactly where nothing overflows in it. -/
theorem isFinite_draw_iff {marginal : Distribution Float} (valid : marginal.validate = .ok ())
    (z : Float) : (marginal.fromStandardNormal z).isFinite = true ↔ marginal.DrawFits z := by
  obtain ⟨finite, inOrder⟩ := (validate_eq_ok_iff marginal).mp valid
  cases marginal with
  | fixed value => exact iff_of_true (finite value (by simp [numbers])) trivial
  | logNormal mu sigma => exact Iff.rfl
  | normal mean deviation =>
      have mean_finite := finite mean (by simp [numbers])
      have deviation_finite := finite deviation (by simp [numbers])
      rw [fromStandardNormal, isFinite_add_iff, isFinite_mul_iff, DrawFits,
        and_iff_right mean_finite, and_iff_right deviation_finite, and_assoc]
  | uniform min max =>
      have min_finite := finite min (by simp [numbers])
      have max_finite := finite max (by simp [numbers])
      have width_iff := isFinite_width_iff min_finite max_finite
      rw [fromStandardNormal, isFinite_add_iff, and_iff_right min_finite, DrawFits, ← width_iff]
      constructor
      · rintro ⟨share_finite, fits⟩
        obtain ⟨width_finite, cdf_finite, _⟩ := isFinite_mul_iff.mp share_finite
        exact ⟨cdf_finite, width_finite, fits⟩
      · rintro ⟨cdf_finite, width_finite, fits⟩
        obtain ⟨nonneg, le_one⟩ := toRat_cdf_mem cdf_finite
        refine ⟨isFinite_mul_iff.mpr ⟨width_finite, cdf_finite, ?_⟩, fits⟩
        rw [mul_comm]
        exact (fits_toRat width_finite).mul_of_abs_le_one
          ((abs_of_nonneg nonneg).trans_le le_one)
  | triangular min mode max => exact isFinite_triangular_iff valid z
  | exponential rate =>
      have rate_finite := finite rate (by simp [numbers])
      rw [fromStandardNormal, isFinite_div_iff rate_finite (rate_ne_zero rate_finite inOrder)]
      exact Iff.rfl

end Distribution

end EconModel
