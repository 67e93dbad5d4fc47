import EconModel.Proofs.Binary64.Scientific

/-!
# Rounding and overflow

A finite double is a rational number.  What a number rounds to is a double of its sign, which passes
no power of two that the number does not pass, and it is finite exactly where the number lies below
the middle between the greatest double and the next power of two.
-/

namespace EconModel

namespace Binary64

open Float.Model Float.Model.UnpackedFloat

/-! ## Values -/

/-- A number with a sign. -/
def signed (sign : Sign) (size : ℚ) : ℚ :=
  match sign with
  | .negative => -size
  | .positive => size

theorem abs_signed (sign : Sign) (size : ℚ) : |signed sign size| = |size| := by
  cases sign with
  | negative => exact abs_neg size
  | positive => rfl

/-- The number that a float is, and zero for one that is infinite or undefined. -/
def valueOf : UnpackedFloat → ℚ
  | .finite sign mantissa exponent _ => signed sign (mantissa * 2 ^ exponent)
  | .zero _ | .infinity _ | .notANumber => 0

/-- The number that a finite double is. -/
def toRat (x : Float) : ℚ := valueOf x.toModel.unpack

/-- What a finite double unpacks to. -/
inductive Finite : UnpackedFloat → Prop
  | zero (sign : Sign) : Finite (.zero sign)
  | canonical (sign : Sign) {mantissa : ℕ} {exponent : ℤ} (positive : 0 < mantissa)
      (canonical : Canonical mantissa exponent) (high : exponent ≤ 971) :
      Finite (.finite sign mantissa exponent positive)

theorem finite_unpack {x : Float} (finite : x.isFinite = true) : Finite x.toModel.unpack := by
  obtain ⟨value, exact⟩ := isFinite_iff.mp finite
  obtain ⟨unpack_eq, isDouble⟩ := unpack_of_decompose? exact
  rw [unpack_eq, ExactBinary.unpacked]
  split
  · next positive => exact .canonical _ positive isDouble.toCanonical isDouble.high
  · exact .zero _

/-! ## Rounding -/

/-- The number that a positive number is rounded to, however great it is. -/
def rounded (size : ℚ) : ℚ :=
  (mantissaAt size (exponentOf size)).roundedMantissa * 2 ^ exponentOf size

theorem rounded_nonneg (size : ℚ) : 0 ≤ rounded size := by
  rw [rounded]
  positivity

section Bound

variable {size : ℚ} {bound : ℤ}

theorem exponentOf_le (positive : 0 < size) (small : size ≤ 2 ^ bound) (low : -1074 ≤ bound) :
    exponentOf size ≤ bound := by
  have log_le : Int.log 2 size ≤ bound := by
    rw [← Int.log_zpow (R := ℚ) one_lt_two bound]
    exact Int.log_mono_right positive (by exact_mod_cast small)
  rw [exponentOf_eq]
  omega

/-- A mantissa at an exponent is rounded to a whole bound at most. -/
theorem roundedMantissa_le_two_pow {exponent : ℤ} {places : ℕ} (nonneg : 0 ≤ size)
    (small : size ≤ 2 ^ (exponent + places)) :
    (mantissaAt size exponent).roundedMantissa ≤ 2 ^ places := by
  have scaled_le : size / 2 ^ exponent ≤ (2 ^ places : ℕ) := by
    rw [div_le_iff₀ (by positivity), mul_comm]
    rw [zpow_add₀ two_ne_zero, zpow_natCast] at small
    exact_mod_cast small
  rcases scaled_le.eq_or_lt with exact | below
  · have size_eq : size = (2 ^ places : ℕ) * 2 ^ exponent := by
      rw [← exact, div_mul_cancel₀ _ (by positivity)]
    rw [size_eq, mantissaAt_exact]
    exact le_refl _
  · have floor_lt : (mantissaAt size exponent).mantissa < 2 ^ places :=
      (Nat.floor_lt (by positivity)).mpr below
    have rounded_le := roundedMantissa_le (mantissaAt size exponent)
    omega

/-- Rounding does not pass a power of two. -/
theorem rounded_le_two_zpow (positive : 0 < size) (small : size ≤ 2 ^ bound)
    (low : -1074 ≤ bound) : rounded size ≤ 2 ^ bound := by
  have exponent_le := exponentOf_le positive small low
  obtain ⟨places, bound_eq⟩ := Int.le.dest exponent_le
  rw [← bound_eq] at small ⊢
  have mantissa_le := roundedMantissa_le_two_pow positive.le small
  rw [rounded, zpow_add₀ two_ne_zero, zpow_natCast, mul_comm]
  gcongr
  exact_mod_cast mantissa_le

end Bound

/-- A mantissa of at most 53 bits is kept, the power of two behind them included. -/
theorem settle_eq (sign : Sign) {mantissa : ℕ} {exponent : ℤ} (positive : 0 < mantissa)
    (short : mantissa ≤ 2 ^ 53) (low : -1074 ≤ exponent)
    (full : 2 ^ 52 ≤ mantissa ∨ exponent = -1074) :
    ∃ settled final, ∃ settled_pos : 0 < settled,
      settle sign mantissa exponent = .finite sign settled final settled_pos ∧
        Canonical settled final ∧ (settled : ℚ) * 2 ^ final = mantissa * 2 ^ exponent := by
  have shifted := shiftToTargetExponent_exact mantissa low
  rcases short.lt_or_eq with short | rfl
  · have bits := (Nat.log2_lt positive.ne').mpr short
    rw [max_eq_left (by omega), mantissaAt_exact] at shifted
    refine ⟨mantissa, exponent, positive, ?_, ⟨short, low, full⟩, rfl⟩
    rw [settle]
    simp only [shifted]
    exact dif_neg positive.ne'
  · have halved : ((2 ^ 53 : ℕ) : ℚ) * 2 ^ exponent = (2 ^ 52 : ℕ) * 2 ^ (exponent + 1) := by
      rw [zpow_add_one₀ two_ne_zero]
      push_cast
      ring
    rw [Nat.log2_two_pow, max_eq_right (by omega),
      show ((53 : ℕ) : ℤ) + exponent - 52 = exponent + 1 by omega, halved, mantissaAt_exact]
      at shifted
    refine ⟨2 ^ 52, exponent + 1, by positivity, ?_, ⟨by decide, by omega, .inl (le_refl _)⟩,
      halved.symm⟩
    rw [settle]
    simp only [shifted]
    exact dif_neg (by decide)

/-- The float that a positive number rounds to is a zero or canonical, though its exponent may be
too high for a double. -/
theorem ofRat_eq (sign : Sign) {size : ℚ} (positive : 0 < size) :
    (ofRat sign size = .zero sign ∧ rounded size = 0) ∨
      ∃ mantissa exponent, ∃ mantissa_pos : 0 < mantissa,
        ofRat sign size = .finite sign mantissa exponent mantissa_pos ∧
          Canonical mantissa exponent ∧ (mantissa : ℚ) * 2 ^ exponent = rounded size := by
  have exponent_eq := exponentOf_eq size
  have rounded_ge := le_roundedMantissa (mantissaAt size (exponentOf size))
  have short : (mantissaAt size (exponentOf size)).roundedMantissa ≤ 2 ^ 53 := by
    refine roundedMantissa_le_two_pow positive.le (le_of_lt ?_)
    have below := Int.lt_zpow_succ_log_self (R := ℚ) one_lt_two size
    refine below.trans_le ?_
    exact_mod_cast zpow_le_zpow_right₀ (one_le_two (α := ℚ)) (by omega)
  rcases Nat.eq_zero_or_pos (mantissaAt size (exponentOf size)).roundedMantissa with zero | pos
  · refine .inl ⟨?_, ?_⟩
    · rw [ofRat, zero, settle]
      simp only [shiftToTargetExponent_exact 0 (show -1074 ≤ exponentOf size by omega)]
      refine dif_pos ?_
      rw [Nat.cast_zero, zero_mul]
      simp [mantissaAt]
    · rw [rounded, zero, Nat.cast_zero, zero_mul]
  · refine .inr (settle_eq sign pos short (by omega) ?_)
    by_cases least : exponentOf size = -1074
    · exact .inr least
    · left
      refine le_trans ?_ rounded_ge
      have nonzero : (mantissaAt size (exponentOf size)).mantissa ≠ 0 := fun zero => by
        have below := log_lt_of_mantissa_eq_zero positive zero
        omega
      have log_eq := log_eq_of_mantissa positive _ nonzero
      exact (Nat.le_log2 nonzero).mp (by omega)

/-! ## Overflow -/

/-- The middle between the greatest double and the next power of two. -/
def overflow : ℚ := 2 ^ 1024 - 2 ^ 970

/-- A number is rounded to a finite double. -/
def Fits (value : ℚ) : Prop := |value| < overflow

theorem Fits.of_abs_le {value other : ℚ} (fits : Fits value) (small : |other| ≤ |value|) :
    Fits other := small.trans_lt fits

/-- A factor of at most one does not lead to an overflow. -/
theorem Fits.mul_of_abs_le_one {value factor : ℚ} (fits : Fits value) (small : |factor| ≤ 1) :
    Fits (factor * value) := by
  refine fits.of_abs_le ?_
  rw [abs_mul]
  exact mul_le_of_le_one_left (abs_nonneg value) small

/-- A mantissa is rounded up to a power of two from the middle below it on. -/
theorem roundedMantissa_lt_two_pow_iff {size : ℚ} {exponent : ℤ} {places : ℕ} (nonneg : 0 ≤ size)
    (small : size < 2 ^ (exponent + (places + 1 : ℕ))) :
    (mantissaAt size exponent).roundedMantissa < 2 ^ (places + 1) ↔
      size / 2 ^ exponent < 2 ^ (places + 1) - 1 / 2 := by
  have scaled_nonneg : 0 ≤ size / 2 ^ exponent := by positivity
  have scaled_lt : size / 2 ^ exponent < (2 ^ (places + 1) : ℕ) := by
    rw [div_lt_iff₀ (by positivity), mul_comm]
    rw [zpow_add₀ two_ne_zero, zpow_natCast] at small
    exact_mod_cast small
  have below := Nat.floor_le scaled_nonneg
  have above := Nat.lt_floor_add_one (size / 2 ^ exponent)
  have floor_lt := (Nat.floor_lt scaled_nonneg).mpr scaled_lt
  have even : 2 ^ (places + 1) = 2 * 2 ^ places := Nat.pow_succ'
  have cut : mantissaAt size exponent = ⟨⌊size / 2 ^ exponent⌋₊, _, _⟩ := rfl
  rw [cut]
  generalize size / 2 ^ exponent = scaled at *
  generalize ⌊scaled⌋₊ = whole at *
  by_cases last : whole + 1 = 2 ^ (places + 1)
  · have last_eq : (2 : ℚ) ^ (places + 1) = whole + 1 := by exact_mod_cast last.symm
    rw [last_eq, show (whole : ℚ) + 1 - 1 / 2 = whole + 1 / 2 by ring, ← not_le, ← not_le,
      not_iff_not]
    by_cases half : (whole : ℚ) + 1 / 2 ≤ scaled
    · -- The mantissa is odd, so it is rounded up from the middle on.
      simp only [half, decide_true, iff_true]
      cases decide (scaled ≠ whole ∧ scaled ≠ whole + 1 / 2)
      · change 2 ^ (places + 1) ≤ whole + whole % 2
        omega
      · change 2 ^ (places + 1) ≤ whole + 1
        omega
    · simp only [half, decide_false, iff_false, not_le]
      cases decide (scaled ≠ whole ∧ scaled ≠ whole + 1 / 2)
      · change whole < 2 ^ (places + 1)
        omega
      · change whole < 2 ^ (places + 1)
        omega
  · have rounded_le := roundedMantissa_le ⟨whole, decide ((whole : ℚ) + 1 / 2 ≤ scaled),
      decide (scaled ≠ whole ∧ scaled ≠ whole + 1 / 2)⟩
    have whole_le : (whole : ℚ) + 2 ≤ 2 ^ (places + 1) := by
      exact_mod_cast (show whole + 2 ≤ 2 ^ (places + 1) by omega)
    refine iff_of_true (lt_of_le_of_lt rounded_le ?_) (by linarith)
    dsimp only
    omega

/-- Rounding keeps a number of at least one above the power of two below it. -/
theorem two_zpow_log_le_rounded {size : ℚ} (large : 1 ≤ size) :
    2 ^ Int.log 2 size ≤ rounded size := by
  have positive : 0 < size := one_pos.trans_le large
  have log_nonneg : 0 ≤ Int.log 2 size := by
    rw [← Int.zpow_le_iff_le_log (by decide) positive]
    exact_mod_cast large
  have exponent_eq := exponentOf_eq size
  obtain ⟨places, log_eq⟩ := Int.le.dest (show exponentOf size ≤ Int.log 2 size by omega)
  have below : (2 : ℚ) ^ Int.log 2 size ≤ size := by
    exact_mod_cast Int.zpow_log_le_self (R := ℚ) one_lt_two positive
  have mantissa_ge : 2 ^ places ≤ (mantissaAt size (exponentOf size)).mantissa := by
    refine Nat.le_floor ?_
    rw [le_div_iff₀ (by positivity), mul_comm]
    rw [← log_eq, zpow_add₀ two_ne_zero, zpow_natCast] at below
    exact_mod_cast below
  have rounded_ge := mantissa_ge.trans (le_roundedMantissa _)
  rw [rounded, ← log_eq, zpow_add₀ two_ne_zero, zpow_natCast, mul_comm]
  gcongr
  exact_mod_cast rounded_ge

/-- The powers of two around the greatest double, as multiples of half its last place. -/
theorem powers_at_top : (2 : ℚ) ^ 1024 = 2 ^ 54 * 2 ^ 970 ∧ (2 : ℚ) ^ 1023 = 2 ^ 53 * 2 ^ 970 ∧
    (2 : ℚ) ^ (971 : ℤ) = 2 * 2 ^ 970 := by
  refine ⟨pow_add 2 54 970, pow_add 2 53 970, ?_⟩
  rw [show (971 : ℤ) = (970 : ℕ) + 1 from rfl, zpow_add_one₀ two_ne_zero, zpow_natCast, mul_comm]

theorem overflow_between : (2 : ℚ) ^ 1023 ≤ overflow ∧ overflow < 2 ^ 1024 := by
  obtain ⟨top, below, -⟩ := powers_at_top
  have unit_pos : (0 : ℚ) < 2 ^ 970 := by positivity
  rw [overflow, top, below]
  generalize (2 : ℚ) ^ 970 = unit at unit_pos
  constructor <;> linarith

/-- Rounding goes beyond all doubles from the middle above them on. -/
theorem rounded_lt_iff {size : ℚ} (positive : 0 < size) :
    rounded size < 2 ^ 1024 ↔ size < overflow := by
  have exponent_eq := exponentOf_eq size
  rcases lt_or_ge size ((2 : ℚ) ^ 1023) with small | large
  · have rounded_le : rounded size ≤ 2 ^ (1023 : ℤ) :=
      rounded_le_two_zpow positive (by exact_mod_cast small.le) (by decide)
    refine iff_of_true (rounded_le.trans_lt ?_) (small.trans_le overflow_between.1)
    exact_mod_cast pow_lt_pow_right₀ (one_lt_two (α := ℚ)) (by decide : 1023 < 1024)
  · have log_ge : 1023 ≤ Int.log 2 size := by
      rw [← Int.zpow_le_iff_le_log (by decide) positive]
      exact_mod_cast large
    rcases lt_or_ge size ((2 : ℚ) ^ 1024) with below | great
    · have log_lt : Int.log 2 size < 1024 := by
        rw [← Int.lt_zpow_iff_log_lt (by decide) positive]
        exact_mod_cast below
      have exponent_top : exponentOf size = 971 := by omega
      have small : size < 2 ^ ((971 : ℤ) + (52 + 1 : ℕ)) := by
        rwa [show (971 : ℤ) + (52 + 1 : ℕ) = (1024 : ℕ) from rfl, zpow_natCast]
      have mantissa_iff := roundedMantissa_lt_two_pow_iff positive.le small
      obtain ⟨top, -, unit⟩ := powers_at_top
      have half_pos : (0 : ℚ) < 2 ^ 970 := by positivity
      rw [div_lt_iff₀ (by positivity)] at mantissa_iff
      rw [rounded, exponent_top, overflow]
      rw [unit] at mantissa_iff ⊢
      rw [top]
      generalize (2 : ℚ) ^ 970 = half at half_pos mantissa_iff
      rw [show (2 : ℚ) ^ 54 * half - half = (2 ^ (52 + 1) - 1 / 2) * (2 * half) by ring,
        ← mantissa_iff, show (2 : ℚ) ^ 54 * half = 2 ^ 53 * (2 * half) by ring,
        mul_lt_mul_iff_left₀ (by positivity)]
      exact_mod_cast Iff.rfl
    · have log_great : 1024 ≤ Int.log 2 size := by
        rw [← Int.zpow_le_iff_le_log (by decide) positive]
        exact_mod_cast great
      have one_le : (1 : ℚ) ≤ size := (one_le_pow₀ one_le_two).trans great
      refine iff_of_false (not_lt.mpr ?_) (not_lt.mpr (overflow_between.2.le.trans great))
      refine le_trans ?_ (two_zpow_log_le_rounded one_le)
      exact_mod_cast zpow_le_zpow_right₀ (one_le_two (α := ℚ)) log_great

/-- The number of a canonical float lies below all overflow exactly where its exponent is not too
high for a double. -/
theorem Canonical.lt_two_pow_iff {mantissa : ℕ} {exponent : ℤ}
    (canonical : Canonical mantissa exponent) :
    (mantissa : ℚ) * 2 ^ exponent < 2 ^ 1024 ↔ exponent ≤ 971 := by
  have split (places : ℕ) (rest : ℤ) (total : places + rest = 1024) :
      (2 : ℚ) ^ 1024 = 2 ^ places * 2 ^ rest := by
    rw [← zpow_natCast, ← zpow_natCast, ← zpow_add₀ two_ne_zero, total]
    rfl
  constructor
  · intro below
    by_contra high
    have full : (2 : ℚ) ^ 52 ≤ mantissa := by
      have low : exponent ≠ -1074 := by omega
      exact_mod_cast canonical.full.resolve_right low
    refine absurd below (not_lt.mpr ?_)
    have scale : (2 : ℚ) ^ (972 : ℤ) ≤ 2 ^ exponent :=
      zpow_le_zpow_right₀ one_le_two (Int.lt_iff_add_one_le.mp (not_le.mp high))
    rw [split 52 972 rfl]
    exact mul_le_mul full scale (zpow_pos two_pos _).le (Nat.cast_nonneg mantissa)
  · intro high
    have short : (mantissa : ℚ) < 2 ^ 53 := by exact_mod_cast canonical.short
    rw [split 53 971 rfl]
    calc
      (mantissa : ℚ) * 2 ^ exponent < 2 ^ 53 * 2 ^ exponent := by gcongr
      _ ≤ 2 ^ 53 * 2 ^ (971 : ℤ) := by
        gcongr
        exact one_le_two

theorem isFinite_pack_iff (sign : Sign) {mantissa : ℕ} (positive : 0 < mantissa) {exponent : ℤ} :
    (Float.Model.pack (.finite sign mantissa exponent positive)).unpack.isFinite = true ↔
      exponent ≤ 971 := by
  refine ⟨fun finite => ?_, isFinite_pack sign positive⟩
  by_contra high
  rw [pack_eq_infinity sign positive (by omega)] at finite
  cases sign <;> cases finite

/-- What a positive number rounds to is a finite double exactly below the overflow, and then it is
the rounded number. -/
theorem unpack_pack_ofRat (sign : Sign) {size : ℚ} (positive : 0 < size) :
    ((Float.Model.pack (ofRat sign size)).unpack.isFinite = true ↔ size < overflow) ∧
      (size < overflow →
        valueOf (Float.Model.pack (ofRat sign size)).unpack = signed sign (rounded size)) := by
  rw [← rounded_lt_iff positive]
  rcases ofRat_eq sign positive with ⟨zero_eq, value_eq⟩ | ⟨mantissa, exponent, mantissa_pos,
    finite_eq, canonical, value_eq⟩
  · rw [zero_eq, unpack_zero, value_eq]
    refine ⟨iff_of_true rfl (by positivity), fun _ => ?_⟩
    cases sign with
    | negative => exact neg_zero.symm
    | positive => rfl
  · rw [finite_eq, ← value_eq, isFinite_pack_iff, canonical.lt_two_pow_iff]
    refine ⟨Iff.rfl, fun high => ?_⟩
    rw [unpack_pack sign mantissa_pos canonical high]
    rfl

/-! ## What a number rounds to -/

/-- A double is what a number rounds to: a zero where the number is zero, else the float of its sign
and its size. -/
inductive Rounds (value : ℚ) (x : Float) : Prop
  | zero (sign : Sign) (value_eq : value = 0) (x_eq : x = .ofModel (.pack (.zero sign)))
  | signed (sign : Sign) {size : ℚ} (positive : 0 < size) (value_eq : value = signed sign size)
      (x_eq : x = .ofModel (.pack (ofRat sign size)))

theorem fits_zero : Fits 0 := by
  rw [Fits, abs_zero]
  exact lt_of_lt_of_le (by positivity) overflow_between.1

namespace Rounds

variable {value : ℚ} {x : Float}

/-- A number rounds to a finite double exactly where it does not overflow. -/
theorem isFinite_iff (rounds : Rounds value x) : x.isFinite = true ↔ Fits value := by
  cases rounds with
  | zero sign value_eq x_eq =>
      rw [value_eq, x_eq]
      refine iff_of_true ?_ fits_zero
      change (Float.Model.pack (.zero sign)).unpack.isFinite = true
      rw [unpack_zero]
      rfl
  | signed sign positive value_eq x_eq =>
      rw [value_eq, x_eq, Fits, abs_signed, abs_of_pos positive]
      exact (unpack_pack_ofRat sign positive).1

/-- Rounding keeps the sign. -/
theorem toRat_nonneg (rounds : Rounds value x) (fits : Fits value) (nonneg : 0 ≤ value) :
    0 ≤ toRat x := by
  cases rounds with
  | zero sign value_eq x_eq =>
      rw [x_eq, toRat]
      change 0 ≤ valueOf (Float.Model.pack (.zero sign)).unpack
      rw [unpack_zero]
      exact le_refl 0
  | @signed sign size positive value_eq x_eq =>
      rw [value_eq, Fits, abs_signed, abs_of_pos positive] at fits
      rw [x_eq]
      change 0 ≤ valueOf (Float.Model.pack (ofRat sign size)).unpack
      rw [(unpack_pack_ofRat sign positive).2 fits]
      cases sign with
      | negative =>
          rw [value_eq] at nonneg
          exact absurd nonneg (not_le.mpr (neg_neg_of_pos positive))
      | positive => exact rounded_nonneg size

/-- Rounding does not pass a power of two. -/
theorem abs_toRat_le (rounds : Rounds value x) (fits : Fits value) {bound : ℤ}
    (low : -1074 ≤ bound) (small : |value| ≤ 2 ^ bound) : |toRat x| ≤ 2 ^ bound := by
  cases rounds with
  | zero sign value_eq x_eq =>
      rw [x_eq, toRat]
      change |valueOf (Float.Model.pack (.zero sign)).unpack| ≤ _
      rw [unpack_zero, valueOf, abs_zero]
      positivity
  | @signed sign size positive value_eq x_eq =>
      rw [value_eq, abs_signed, abs_of_pos positive] at small
      rw [value_eq, Fits, abs_signed, abs_of_pos positive] at fits
      rw [x_eq]
      change |valueOf (Float.Model.pack (ofRat sign size)).unpack| ≤ _
      rw [(unpack_pack_ofRat sign positive).2 fits, abs_signed, abs_of_nonneg (rounded_nonneg size)]
      exact rounded_le_two_zpow positive small low

end Rounds

/-- A finite double is what its number rounds to. -/
theorem Finite.rounds {float : UnpackedFloat} (finite : Finite float) :
    Rounds (valueOf float) (.ofModel (.pack float)) := by
  cases finite with
  | zero sign => exact .zero sign rfl rfl
  | canonical sign positive canonical high =>
      refine .signed sign (by positivity) rfl ?_
      rw [canonical.ofRat_eq positive]

theorem fits_toRat {x : Float} (finite : x.isFinite = true) : Fits (toRat x) := by
  have rounds := (finite_unpack finite).rounds
  rw [pack_unpack_model] at rounds
  exact rounds.isFinite_iff.mp finite

end Binary64

end EconModel
