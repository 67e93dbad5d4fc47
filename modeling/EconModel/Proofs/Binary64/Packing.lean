import EconModel.Proofs.Binary64.Rounding

/-!
# The bits of doubles

A finite double is a canonical mantissa and exponent, and its 64 bits hold exactly these.  So a
double is determined by what it unpacks to, `decompose?` reads this off the bits, and a number that
is a finite double is rounded to itself.
-/

namespace EconModel

namespace Binary64

open Float.Model Float.Model.UnpackedFloat

/-! ## Canonical mantissas -/

/-- The mantissa and the exponent of a finite double: the mantissa has all its bits, unless the
exponent is the least one. -/
structure Canonical (mantissa : ℕ) (exponent : ℤ) : Prop where
  short : mantissa < 2 ^ 53
  low : -1074 ≤ exponent
  full : 2 ^ 52 ≤ mantissa ∨ exponent = -1074

namespace Canonical

variable {mantissa : ℕ} {exponent : ℤ}

theorem log2_lt (canonical : Canonical mantissa exponent) : mantissa.log2 < 53 := by
  by_cases zero : mantissa = 0
  · rw [zero, Nat.log2_zero]
    decide
  · exact (Nat.log2_lt zero).mpr canonical.short

theorem log2_eq (canonical : Canonical mantissa exponent) (full : 2 ^ 52 ≤ mantissa) :
    mantissa.log2 = 52 :=
  (Nat.log2_eq_iff (by omega)).mpr ⟨full, canonical.short⟩

/-- The exponent is the one at which the number is cut off. -/
theorem exponentOf_eq (canonical : Canonical mantissa exponent) (positive : 0 < mantissa) :
    exponentOf (mantissa * 2 ^ exponent) = exponent := by
  have low := canonical.low
  have short := canonical.log2_lt
  rw [exponentOf_mul_two_zpow positive]
  rcases canonical.full with full | least
  · rw [canonical.log2_eq full]
    omega
  · omega

/-- A canonical mantissa needs no rounding. -/
theorem ofRat_eq (canonical : Canonical mantissa exponent) (positive : 0 < mantissa) (sign : Sign) :
    ofRat sign (mantissa * 2 ^ exponent) = .finite sign mantissa exponent positive := by
  have target : Format.binary64.targetExponent (totalExponent mantissa exponent) = exponent := by
    have same := canonical.exponentOf_eq positive
    rw [exponentOf_mul_two_zpow positive] at same
    rw [totalExponent, targetExponent_eq]
    omega
  have shifted : shiftToTargetExponent .binary64 mantissa exponent .exact =
      (⟨mantissa, false, false⟩, exponent) := by
    rw [shiftToTargetExponent, target, shiftToExponent, sub_self, Int.toNat_zero, Nat.cast_zero,
      add_zero]
    rfl
  have kept : (⟨mantissa, false, false⟩ : ExtendedMantissa).roundedMantissa = mantissa := rfl
  rw [ofRat, canonical.exponentOf_eq positive, mantissaAt_exact, kept, settle]
  simp only [shifted]
  exact dif_neg positive.ne'

end Canonical

/-! ## The fields of a bit pattern -/

variable (bits : BitVec Format.binary64.numBits)

theorem toNat_unpackMantissa : (unpackMantissa bits).toNat = bits.toNat % 2 ^ 52 := by
  simp [unpackMantissa]

theorem toNat_unpackExponent : (unpackExponent bits).toNat = bits.toNat / 2 ^ 52 % 2 ^ 11 := by
  simp [unpackExponent, Nat.shiftRight_eq_div_pow]

theorem toNat_unpackSign : (unpackSign bits).toNat = bits.toNat / 2 ^ 63 := by
  have bound : bits.toNat < 2 ^ 64 := bits.isLt
  simp only [unpackSign, BitVec.toNat_cast, BitVec.extractLsb_toNat, Nat.shiftRight_eq_div_pow]
  norm_num
  omega

/-! ## Packing and unpacking -/

theorem toNat_implicit (mantissa : BitVec 52) :
    (1#1 ++ mantissa).toNat = 2 ^ 52 + mantissa.toNat := by
  rw [BitVec.toNat_append, ← Nat.shiftLeft_add_eq_or_of_lt mantissa.isLt]
  rfl

/-- What a bit pattern with some mantissa and a middle exponent unpacks to. -/
theorem unpack_full (sign : Sign) {field : BitVec 11} (fraction : BitVec 52)
    (notTop : field.toNat ≠ 2047) (notBottom : field.toNat ≠ 0) :
    UnpackedFloat.unpack .binary64 (packComponents .binary64 sign field fraction) =
      .finite sign (2 ^ 52 + fraction.toNat) (field.toNat - 1075)
        (Nat.add_pos_left (by decide) _) := by
  have notTop : field ≠ -1#11 := fun top => notTop (congrArg BitVec.toNat top)
  have notBottom : field ≠ 0#11 := fun bottom => notBottom (congrArg BitVec.toNat bottom)
  rw [UnpackedFloat.unpack]
  simp only [unpackExponent_packComponents, unpackMantissa_packComponents,
    unpackSign_packComponents, Sign.ofBitVec_toBitVec, if_neg notTop, if_neg notBottom, toNat_implicit]
  rfl

theorem unpack_short (sign : Sign) {fraction : BitVec 52} (nonempty : fraction.toNat ≠ 0) :
    UnpackedFloat.unpack .binary64 (packComponents .binary64 sign 0 fraction) =
      .finite sign fraction.toNat (-1074) (Nat.pos_of_ne_zero nonempty) := by
  have nonempty : fraction ≠ 0#52 := fun empty => nonempty (congrArg BitVec.toNat empty)
  rw [UnpackedFloat.unpack]
  simp only [unpackExponent_packComponents, unpackMantissa_packComponents,
    unpackSign_packComponents, Sign.ofBitVec_toBitVec, dif_neg nonempty]
  rfl

section Finite

variable (sign : Sign) {mantissa : ℕ} {exponent : ℤ} (positive : 0 < mantissa)

theorem pack_full (canonical : Canonical mantissa exponent) (full : 2 ^ 52 ≤ mantissa)
    (high : exponent ≤ 971) :
    UnpackedFloat.pack .binary64 (.finite sign mantissa exponent positive) =
      packComponents .binary64 sign (BitVec.ofNat 11 (exponent + 1075).toNat)
        (BitVec.ofNat 52 mantissa) := by
  have low := canonical.low
  have biased : (exponent + Format.binary64.exponentBias + (52 : ℕ)).toNat =
      (exponent + 1075).toNat := by
    change (exponent + 1023 + 52).toNat = _
    omega
  have fits : ¬ 2 ^ 11 ≤ (exponent + 1075).toNat + 1 := by omega
  have long : mantissa.log2 + 1 = Format.binary64.mantissaBits := by
    rw [canonical.log2_eq full]
    rfl
  rw [UnpackedFloat.pack]
  dsimp only
  rw [biased, if_neg fits, if_pos long]

theorem pack_short (short : mantissa < 2 ^ 52) :
    UnpackedFloat.pack .binary64 (.finite sign mantissa (-1074) positive) =
      packComponents .binary64 sign 0 (BitVec.ofNat 52 mantissa) := by
  have bits_lt := (Nat.log2_lt positive.ne').mpr short
  have notLong : mantissa.log2 + 1 ≠ Format.binary64.mantissaBits := by
    change mantissa.log2 + 1 ≠ 53
    omega
  rw [UnpackedFloat.pack]
  dsimp only
  rw [if_neg (by decide), if_neg notLong]
  rfl

/-- A canonical finite double keeps its mantissa and exponent in its bits. -/
theorem unpack_pack (canonical : Canonical mantissa exponent) (high : exponent ≤ 971) :
    (Float.Model.pack (.finite sign mantissa exponent positive)).unpack =
      .finite sign mantissa exponent positive := by
  change UnpackedFloat.unpack .binary64 (UnpackedFloat.pack .binary64 _) = _
  have low := canonical.low
  have short := canonical.short
  by_cases full : 2 ^ 52 ≤ mantissa
  · have field : (BitVec.ofNat 11 (exponent + 1075).toNat).toNat = (exponent + 1075).toNat := by
      rw [BitVec.toNat_ofNat, Nat.mod_eq_of_lt (by omega)]
    have fraction : 2 ^ 52 + (BitVec.ofNat 52 mantissa).toNat = mantissa := by
      rw [BitVec.toNat_ofNat]
      omega
    rw [pack_full sign positive canonical full high,
      unpack_full sign (BitVec.ofNat 52 mantissa) (by omega) (by omega),
      UnpackedFloat.finite.injEq]
    exact ⟨rfl, fraction, by omega⟩
  · have least : exponent = -1074 := canonical.full.resolve_left full
    have fraction : (BitVec.ofNat 52 mantissa).toNat = mantissa := by
      rw [BitVec.toNat_ofNat, Nat.mod_eq_of_lt (by omega)]
    subst least
    rw [pack_short sign positive (by omega), unpack_short sign (by omega),
      UnpackedFloat.finite.injEq]
    exact ⟨rfl, fraction, rfl⟩

end Finite

theorem unpack_zero (sign : Sign) : (Float.Model.pack (.zero sign)).unpack = .zero sign := by
  cases sign <;> rfl

theorem unpack_top (sign : Sign) {field : BitVec 11} (top : field.toNat = 2047)
    (fraction : BitVec 52) :
    UnpackedFloat.unpack .binary64 (packComponents .binary64 sign field fraction) =
      if fraction.toNat = 0 then .infinity sign else .notANumber := by
  have top : field = -1#11 := BitVec.eq_of_toNat_eq top
  have empty_iff : fraction = 0#52 ↔ fraction.toNat = 0 :=
    ⟨congrArg BitVec.toNat, fun empty => BitVec.eq_of_toNat_eq empty⟩
  rw [UnpackedFloat.unpack]
  simp only [unpackExponent_packComponents, unpackMantissa_packComponents,
    unpackSign_packComponents, Sign.ofBitVec_toBitVec, if_pos top, empty_iff]

theorem unpack_bottom (sign : Sign) {fraction : BitVec 52} (empty : fraction.toNat = 0) :
    UnpackedFloat.unpack .binary64 (packComponents .binary64 sign 0 fraction) = .zero sign := by
  have empty : fraction = 0#52 := BitVec.eq_of_toNat_eq empty
  subst empty
  cases sign <;> rfl

/-- A double is determined by what it unpacks to. -/
theorem pack_unpack_model (x : Float.Model) : Float.Model.pack x.unpack = x := by
  obtain ⟨bits, valid⟩ := x
  rw [Float.Model.pack, Float.Model.mk.injEq]
  exact congrArg UInt64.ofBitVec (pack_unpack_of_valid valid)

/-! ## Exact values -/

end Binary64

namespace ExactBinary

open Binary64 Float.Model Float.Model.UnpackedFloat

def sign (value : ExactBinary) : Sign := if value.negative then .negative else .positive

/-- The float of an exact value that is canonical. -/
def unpacked (value : ExactBinary) : UnpackedFloat :=
  if positive : 0 < value.magnitude then
    .finite value.sign value.magnitude value.exponent positive
  else .zero value.sign

/-- An exact value is that of a finite double. -/
structure IsDouble (value : ExactBinary) : Prop extends
    Canonical value.magnitude value.exponent where
  high : value.exponent ≤ 971

end ExactBinary

namespace Binary64

open Float.Model Float.Model.UnpackedFloat

theorem sign_unpackSign (bits : BitVec Format.binary64.numBits) :
    Sign.ofBitVec (unpackSign bits) = if 2 ^ 63 ≤ bits.toNat then .negative else .positive := by
  have bound : bits.toNat < 2 ^ 64 := bits.isLt
  have field := toNat_unpackSign bits
  rw [Sign.ofBitVec]
  split
  · next unset =>
    rw [unset, BitVec.toNat_zero] at field
    rw [if_neg (by omega)]
  · next set =>
    have nonzero : (unpackSign bits).toNat ≠ 0 := fun zero => set (BitVec.eq_of_toNat_eq zero)
    rw [if_pos (by omega)]

/-- The exact value of a double, from the fields of its bits. -/
theorem decompose?_eq (x : Float) : ∃ bits : BitVec Format.binary64.numBits,
    x.toModel.unpack = UnpackedFloat.unpack .binary64 bits ∧
      decompose? x =
        if (unpackExponent bits).toNat = 2047 then none
        else if (unpackExponent bits).toNat = 0 then
          some ⟨decide (2 ^ 63 ≤ bits.toNat), (unpackMantissa bits).toNat, -1074⟩
        else
          some ⟨decide (2 ^ 63 ≤ bits.toNat), 2 ^ 52 + (unpackMantissa bits).toNat,
            (unpackExponent bits).toNat - 1075⟩ := by
  refine ⟨x.toModel.toBits.toBitVec, rfl, ?_⟩
  rw [toNat_unpackExponent, toNat_unpackMantissa, Nat.add_comm]
  rfl

/-- A double with an exact value unpacks to it. -/
theorem unpack_of_decompose? {x : Float} {value : ExactBinary}
    (exact : decompose? x = some value) : x.toModel.unpack = value.unpacked ∧ value.IsDouble := by
  obtain ⟨bits, unpack_eq, decompose_eq⟩ := decompose?_eq x
  have same_sign (magnitude : ℕ) (exponent : ℤ) :
      ExactBinary.sign ⟨decide (2 ^ 63 ≤ bits.toNat), magnitude, exponent⟩ =
        Sign.ofBitVec (unpackSign bits) := by
    rw [sign_unpackSign, ExactBinary.sign]
    simp only [decide_eq_true_eq]
  have field_lt : (unpackExponent bits).toNat < 2 ^ 11 := (unpackExponent bits).isLt
  have fraction_lt : (unpackMantissa bits).toNat < 2 ^ 52 := (unpackMantissa bits).isLt
  rw [decompose_eq] at exact
  rw [unpack_eq, ← packComponents_unpackSign_unpackExponent_unpackMantissa bits]
  split at exact
  · cases exact
  · next notTop =>
    split at exact
    · next bottom =>
      cases exact
      have field_eq : unpackExponent bits = 0 := BitVec.eq_of_toNat_eq bottom
      refine ⟨?_, ⟨by dsimp only; omega, le_refl _, .inr rfl⟩, by dsimp only; omega⟩
      rw [field_eq, ExactBinary.unpacked, same_sign]
      split
      · next positive => rw [unpack_short _ positive.ne']
      · next empty => rw [unpack_bottom _ (Nat.eq_zero_of_not_pos empty)]
    · next notBottom =>
      cases exact
      refine ⟨?_, ⟨by dsimp only; omega, by dsimp only; omega, .inl (by dsimp only; omega)⟩,
        by dsimp only; omega⟩
      rw [unpack_full _ _ notTop notBottom, ExactBinary.unpacked, same_sign]
      exact (dif_pos (Nat.add_pos_left (by decide) _)).symm

theorem isFinite_iff {x : Float} : x.isFinite = true ↔ ∃ value, decompose? x = some value := by
  obtain ⟨bits, unpack_eq, decompose_eq⟩ := decompose?_eq x
  constructor
  · intro finite
    rw [decompose_eq]
    split
    · next top =>
      change x.toModel.unpack.isFinite = true at finite
      rw [unpack_eq, ← packComponents_unpackSign_unpackExponent_unpackMantissa bits, unpack_top _ top] at finite
      split at finite <;> cases finite
    · split <;> exact ⟨_, rfl⟩
  · rintro ⟨value, exact⟩
    change x.toModel.unpack.isFinite = true
    rw [(unpack_of_decompose? exact).1, ExactBinary.unpacked]
    split <;> rfl

end Binary64

end EconModel
