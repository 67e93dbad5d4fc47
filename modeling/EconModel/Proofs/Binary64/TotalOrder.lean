import EconModel.Proofs.Binary64.Distance

/-!
# The total order of patterns

The bits of a double that is not undefined tell its place among all doubles: those of its size grow
with its exponent and then with its mantissa, up to infinity.  Doubles are compared by their places.
The total order of patterns refines this comparison; it tells apart only the two zeros.
-/

namespace EconModel

namespace Binary64

open Float.Model Float.Model.UnpackedFloat

/-! ## Places -/

/-- What a double that is not undefined unpacks to. -/
inductive Number : UnpackedFloat → Prop
  | zero (sign : Sign) : Number (.zero sign)
  | canonical (sign : Sign) {mantissa : ℕ} {exponent : ℤ} (positive : 0 < mantissa)
      (canonical : Canonical mantissa exponent) (high : exponent ≤ 971) :
      Number (.finite sign mantissa exponent positive)
  | infinity (sign : Sign) : Number (.infinity sign)

/-- The place of a canonical size among the sizes of all doubles. -/
def sizePlace (mantissa : ℕ) (exponent : ℤ) : ℤ := (exponent + 1074) * 2 ^ 52 + mantissa

/-- The place of a size with a sign. -/
def signedPlace (sign : Sign) (size : ℤ) : ℤ :=
  match sign with
  | .negative => -size
  | .positive => size

/-- The place of a float among all doubles; both zeros have the place zero. -/
def placeOf : UnpackedFloat → ℤ
  | .finite sign mantissa exponent _ => signedPlace sign (sizePlace mantissa exponent)
  | .infinity sign => signedPlace sign (2047 * 2 ^ 52)
  | .zero _ | .notANumber => 0

section Canonical

variable {m n : ℕ} {d e : ℤ}

theorem Canonical.sizePlace_pos (canonical : Canonical m d) (positive : 0 < m) :
    0 < sizePlace m d := by
  have low := canonical.low
  rw [sizePlace]
  omega

theorem Canonical.sizePlace_lt (canonical : Canonical m d) (high : d ≤ 971) :
    sizePlace m d < 2047 * 2 ^ 52 := by
  have short := canonical.short
  rw [sizePlace]
  omega

/-- Canonical floats lie between the infinite ones. -/
theorem Canonical.signedPlace_between (canonical : Canonical m d) (positive : 0 < m)
    (high : d ≤ 971) (sign : Sign) : -(2047 * 2 ^ 52) < signedPlace sign (sizePlace m d) ∧
      signedPlace sign (sizePlace m d) < 2047 * 2 ^ 52 := by
  have place_pos := canonical.sizePlace_pos positive
  have place_lt := canonical.sizePlace_lt high
  cases sign with
  | negative =>
      rw [signedPlace]
      omega
  | positive =>
      rw [signedPlace]
      omega

/-- Canonical sizes are compared by their places. -/
theorem Canonical.compare_sizePlace (left : Canonical m d) (right : Canonical n e) :
    (compare d e).then (compare m n) = compare (sizePlace m d) (sizePlace n e) := by
  have short := left.short
  have short' := right.short
  have low := left.low
  have low' := right.low
  rw [sizePlace, sizePlace]
  rcases lt_trichotomy d e with lower | rfl | higher
  · have full := right.full.resolve_right (by omega)
    rw [Int.compare_eq_lt.mpr lower, Int.compare_eq_lt.mpr (by omega)]
    rfl
  · rw [Int.compare_eq_eq.mpr rfl]
    rcases lt_trichotomy m n with less | rfl | greater
    · rw [Nat.compare_eq_lt.mpr less, Int.compare_eq_lt.mpr (by omega)]
      rfl
    · rw [Nat.compare_eq_eq.mpr rfl, Int.compare_eq_eq.mpr rfl]
      rfl
    · rw [Nat.compare_eq_gt.mpr greater, Int.compare_eq_gt.mpr (by omega)]
      rfl
  · have full := left.full.resolve_right (by omega)
    rw [Int.compare_eq_gt.mpr higher, Int.compare_eq_gt.mpr (by omega)]
    rfl

end Canonical

theorem swap_compare (a b : ℤ) : (compare a b).swap = compare (-a) (-b) := by
  rcases lt_trichotomy a b with less | rfl | greater
  · rw [Int.compare_eq_lt.mpr less, Int.compare_eq_gt.mpr (neg_lt_neg less)]
    rfl
  · rw [Int.compare_eq_eq.mpr rfl, Int.compare_eq_eq.mpr rfl]
    rfl
  · rw [Int.compare_eq_gt.mpr greater, Int.compare_eq_lt.mpr (neg_lt_neg greater)]
    rfl

/-- Floats that are not undefined are compared by their places. -/
theorem Number.compare_eq {left right : UnpackedFloat} (left_number : Number left)
    (right_number : Number right) :
    left.compare right = some (compare (placeOf left) (placeOf right)) := by
  have less {a b : ℤ} (a_lt : a < b) : some Ordering.lt = some (compare a b) :=
    congrArg some (Int.compare_eq_lt.mpr a_lt).symm
  have greater {a b : ℤ} (b_lt : b < a) : some Ordering.gt = some (compare a b) :=
    congrArg some (Int.compare_eq_gt.mpr b_lt).symm
  cases left_number with
  | zero sign =>
      cases right_number with
      | zero other => rfl
      | canonical other positive canonical high =>
          have place_pos := canonical.sizePlace_pos positive
          cases other with
          | negative => exact greater (neg_neg_of_pos place_pos)
          | positive => exact less place_pos
      | infinity other => cases other <;> rfl
  | canonical sign positive canonical high =>
      have place_pos := canonical.sizePlace_pos positive
      cases right_number with
      | zero other =>
          cases sign with
          | negative => exact less (neg_neg_of_pos place_pos)
          | positive => exact greater place_pos
      | canonical other other_pos other_canonical other_high =>
          have other_place_pos := other_canonical.sizePlace_pos other_pos
          cases sign with
          | negative =>
              cases other with
              | negative =>
                  refine congrArg some ?_
                  rw [canonical.compare_sizePlace other_canonical]
                  exact swap_compare _ _
              | positive => exact less ((neg_neg_of_pos place_pos).trans other_place_pos)
          | positive =>
              cases other with
              | negative => exact greater ((neg_neg_of_pos other_place_pos).trans place_pos)
              | positive => exact congrArg some (canonical.compare_sizePlace other_canonical)
      | infinity other =>
          have inside := canonical.signedPlace_between positive high sign
          cases other with
          | negative => cases sign <;> exact greater inside.1
          | positive => cases sign <;> exact less inside.2
  | infinity sign =>
      cases right_number with
      | zero other => cases sign <;> rfl
      | canonical other positive canonical high =>
          have inside := canonical.signedPlace_between positive high other
          cases sign with
          | negative => cases other <;> exact less inside.1
          | positive => cases other <;> exact greater inside.2
      | infinity other => cases sign <;> cases other <;> rfl

/-- Packing keeps a float that is not undefined. -/
theorem Number.unpack_pack {float : UnpackedFloat} (number : Number float) :
    (Float.Model.pack float).unpack = float := by
  cases number with
  | zero sign => exact unpack_zero sign
  | canonical sign positive canonical high =>
      exact Binary64.unpack_pack sign positive canonical high
  | infinity sign => cases sign <;> rfl

/-! ## Bits -/

section Bits

variable {bits : BitVec Format.binary64.numBits}

/-- The topmost bit is the sign, the others tell the place of the size. -/
theorem signedPlace_unpackSign {size : ℤ} (size_eq : size = (bits.toNat % 2 ^ 63 : ℕ)) :
    signedPlace (Sign.ofBitVec (unpackSign bits)) size =
      if bits.toNat < 2 ^ 63 then (bits.toNat : ℤ) else 2 ^ 63 - bits.toNat := by
  have bound : bits.toNat < 2 ^ 64 := bits.isLt
  rw [sign_unpackSign]
  by_cases positive : bits.toNat < 2 ^ 63
  · rw [if_neg (not_le.mpr positive), if_pos positive, signedPlace]
    omega
  · rw [if_pos (not_lt.mp positive), if_neg positive, signedPlace]
    omega

/-- What bits unpack to that are not those of an undefined double, and its place. -/
theorem number_unpack (number : (UnpackedFloat.unpack .binary64 bits).isNaN = false) :
    Number (UnpackedFloat.unpack .binary64 bits) ∧
      placeOf (UnpackedFloat.unpack .binary64 bits) =
        if bits.toNat < 2 ^ 63 then (bits.toNat : ℤ) else 2 ^ 63 - bits.toNat := by
  have field_eq := toNat_unpackExponent bits
  have fraction_eq := toNat_unpackMantissa bits
  have field_lt : (unpackExponent bits).toNat < 2 ^ 11 := (unpackExponent bits).isLt
  have fraction_lt : (unpackMantissa bits).toNat < 2 ^ 52 := (unpackMantissa bits).isLt
  have unpack_eq := congrArg (UnpackedFloat.unpack .binary64)
    (packComponents_unpackSign_unpackExponent_unpackMantissa bits)
  rw [← unpack_eq] at number ⊢
  by_cases top : (unpackExponent bits).toNat = 2047
  · rw [unpack_top _ top] at number ⊢
    by_cases empty : (unpackMantissa bits).toNat = 0
    · rw [if_pos empty]
      exact ⟨.infinity _, signedPlace_unpackSign (by omega)⟩
    · rw [if_neg empty] at number
      cases number
  by_cases bottom : (unpackExponent bits).toNat = 0
  · have zero_field : unpackExponent bits = 0 := BitVec.eq_of_toNat_eq bottom
    rw [zero_field]
    by_cases empty : (unpackMantissa bits).toNat = 0
    · rw [unpack_bottom _ empty]
      have place_eq : signedPlace (Sign.ofBitVec (unpackSign bits)) 0 = _ :=
        signedPlace_unpackSign (by omega)
      refine ⟨.zero _, place_eq ▸ ?_⟩
      cases Sign.ofBitVec (unpackSign bits) <;> rfl
    · rw [unpack_short _ empty]
      refine ⟨.canonical _ _ ⟨by omega, le_refl _, .inr rfl⟩ (by omega), ?_⟩
      exact signedPlace_unpackSign (by rw [sizePlace]; omega)
  · rw [unpack_full _ _ top bottom]
    refine ⟨.canonical _ _ ⟨by omega, by omega, .inl (by omega)⟩ (by omega), ?_⟩
    exact signedPlace_unpackSign (by rw [sizePlace]; omega)

end Bits

/-- A double that equals another one is not undefined. -/
theorem isNaN_of_beq {x y : Float} (same : (x == y) = true) :
    x.isNaN = false ∧ y.isNaN = false := by
  change x.toModel.unpack.beq y.toModel.unpack = true at same
  change x.toModel.unpack.isNaN = false ∧ y.toModel.unpack.isNaN = false
  generalize x.toModel.unpack = left at *
  generalize y.toModel.unpack = right at *
  cases right with
  | notANumber =>
      cases left with
      | notANumber | zero => cases same
      | infinity sign | finite sign => cases sign <;> cases same
  | infinity | zero | finite =>
      cases left with
      | notANumber => cases same
      | infinity | zero | finite => exact ⟨rfl, rfl⟩

/-! ## Patterns -/

namespace Pattern

/-- The place of a pattern's double among all doubles. -/
def place (pattern : Pattern) : ℤ := placeOf pattern.value.toModel.unpack

section Places

variable {x y : Pattern} (x_number : x.value.isNaN = false)

include x_number

/-- The place of a pattern and its position in the total order, which has a place of its own for the
negative zero. -/
theorem number_value : Number x.value.toModel.unpack ∧
    x.place = if 0 ≤ x.orderKey then x.orderKey else x.orderKey + 1 := by
  have packed : x.value.toModel.unpack =
      (Float.Model.pack (UnpackedFloat.unpack .binary64 x.bits.toBitVec)).unpack := rfl
  have number : x.value.toModel.unpack.isNaN = false := x_number
  rw [packed, isNaN_pack] at number
  obtain ⟨unpacked, place_eq⟩ := number_unpack number
  rw [place, packed, unpacked.unpack_pack]
  refine ⟨unpacked, place_eq.trans ?_⟩
  change (if x.bits.toNat < 2 ^ 63 then (x.bits.toNat : ℤ) else 2 ^ 63 - x.bits.toNat) = _
  have key_eq : x.orderKey =
      if x.bits.toNat < 2 ^ 63 then (x.bits.toNat : ℤ) else 2 ^ 63 - 1 - x.bits.toNat := rfl
  rw [key_eq]
  split
  · rw [if_pos (by omega)]
  · rw [if_neg (by omega)]
    omega

variable (y_number : y.value.isNaN = false)

include y_number

theorem value_lt_iff : x.value < y.value ↔ x.place < y.place := by
  have compared := (number_value x_number).1.compare_eq (number_value y_number).1
  change decide (x.value.toModel.unpack.lt y.value.toModel.unpack = true) = true ↔ _
  rw [decide_eq_true_iff, UnpackedFloat.lt, compared, ← Int.compare_eq_lt]
  change (some (compare x.place y.place) == some .lt) = true ↔ _
  cases compare x.place y.place <;> decide

theorem value_beq_iff : (x.value == y.value) = true ↔ x.place = y.place := by
  have compared := (number_value x_number).1.compare_eq (number_value y_number).1
  change x.value.toModel.unpack.beq y.value.toModel.unpack = true ↔ _
  rw [UnpackedFloat.beq, compared, ← Int.compare_eq_eq]
  change (some (compare x.place y.place) == some .eq) = true ↔ _
  cases compare x.place y.place <;> decide

/-- The total order is one of places; only the zeros are apart in it and at one place. -/
theorem place_le_of_totalLE (ordered : x.totalLE y = true) : x.place ≤ y.place := by
  have ordered : x.orderKey ≤ y.orderKey := of_decide_eq_true ordered
  rw [(number_value x_number).2, (number_value y_number).2]
  split <;> split <;> omega

end Places

/-- Numbers are equal where neither is less. -/
theorem value_beq_iff_not_lt {x y : Pattern} (x_number : x.value.isNaN = false)
    (y_number : y.value.isNaN = false) :
    (x.value == y.value) = true ↔ ¬x.value < y.value ∧ ¬y.value < x.value := by
  rw [value_beq_iff x_number y_number, value_lt_iff x_number y_number,
    value_lt_iff y_number x_number, not_lt, not_lt, and_comm]
  exact le_antisymm_iff

/-- Doubles that equal each other are at one place. -/
theorem place_eq_of_beq {x y : Pattern} (same : (x.value == y.value) = true) :
    x.place = y.place := by
  obtain ⟨x_number, y_number⟩ := isNaN_of_beq same
  exact (value_beq_iff x_number y_number).mp same

theorem totalLE_trans (x y z : Pattern) (first : x.totalLE y = true)
    (second : y.totalLE z = true) : x.totalLE z = true :=
  decide_eq_true ((of_decide_eq_true first).trans (of_decide_eq_true second))

theorem totalLE_total (x y : Pattern) : (x.totalLE y || y.totalLE x) = true := by
  rw [Bool.or_eq_true, totalLE, totalLE, decide_eq_true_iff, decide_eq_true_iff]
  exact le_total _ _

/-- No two patterns share a position in the total order. -/
theorem eq_of_totalLE {x y : Pattern} (first : x.totalLE y = true) (second : y.totalLE x = true) :
    x = y := by
  have keys : x.orderKey = y.orderKey :=
    le_antisymm (of_decide_eq_true first) (of_decide_eq_true second)
  have x_bound := x.bits.toNat_lt
  have y_bound := y.bits.toNat_lt
  have key_eq (z : Pattern) : z.orderKey =
      if z.bits.toNat < 2 ^ 63 then (z.bits.toNat : ℤ) else 2 ^ 63 - 1 - z.bits.toNat := rfl
  have same : x.bits.toNat = y.bits.toNat := by
    rw [key_eq, key_eq] at keys
    split at keys <;> split at keys <;> omega
  rw [Pattern.mk.injEq]
  exact UInt64.toNat_inj.mp same

/-- A double is kept in its bits. -/
theorem value_ofFloat (x : Float) : (ofFloat x).value = x :=
  congrArg Float.ofModel (pack_unpack_model x.toModel)

end Pattern

/-! ## Sorted doubles -/

theorem isNaN_of_isFinite {x : Float} (finite : x.isFinite = true) : x.isNaN = false := by
  have unpacked := finite_unpack finite
  change x.toModel.unpack.isNaN = false
  generalize x.toModel.unpack = float at unpacked ⊢
  cases unpacked <;> rfl

/-- Among finite doubles the total order is one of numbers. -/
theorem toRat_le_of_totalLE {x y : Float} (x_finite : x.isFinite = true)
    (y_finite : y.isFinite = true)
    (ordered : (Pattern.ofFloat x).totalLE (Pattern.ofFloat y) = true) : toRat x ≤ toRat y := by
  have number {z : Float} (finite : z.isFinite = true) :
      (Pattern.ofFloat z).value.isNaN = false := by
    rw [Pattern.value_ofFloat]
    exact isNaN_of_isFinite finite
  have places := Pattern.place_le_of_totalLE (number x_finite) (number y_finite) ordered
  rwa [← not_lt, ← Pattern.value_lt_iff (number y_finite) (number x_finite),
    Pattern.value_ofFloat, Pattern.value_ofFloat, toRat_lt_iff y_finite x_finite, not_lt] at places

theorem sort_perm (sample : List Float) : (sort sample).Perm sample := List.mergeSort_perm _ _

theorem pairwise_sort (sample : List Float) : (sort sample).Pairwise fun x y =>
    (Pattern.ofFloat x).totalLE (Pattern.ofFloat y) = true := by
  apply List.pairwise_mergeSort
  · exact fun _ _ _ => Pattern.totalLE_trans _ _ _
  · exact fun _ _ => Pattern.totalLE_total _ _

/-- Doubles have one sorted list, bit for bit, whatever order they come in. -/
theorem sort_congr {left right : List Float} (same : left.Perm right) : sort left = sort right := by
  have sorted_perm : (sort left).Perm (sort right) :=
    (sort_perm left).trans (same.trans (sort_perm right).symm)
  refine sorted_perm.eq_of_pairwise (fun x y _ _ first second => ?_) (pairwise_sort left)
    (pairwise_sort right)
  have patterns := congrArg Pattern.value (Pattern.eq_of_totalLE first second)
  rwa [Pattern.value_ofFloat, Pattern.value_ofFloat] at patterns

end Binary64

end EconModel
