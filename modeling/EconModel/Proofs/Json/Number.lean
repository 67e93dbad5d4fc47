import EconModel.Json.Document
import EconModel.Json.Reader
import EconModel.Proofs.Decimal.Value

/-!
# Numbers in JSON texts

A number is written as a sign, digits, perhaps digits behind a point and perhaps a scale.  A
`Spelling` holds these parts.  The reader takes every well-formed spelling apart again, and every
number of a document has a spelling that denotes it.
-/

namespace EconModel

/-! ## Digits -/

namespace Decimal

theorem ofDigits_eq (digits : List Char) : ofDigits digits = Nat.ofDigitChars 10 digits 0 :=
  Nat.ofDigitChars_eq_foldl.symm

theorem ofDigits_toDigits (number : ℕ) : ofDigits (Nat.toDigits 10 number) = number := by
  rw [ofDigits_eq, Nat.ofDigitChars_ten_toDigits]

theorem ofDigits_append_zeros (digits : List Char) (count : ℕ) :
    ofDigits (digits ++ List.replicate count '0') = ofDigits digits * 10 ^ count := by
  rw [ofDigits_eq, ofDigits_eq, Nat.ofDigitChars_append, Nat.ofDigitChars_replicate_zero, mul_comm]

theorem ofDigits_zeros_append (count : ℕ) (digits : List Char) :
    ofDigits (List.replicate count '0' ++ digits) = ofDigits digits := by
  rw [ofDigits_eq, ofDigits_eq, Nat.ofDigitChars_append, Nat.ofDigitChars_replicate_zero, mul_zero]

theorem isDigit_of_mem_toDigits {number : ℕ} {c : Char} (member : c ∈ Nat.toDigits 10 number) :
    c.isDigit = true :=
  Nat.isDigit_of_mem_toDigits (by decide) (by decide) member

theorem isDigit_of_mem_zeros {count : ℕ} {c : Char} (member : c ∈ List.replicate count '0') :
    c.isDigit = true := by
  rw [List.eq_of_mem_replicate member]
  decide

/-- Only zero is written with a leading zero. -/
theorem head?_toDigits {number : ℕ} (positive : 0 < number) :
    (Nat.toDigits 10 number).head? ≠ some '0' := by
  induction number using Nat.strong_induction_on with
  | _ number ih =>
      rw [Nat.toDigits_eq_if (by decide)]
      split
      · next short =>
        interval_cases number <;> decide
      · next long =>
        rw [List.head?_append_of_ne_nil _ Nat.toDigits_ne_nil]
        exact ih (number / 10) (by omega) (by omega)

/-- A run of digits ends where the digits end. -/
theorem takeDigits_append {digits : List Char} (all_digits : ∀ c ∈ digits, c.isDigit = true)
    (rest : List Char) (delimited : ∀ c ∈ rest.head?, c.isDigit = false) :
    takeDigits (digits ++ rest) = (digits, rest) := by
  have taken : rest.takeWhile Char.isDigit = [] ∧ rest.dropWhile Char.isDigit = rest := by
    cases rest with
    | nil => exact ⟨rfl, rfl⟩
    | cons c rest =>
        have notDigit : c.isDigit = false := delimited c rfl
        rw [List.takeWhile_cons, List.dropWhile_cons, notDigit]
        exact ⟨rfl, rfl⟩
  rw [takeDigits, List.takeWhile_append_of_pos all_digits, List.dropWhile_append_of_pos all_digits,
    taken.1, taken.2, List.append_nil]

end Decimal

namespace Json

/-! ## Spellings -/

/-- The parts of a number as it is written. -/
structure Spelling where
  /-- Whether a minus sign stands in front. -/
  negative : Bool
  /-- The digits in front of the point. -/
  whole : List Char
  /-- The digits behind the point, if there is one. -/
  fraction : Option (List Char)
  /-- The sign and the digits of the scale, if there is one. -/
  scale : Option (Bool × List Char)

namespace Spelling

def fractionChars : Option (List Char) → List Char
  | none => []
  | some digits => '.' :: digits

def scaleChars : Option (Bool × List Char) → List Char
  | none => []
  | some (negative, digits) => 'e' :: (if negative then '-' else '+') :: digits

def chars (spelling : Spelling) : List Char :=
  (if spelling.negative then ['-'] else []) ++ spelling.whole ++
    fractionChars spelling.fraction ++ scaleChars spelling.scale

/-- The power of ten of a scale. -/
def power : Option (Bool × List Char) → Int
  | none => 0
  | some (negative, digits) =>
      if negative then -(Decimal.ofDigits digits : Int) else Decimal.ofDigits digits

/-- The number that a spelling denotes. -/
def numeral (spelling : Spelling) : Numeral where
  value :=
    { negative := spelling.negative
      digits := Decimal.ofDigits (spelling.whole ++ spelling.fraction.getD [])
      exponent := power spelling.scale - (spelling.fraction.getD []).length }
  whole := spelling.fraction.isNone && spelling.scale.isNone

/-- A nonempty run of digits. -/
def Digits (digits : List Char) : Prop := digits ≠ [] ∧ ∀ c ∈ digits, c.isDigit = true

theorem digits_zero : Digits ['0'] :=
  ⟨List.cons_ne_nil _ _, fun _ member => List.mem_singleton.mp member ▸ rfl⟩

/-- The spellings that JSON has: every run of digits is nonempty, and in front of the point zero
does not lead other digits. -/
structure WellFormed (spelling : Spelling) : Prop where
  whole : Digits spelling.whole
  leading : spelling.whole.head? = some '0' → spelling.whole = ['0']
  fraction : ∀ digits ∈ spelling.fraction, Digits digits
  scale : ∀ scale ∈ spelling.scale, Digits scale.2

/-- What may follow a number: nothing that could belong to it. -/
def Delimits (rest : List Char) : Prop :=
  ∀ c ∈ rest.head?, c.isDigit = false ∧ c ≠ '.' ∧ c ≠ 'e' ∧ c ≠ 'E'

/-- A digit is neither a point, nor a mark, nor a sign. -/
theorem ne_of_isDigit {c other : Char} (digit : c.isDigit = true)
    (notDigit : other.isDigit = false) : c ≠ other := by
  rintro rfl
  rw [digit] at notDigit
  cases notDigit

theorem scale?_chars {scale : Option (Bool × List Char)} {rest : List Char}
    (digits : ∀ part ∈ scale, Digits part.2) (delimits : Delimits rest) :
    scale? (scaleChars scale ++ rest) = some (scale.map fun part => power (some part), rest) := by
  cases scale with
  | none =>
      cases rest with
      | nil => rfl
      | cons c rest =>
          have noMark : ¬(c = 'e' ∨ c = 'E') := by
            obtain ⟨-, -, small, capital⟩ := delimits c rfl
            exact not_or.mpr ⟨small, capital⟩
          exact if_neg noMark
  | some part =>
      obtain ⟨negative, part⟩ := part
      obtain ⟨nonempty, all_digits⟩ := digits _ rfl
      have run := Decimal.takeDigits_append all_digits rest
        fun c found => (delimits c found).1
      have sign : Decimal.takeSign ((if negative then '-' else '+') :: (part ++ rest)) =
          (negative, part ++ rest) := by
        cases negative <;> rfl
      have some_digits : part.isEmpty = false := List.isEmpty_eq_false_iff.mpr nonempty
      simp only [scaleChars, List.cons_append, scale?, true_or, if_true, sign, run, some_digits,
        Bool.false_eq_true, if_false, Option.map_some, power]

theorem fractionDigits?_chars {fraction : Option (List Char)} {rest : List Char}
    (digits : ∀ part ∈ fraction, Digits part)
    (delimits : ∀ c ∈ rest.head?, c.isDigit = false ∧ c ≠ '.') :
    fractionDigits? (fractionChars fraction ++ rest) = some (fraction, rest) := by
  cases fraction with
  | none =>
      unfold fractionDigits?
      split
      · next after rest_eq =>
        exact absurd rfl (delimits '.' (by rw [← List.nil_append rest]; exact congrArg _ rest_eq)).2
      · rfl
  | some part =>
      obtain ⟨nonempty, all_digits⟩ := digits _ rfl
      have run := Decimal.takeDigits_append all_digits rest
        fun c found => (delimits c found).1
      have some_digits : part.isEmpty = false := List.isEmpty_eq_false_iff.mpr nonempty
      simp only [fractionChars, List.cons_append, fractionDigits?, run, some_digits,
        Bool.false_eq_true, if_false]

theorem wholeDigits?_append {whole rest : List Char} (digits : Digits whole)
    (leading : whole.head? = some '0' → whole = ['0'])
    (delimits : ∀ c ∈ rest.head?, c.isDigit = false) :
    wholeDigits? (whole ++ rest) = some (whole, rest) := by
  obtain ⟨nonempty, all_digits⟩ := digits
  have run := Decimal.takeDigits_append all_digits rest delimits
  obtain ⟨c, others, rfl⟩ := List.exists_cons_of_ne_nil nonempty
  by_cases zero : c = '0'
  · subst zero
    rw [leading rfl]
    rfl
  · have digit : c.isDigit = true := all_digits c List.mem_cons_self
    rw [List.cons_append] at run ⊢
    unfold wholeDigits?
    split
    · next same => exact absurd (List.cons.inj same).1 zero
    · next same =>
      obtain ⟨rfl, rfl⟩ := List.cons.inj same
      rw [if_pos digit, run]
    · next same => cases same

theorem head?_fractionChars (fraction : Option (List Char)) (rest : List Char) :
    ∀ c ∈ (fractionChars fraction ++ rest).head?, c = '.' ∨ c ∈ rest.head? := by
  cases fraction with
  | none => exact fun c found => .inr found
  | some digits => exact fun c found => .inl (Option.some.inj found).symm

theorem head?_scaleChars (scale : Option (Bool × List Char)) (rest : List Char) :
    ∀ c ∈ (scaleChars scale ++ rest).head?, c = 'e' ∨ c ∈ rest.head? := by
  cases scale with
  | none => exact fun c found => .inr found
  | some part => exact fun c found => .inl (Option.some.inj found).symm

/-- The reader takes a spelling apart. -/
theorem number?_chars {spelling : Spelling} (wellFormed : spelling.WellFormed) {rest : List Char}
    (delimits : Delimits rest) :
    number? (spelling.chars ++ rest) = some (spelling.numeral, rest) := by
  obtain ⟨negative, whole, fraction, scale⟩ := spelling
  have scale_delimits : ∀ c ∈ (scaleChars scale ++ rest).head?, c.isDigit = false ∧ c ≠ '.' := by
    intro c found
    rcases head?_scaleChars scale rest c found with rfl | found
    · decide
    · exact ⟨(delimits c found).1, (delimits c found).2.1⟩
  have fraction_delimits :
      ∀ c ∈ (fractionChars fraction ++ (scaleChars scale ++ rest)).head?, c.isDigit = false := by
    intro c found
    rcases head?_fractionChars fraction _ c found with rfl | found
    · decide
    · exact (scale_delimits c found).1
  have whole_read := wholeDigits?_append wellFormed.whole wellFormed.leading fraction_delimits
  have fraction_read := fractionDigits?_chars wellFormed.fraction scale_delimits
  have scale_read := scale?_chars wellFormed.scale delimits
  have chars_eq : chars ⟨negative, whole, fraction, scale⟩ ++ rest =
      (if negative then ['-'] else []) ++
        (whole ++ (fractionChars fraction ++ (scaleChars scale ++ rest))) := by
    simp only [chars, List.append_assoc]
  have power_eq : (scale.map fun part => power (some part)).getD 0 = power scale := by
    cases scale <;> rfl
  dsimp only at whole_read fraction_read scale_read
  cases negative with
  | true =>
      rw [chars_eq, if_pos rfl, List.singleton_append, number?]
      simp only [whole_read, fraction_read, scale_read, Option.bind_eq_bind, Option.bind_some,
        power_eq, Option.isNone_map]
      rfl
  | false =>
      have noSign : ∀ others, whole ++ (fractionChars fraction ++ (scaleChars scale ++ rest)) =
          '-' :: others → False := by
        obtain ⟨c, digits, rfl⟩ := List.exists_cons_of_ne_nil wellFormed.whole.1
        intro others same
        exact ne_of_isDigit (wellFormed.whole.2 c List.mem_cons_self) (by decide)
          (List.cons.inj same).1
      rw [chars_eq, if_neg Bool.false_ne_true, List.nil_append, number?]
      · simp only [whole_read, fraction_read, scale_read, Option.bind_eq_bind, Option.bind_some,
          power_eq, Option.isNone_map]
        rfl
      · exact noSign

/-! ## Spellings of decimal numerals -/

/-- How a decimal numeral is spelled in artifacts. -/
def ofDecimal (numeral : Decimal) : Spelling :=
  let digits := Nat.toDigits 10 numeral.digits
  let point : Int := digits.length + numeral.exponent
  if Decimal.Layout.artifact.positional (point - 1) then
    if 0 ≤ numeral.exponent then
      ⟨numeral.negative, digits ++ List.replicate numeral.exponent.toNat '0', some ['0'], none⟩
    else if 0 < point then
      ⟨numeral.negative, digits.take point.toNat, some (digits.drop point.toNat), none⟩
    else ⟨numeral.negative, ['0'], some (List.replicate (-point).toNat '0' ++ digits), none⟩
  else
    ⟨numeral.negative, digits.take 1, if digits.length ≤ 1 then none else some (digits.drop 1),
      some (decide (point - 1 < 0), Nat.toDigits 10 (point - 1).natAbs)⟩

theorem chars_ofDecimal (numeral : Decimal) :
    (ofDecimal numeral).chars = (Decimal.Layout.artifact.render numeral).toList := by
  have sign : (if numeral.negative then "-" else "").toList =
      if numeral.negative then ['-'] else [] := by
    cases numeral.negative <;> rfl
  rw [ofDecimal, Decimal.Layout.render]
  split
  · rw [Decimal.plain]
    split
    · simp [chars, fractionChars, scaleChars, sign, Decimal.zeros, Decimal.Layout.artifact]
    · generalize ((Nat.toDigits 10 numeral.digits).length : ℤ) + numeral.exponent = point
      dsimp only
      split
      · simp [chars, fractionChars, scaleChars, sign, Decimal.pointed]
      · simp [chars, fractionChars, scaleChars, sign, Decimal.zeros]
  · generalize (Nat.toDigits 10 numeral.digits).length + numeral.exponent - 1 = leading
    have mark : (if leading < 0 then "-" else "+").toList =
        [if decide (leading < 0) then '-' else '+'] := by
      by_cases negative : leading < 0
      · rw [if_pos negative, decide_eq_true negative, if_pos rfl]
        rfl
      · rw [if_neg negative, decide_eq_false negative, if_neg Bool.false_ne_true]
        rfl
    rw [Decimal.scientific]
    split
    · next short =>
      rw [List.take_of_length_le short]
      simp [chars, fractionChars, scaleChars, sign, mark]
    · simp [chars, fractionChars, scaleChars, sign, mark, Decimal.pointed]

theorem digits_toDigits (number : ℕ) : Digits (Nat.toDigits 10 number) :=
  ⟨Nat.toDigits_ne_nil, fun _ member => Decimal.isDigit_of_mem_toDigits member⟩

/-- A zero leads the digits of a numeral only where it is the whole numeral. -/
theorem digits_eq_zero_of_head? {numeral : Decimal} {digits : List Char}
    (head : digits.head? = (Nat.toDigits 10 numeral.digits).head?)
    (zero : digits.head? = some '0') : numeral.digits = 0 :=
  Nat.eq_zero_of_not_pos fun positive => Decimal.head?_toDigits positive (head.symm.trans zero)

theorem wellFormed_ofDecimal {numeral : Decimal}
    (zero : numeral.digits = 0 → numeral.exponent = 0) : (ofDecimal numeral).WellFormed := by
  obtain ⟨nonempty, all_digits⟩ := digits_toDigits numeral.digits
  rw [ofDecimal]
  split
  · split
    · next whole =>
      refine ⟨⟨List.append_ne_nil_of_left_ne_nil nonempty _, fun c member => ?_⟩, fun leading => ?_,
        fun digits found => ?_, fun scale found => nomatch found⟩
      · rcases List.mem_append.mp member with early | late
        · exact all_digits c early
        · exact Decimal.isDigit_of_mem_zeros late
      · have none := digits_eq_zero_of_head? (List.head?_append_of_ne_nil _ nonempty) leading
        rw [zero none, none]
        rfl
      · cases found
        exact digits_zero
    · next below =>
      split
      · next positive =>
        have some_whole : ((Nat.toDigits 10 numeral.digits).length +
          numeral.exponent : ℤ).toNat ≠ 0 := by omega
        refine ⟨⟨?_, fun c member => all_digits c (List.mem_of_mem_take member)⟩, fun leading => ?_,
          fun digits found => ?_, fun scale found => nomatch found⟩
        · exact fun empty => (List.take_eq_nil_iff.mp empty).elim some_whole nonempty
        · have none := digits_eq_zero_of_head? (List.head?_take.trans (if_neg some_whole)) leading
          exact absurd (zero none) (by omega)
        · cases found
          refine ⟨?_, fun c member => all_digits c (List.mem_of_mem_drop member)⟩
          exact fun empty => absurd (List.drop_eq_nil_iff.mp empty) (by omega)
      · refine ⟨digits_zero, fun _ => rfl, fun digits found => ?_, fun scale found => nomatch found⟩
        cases found
        refine ⟨List.append_ne_nil_of_right_ne_nil _ nonempty, fun c member => ?_⟩
        rcases List.mem_append.mp member with early | late
        · exact Decimal.isDigit_of_mem_zeros early
        · exact all_digits c late
  · obtain ⟨first, others, digits_eq⟩ := List.exists_cons_of_ne_nil nonempty
    refine ⟨⟨?_, fun c member => all_digits c (List.mem_of_mem_take member)⟩, fun leading => ?_,
      fun digits found => ?_, fun scale found => ?_⟩
    · simp [digits_eq]
    · rw [digits_eq] at leading ⊢
      cases leading
      rfl
    · split at found
      · cases found
      · next long =>
        cases found
        refine ⟨?_, fun c member => all_digits c (List.mem_of_mem_drop member)⟩
        exact fun empty => absurd (List.drop_eq_nil_iff.mp empty) long
    · cases found
      exact digits_toDigits _

theorem power_toDigits (exponent : ℤ) :
    power (some (decide (exponent < 0), Nat.toDigits 10 exponent.natAbs)) = exponent := by
  rw [power, Decimal.ofDigits_toDigits]
  by_cases negative : exponent < 0
  · rw [if_pos (decide_eq_true negative)]
    omega
  · rw [if_neg (by rwa [decide_eq_true_iff])]
    omega

/-- The spelling denotes the number of the numeral. -/
theorem magnitude_ofDecimal (numeral : Decimal) :
    (ofDecimal numeral).numeral.value.magnitude = numeral.magnitude := by
  have digits_eq := Decimal.ofDigits_toDigits numeral.digits
  have nonempty : 0 < (Nat.toDigits 10 numeral.digits).length := Nat.length_toDigits_pos
  rw [ofDecimal]
  generalize Nat.toDigits 10 numeral.digits = digits at *
  -- Only a whole numeral is scaled: the zero behind its point is one more digit.
  have same {spelling : Spelling}
      (digits_same : Decimal.ofDigits (spelling.whole ++ spelling.fraction.getD []) =
        numeral.digits)
      (exponent_same : power spelling.scale - (spelling.fraction.getD []).length =
        numeral.exponent) :
      spelling.numeral.value.magnitude = numeral.magnitude := by
    rw [Spelling.numeral, Decimal.magnitude, Decimal.magnitude, digits_same, exponent_same]
  split
  · split
    · next whole =>
      have scaled :
          Decimal.ofDigits (digits ++ List.replicate numeral.exponent.toNat '0' ++ ['0']) =
            numeral.digits * 10 ^ (numeral.exponent.toNat + 1) := by
        rw [List.append_assoc, ← List.replicate_succ', Decimal.ofDigits_append_zeros, digits_eq]
      have power_eq : (10 : ℚ) ^ (numeral.exponent.toNat + 1) * 10 ^ (0 - (1 : ℕ) : ℤ) =
          10 ^ numeral.exponent := by
        rw [← zpow_natCast, ← zpow_add₀ (by norm_num)]
        congr 1
        omega
      rw [Spelling.numeral, Decimal.magnitude, Decimal.magnitude]
      change (Decimal.ofDigits (digits ++ List.replicate numeral.exponent.toNat '0' ++ ['0']) : ℚ) *
        10 ^ (0 - (1 : ℕ) : ℤ) = _
      rw [scaled, Nat.cast_mul, Nat.cast_pow, mul_assoc]
      exact congrArg _ power_eq
    · next below =>
      split
      · next positive =>
        apply same
        · exact (congrArg _ (List.take_append_drop _ digits)).trans digits_eq
        · rw [Option.getD_some, List.length_drop, power]
          omega
      · next notPositive =>
        apply same
        · change Decimal.ofDigits ('0' :: (List.replicate _ '0' ++ digits)) = _
          rw [← List.cons_append, ← List.replicate_succ, Decimal.ofDigits_zeros_append, digits_eq]
        · rw [Option.getD_some, List.length_append, List.length_replicate, power]
          omega
  · apply same
    · split
      · next short =>
        rw [Option.getD_none, List.append_nil, List.take_of_length_le short, digits_eq]
      · rw [Option.getD_some, List.take_append_drop, digits_eq]
    · rw [power_toDigits]
      split
      · rw [Option.getD_none, List.length_nil]
        omega
      · rw [Option.getD_some, List.length_drop]
        omega

theorem negative_ofDecimal (numeral : Decimal) :
    (ofDecimal numeral).numeral.value.negative = numeral.negative := by
  rw [ofDecimal]
  split
  · split
    · rfl
    · split <;> rfl
  · rfl

/-- A decimal numeral is never spelled as a whole number. -/
theorem whole_ofDecimal (numeral : Decimal) : (ofDecimal numeral).numeral.whole = false := by
  rw [ofDecimal]
  split
  · split
    · rfl
    · split <;> rfl
  · rw [Spelling.numeral, Option.isNone_some, Bool.and_false]

/-- A run of digits without a point and without a scale. -/
theorem wellFormed_toDigits (negative : Bool) (number : ℕ) :
    WellFormed ⟨negative, Nat.toDigits 10 number, none, none⟩ := by
  refine ⟨digits_toDigits number, fun leading => ?_, fun _ found => (nomatch found),
    fun _ found => (nomatch found)⟩
  have zero : number = 0 :=
    Nat.eq_zero_of_not_pos fun positive => Decimal.head?_toDigits positive leading
  rw [zero]
  rfl

end Spelling

/-! ## Numbers of documents -/

namespace Number

open Binary64 (decompose?)

/-- How a number of a document is spelled.  A real number is finite, so it has an exact value. -/
def spelling : Number → Spelling
  | .natural value => ⟨false, Nat.toDigits 10 value.toNat, none, none⟩
  | .negative value _ => ⟨true, Nat.toDigits 10 value.toInt.natAbs, none, none⟩
  | .real value _ =>
      .ofDecimal <|
        match decompose? value with
        | some exact => Decimal.shortest Decimal.Layout.artifact.tie value exact
        | none => ⟨false, 0, 0⟩

/-- The number as it is written. -/
def numeral (number : Number) : Numeral := number.spelling.numeral

theorem numeral_natural (value : UInt64) :
    (natural value).numeral = ⟨⟨false, value.toNat, 0⟩, true⟩ := by
  simp [numeral, spelling, Spelling.numeral, Spelling.power, Decimal.ofDigits_toDigits]

theorem numeral_negative (value : Int64) (below : value < 0) :
    (negative value below).numeral = ⟨⟨true, value.toInt.natAbs, 0⟩, true⟩ := by
  simp [numeral, spelling, Spelling.numeral, Spelling.power, Decimal.ofDigits_toDigits]

/-- A real number is spelled by a numeral that reads back to it. -/
theorem spelling_real (value : Float) (finite : value.isFinite = true) :
    ∃ shortest : Decimal, shortest.toFloat = value ∧
      (shortest.digits = 0 → shortest.exponent = 0) ∧
      (real value finite).spelling = .ofDecimal shortest ∧
      (real value finite).text = Decimal.Layout.artifact.render shortest := by
  obtain ⟨exact, exact_eq⟩ := Binary64.isFinite_iff.mp finite
  refine ⟨_, Decimal.toFloat_shortest Decimal.Layout.artifact.tie exact_eq,
    Decimal.exponent_shortest_of_zero _ exact_eq, ?_, ?_⟩
  · rw [spelling, exact_eq]
  · rw [text, exact_eq]
    rfl

/-- A negative word is minus a positive number of at most 63 bits. -/
theorem toInt_eq_neg {value : Int64} (below : value < 0) :
    value.toInt = -(value.toInt.natAbs : ℤ) ∧ 0 < value.toInt.natAbs ∧
      value.toInt.natAbs ≤ 2 ^ 63 := by
  have negative : value.toInt < 0 := Int64.lt_iff_toInt_lt.mp below
  have bound := value.le_toInt
  omega

theorem chars_spelling (number : Number) : number.spelling.chars = number.text.toList := by
  cases number with
  | natural value =>
      simp [spelling, Spelling.chars, Spelling.fractionChars, Spelling.scaleChars, text]
  | negative value below =>
      obtain ⟨value_eq, positive, -⟩ := toInt_eq_neg below
      obtain ⟨size, size_eq⟩ := Nat.exists_eq_succ_of_ne_zero positive.ne'
      have text_eq : toString value.toInt = "-" ++ toString value.toInt.natAbs := by
        rw [value_eq, size_eq]
        rfl
      simp [spelling, Spelling.chars, Spelling.fractionChars, Spelling.scaleChars, text, text_eq]
  | real value finite =>
      obtain ⟨shortest, -, -, spelling_eq, text_eq⟩ := spelling_real value finite
      rw [spelling_eq, text_eq, Spelling.chars_ofDecimal]

theorem wellFormed_spelling (number : Number) : number.spelling.WellFormed := by
  cases number with
  | natural value => exact Spelling.wellFormed_toDigits _ _
  | negative value below => exact Spelling.wellFormed_toDigits _ _
  | real value finite =>
      obtain ⟨shortest, -, zero, spelling_eq, -⟩ := spelling_real value finite
      rw [spelling_eq]
      exact Spelling.wellFormed_ofDecimal zero

/-- A number that is written reads back. -/
theorem number?_text (number : Number) {rest : List Char} (delimits : Spelling.Delimits rest) :
    number? (number.text.toList ++ rest) = some (number.numeral, rest) := by
  rw [← chars_spelling]
  exact Spelling.number?_chars number.wellFormed_spelling delimits

/-- A real number is written with a point or a scale, and is read as the same double. -/
theorem numeral_real (value : Float) (finite : value.isFinite = true) :
    (real value finite).numeral.value.toFloat = value ∧
      (real value finite).numeral.whole = false := by
  obtain ⟨shortest, reads, -, spelling_eq, -⟩ := spelling_real value finite
  rw [numeral, spelling_eq]
  refine ⟨?_, Spelling.whole_ofDecimal shortest⟩
  rw [← reads]
  exact Decimal.toFloat_congr (Spelling.negative_ofDecimal shortest)
    (Spelling.magnitude_ofDecimal shortest)

theorem float?_numeral_real (value : Float) (finite : value.isFinite = true) :
    (real value finite).numeral.float? = some value := by
  rw [Numeral.float?, (numeral_real value finite).1]
  exact if_pos finite

/-- Every number of a document is read as some finite double. -/
theorem isSome_float?_numeral (number : Number) : number.numeral.float?.isSome = true := by
  have whole {negative : Bool} {digits : ℕ} (small : digits ≤ 2 ^ 64) :
      (Numeral.float? ⟨⟨negative, digits, 0⟩, true⟩).isSome = true := by
    have finite : (Decimal.toFloat ⟨negative, digits, 0⟩).isFinite = true :=
      Decimal.isFinite_toFloat rfl small
    rw [Numeral.float?]
    dsimp only
    rw [if_pos finite, Option.isSome_some]
  cases number with
  | natural value =>
      rw [numeral_natural]
      exact whole value.toNat_lt.le
  | negative value below =>
      rw [numeral_negative]
      exact whole ((toInt_eq_neg below).2.2.trans (by norm_num))
  | real value finite =>
      rw [float?_numeral_real, Option.isSome_some]

theorem word?_numeral_natural (value : UInt64) : (natural value).numeral.word? = some value := by
  have small : value.toNat < UInt64.size := value.toNat_lt
  rw [numeral_natural, Numeral.word?]
  simp [small]

/-- The number of a document is the one that is written. -/
theorem ofNumeral?_numeral (number : Number) : ofNumeral? number.numeral = some number := by
  cases number with
  | natural value =>
      have small : value.toNat < UInt64.size := value.toNat_lt
      rw [numeral_natural, ofNumeral?]
      simp [small]
  | negative value below =>
      obtain ⟨value_eq, -, small⟩ := toInt_eq_neg below
      have same : Int64.ofInt (-(value.toInt.natAbs : ℤ)) = value := by
        rw [← value_eq, Int64.ofInt_toInt]
      have fits : decide (value.toInt.natAbs ≤ Nat.pow 2 63) = true := decide_eq_true small
      rw [numeral_negative, ofNumeral?]
      simp only [Bool.not_true, Bool.and_false, Bool.false_and, Bool.false_eq_true, if_false,
        Bool.and_self, fits, if_true, same]
      exact dif_pos below
  | real value finite =>
      obtain ⟨reads, notWhole⟩ := numeral_real value finite
      rw [ofNumeral?, notWhole, reads]
      exact dif_pos finite

end Number

end Json

end EconModel
