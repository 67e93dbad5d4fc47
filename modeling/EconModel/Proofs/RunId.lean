import EconModel.Proofs.Json.Codec
import EconModel.RunId

/-!
# Identifiers read back

The text of an identifier spells its sixteen bytes, two digits a byte, so it is read as that
identifier.  The name that an identifier is derived from tells all of what it is made of.
-/

namespace EconModel

open Json (Decoder)

namespace Hash

@[simp]
theorem length_littleEndianBytes (count value : ℕ) :
    (littleEndianBytes count value).length = count := by
  induction count generalizing value with
  | zero => rfl
  | succ count ih => rw [littleEndianBytes, List.length_cons, ih]

theorem littleEndian_littleEndianBytes (count value : ℕ) :
    littleEndian (littleEndianBytes count value) = value % 256 ^ count := by
  induction count generalizing value with
  | zero => simp [littleEndianBytes, littleEndian, Nat.mod_one]
  | succ count ih =>
      have byte_eq : (UInt8.ofNat (value % 256)).toNat = value % 256 := by simp
      have step : littleEndian (littleEndianBytes (count + 1) value) =
          (UInt8.ofNat (value % 256)).toNat +
            256 * littleEndian (littleEndianBytes count (value / 256)) := rfl
      rw [step, ih, byte_eq, pow_succ', Nat.mod_mul]

theorem bigEndian_bigEndianBytes (count value : ℕ) :
    bigEndian (bigEndianBytes count value) = value % 256 ^ count := by
  rw [bigEndian, bigEndianBytes, List.reverse_reverse, littleEndian_littleEndianBytes]

/-- The most significant byte comes first, so each further byte moves the value up. -/
theorem bigEndian_eq_foldl (bytes : List UInt8) :
    bigEndian bytes = bytes.foldl (fun value byte => 256 * value + byte.toNat) 0 := by
  rw [bigEndian, littleEndian, List.foldr_reverse]
  simp only [add_comm]

theorem toList_hex_cons (byte : UInt8) (rest : List UInt8) :
    (hex (byte :: rest)).toList =
      Nat.digitChar (byte.toNat / 16) :: Nat.digitChar (byte.toNat % 16) :: (hex rest).toList := by
  simp [hex]

theorem length_toList_hex (bytes : List UInt8) : (hex bytes).toList.length = 2 * bytes.length := by
  induction bytes with
  | nil => rfl
  | cons byte rest ih => rw [toList_hex_cons, List.length_cons, List.length_cons, ih,
      List.length_cons, Nat.mul_succ]

end Hash

namespace RunId

theorem hexValue?_digitChar {digit : ℕ} (small : digit < 16) :
    hexValue? (Nat.digitChar digit) = some digit := by
  have all_read : ∀ digit : Fin 16, hexValue? (Nat.digitChar digit) = some digit.val := by decide
  exact all_read ⟨digit, small⟩

/-- The halves of bytes are their digits to the base sixteen. -/
theorem mapM_hexValue?_hex (bytes : List UInt8) :
    (Hash.hex bytes).toList.mapM hexValue? =
      some (bytes.flatMap fun byte => [byte.toNat / 16, byte.toNat % 16]) := by
  induction bytes with
  | nil => rfl
  | cons byte rest ih =>
      have bound : byte.toNat < 256 := byte.toNat_lt
      have high : byte.toNat / 16 < 16 := by omega
      have low : byte.toNat % 16 < 16 := Nat.mod_lt _ (by omega)
      rw [Hash.toList_hex_cons]
      simp [List.mapM_cons, hexValue?_digitChar high, hexValue?_digitChar low, ih]

theorem foldl_halves (bytes : List UInt8) (start : ℕ) :
    (bytes.flatMap fun byte => [byte.toNat / 16, byte.toNat % 16]).foldl
        (fun value digit => 16 * value + digit) start =
      bytes.foldl (fun value byte => 256 * value + byte.toNat) start := by
  induction bytes generalizing start with
  | nil => rfl
  | cons byte rest ih =>
      have joined : 16 * (16 * start + byte.toNat / 16) + byte.toNat % 16 =
          256 * start + byte.toNat := by omega
      rw [List.flatMap_cons, List.foldl_append, ih]
      simp only [List.foldl_cons, List.foldl_nil, joined]

theorem length_digits (id : RunId) : (Hash.hex (bytes id.value)).toList.length = 32 := by
  rw [Hash.length_toList_hex, bytes, Hash.bigEndianBytes, List.length_reverse,
    Hash.length_littleEndianBytes]

theorem ofDigits?_hex (id : RunId) :
    ofDigits? (Hash.hex (bytes id.value)).toList = some id := by
  have whole : id.value.toNat % 256 ^ 16 = id.value.toNat :=
    Nat.mod_eq_of_lt id.value.isLt
  rw [ofDigits?, if_pos id.length_digits, mapM_hexValue?_hex, Option.map_some, foldl_halves,
    ← Hash.bigEndian_eq_foldl, bytes, Hash.bigEndian_bigEndianBytes, whole, BitVec.ofNat_toNat,
    BitVec.setWidth_eq]

/-! ## Groups -/

/-- The characters of a text that start at a position and stand away from the given places. -/
def away (places : List ℕ) (position : ℕ) (text : List Char) : List Char :=
  ((text.zipIdx position).filter fun entry => entry.2 ∉ places).map Prod.fst

theorem away_cons_of_mem {places : List ℕ} {position : ℕ} (c : Char) (rest : List Char)
    (member : position ∈ places) :
    away places position (c :: rest) = away places (position + 1) rest := by
  simp [away, List.zipIdx_cons, member]

theorem away_append {places : List ℕ} {position : ℕ} (front rest : List Char)
    (clear : ∀ place ∈ places, place < position ∨ position + front.length ≤ place) :
    away places position (front ++ rest) = front ++ away places (position + front.length) rest := by
  induction front generalizing position with
  | nil => rfl
  | cons c front ih =>
      have outside : position ∉ places := fun member => by
        have apart := clear position member
        rw [List.length_cons] at apart
        omega
      have kept : away places position (c :: (front ++ rest)) =
          c :: away places (position + 1) (front ++ rest) := by
        simp [away, List.zipIdx_cons, outside]
      rw [List.cons_append, kept, ih, List.length_cons, Nat.add_assoc, Nat.add_comm 1]
      · rfl
      · intro place member
        have apart := clear place member
        rw [List.length_cons] at apart
        omega

/-- Five groups of digits are read as their digits in a row. -/
theorem ofGroups?_groups {first second third fourth fifth : List Char}
    (first_length : first.length = 8) (second_length : second.length = 4)
    (third_length : third.length = 4) (fourth_length : fourth.length = 4)
    (fifth_length : fifth.length = 12) :
    ofGroups? (first ++ '-' :: (second ++ '-' :: (third ++ '-' :: (fourth ++ '-' :: fifth)))) =
      ofDigits? (first ++ (second ++ (third ++ (fourth ++ fifth)))) := by
  have length_eq : (first ++ '-' :: (second ++ '-' :: (third ++ '-' ::
      (fourth ++ '-' :: fifth)))).length = 36 := by
    simp [first_length, second_length, third_length, fourth_length, fifth_length]
  have hyphens : [8, 13, 18, 23].all fun place => (first ++ '-' :: (second ++ '-' :: (third ++
      '-' :: (fourth ++ '-' :: fifth))))[place]? = some '-' := by
    simp [List.getElem?_append, List.getElem?_cons, first_length, second_length, third_length,
      fourth_length]
  rw [ofGroups?, if_pos ⟨length_eq, hyphens⟩]
  change ofDigits? (away [8, 13, 18, 23] 0 _) = _
  rw [away_append first _ (by simp [first_length]), first_length,
    away_cons_of_mem _ _ (by decide), away_append second _ (by simp [second_length]), second_length,
    away_cons_of_mem _ _ (by decide), away_append third _ (by simp [third_length]), third_length,
    away_cons_of_mem _ _ (by decide), away_append fourth _ (by simp [fourth_length]), fourth_length,
    away_cons_of_mem _ _ (by decide), ← List.append_nil fifth,
    away_append fifth _ (by simp)]
  simp [away]

theorem ofText?_text (id : RunId) : ofText? id.text = some id := by
  obtain ⟨digits, digits_eq⟩ : ∃ digits, digits = (Hash.hex (bytes id.value)).toList := ⟨_, rfl⟩
  have count : digits.length = 32 := digits_eq ▸ id.length_digits
  have text_eq : id.text.toList = digits.take 8 ++ '-' :: ((digits.drop 8).take 4 ++ '-' ::
      ((digits.drop 12).take 4 ++ '-' :: ((digits.drop 16).take 4 ++ '-' ::
        (digits.drop 20).take 12))) := by
    rw [text, ← digits_eq]
    simp [String.intercalate_cons_cons, String.intercalate_singleton]
  have length_eq : id.text.toList.length = 36 := by
    rw [text_eq]
    simp [count]
  have joined : digits.take 8 ++ ((digits.drop 8).take 4 ++ ((digits.drop 12).take 4 ++
      ((digits.drop 16).take 4 ++ (digits.drop 20).take 12))) = digits := by
    have cut (start size : ℕ) :
        (digits.drop start).take size ++ digits.drop (start + size) = digits.drop start := by
      rw [← List.drop_drop, List.take_append_drop]
    have last : (digits.drop 20).take 12 = digits.drop 20 :=
      List.take_of_length_le (by simp [count])
    rw [last, cut 16 4, cut 12 4, cut 8 4, List.take_append_drop]
  unfold ofText?
  simp only [length_eq]
  rw [text_eq, ofGroups?_groups (by simp [count]) (by simp [count]) (by simp [count])
    (by simp [count]) (by simp [count]), joined, digits_eq]
  exact ofDigits?_hex id

theorem reads (id : RunId) (nesting : ℕ) :
    Decoder.Reads decode nesting id.toDocument id True := by
  intro ahead _
  simp [decode, Decoder.text, toDocument, Json.Document.tree, ofText?_text]

/-! ## Names -/

/-- What stands behind the last colon of a text is determined, and so is what stands before it. -/
theorem eq_of_append_colon_eq {front front' back back' : List Char} (clear : ':' ∉ back)
    (clear' : ':' ∉ back') (same : front ++ ':' :: back = front' ++ ':' :: back') :
    front = front' ∧ back = back' := by
  rcases List.append_eq_append_iff.mp same with ⟨rest, front_eq, back_eq⟩ |
    ⟨rest, front_eq, back_eq⟩
  · cases rest with
    | nil =>
        rw [List.append_nil] at front_eq
        exact ⟨front_eq.symm, (List.cons.inj back_eq).2⟩
    | cons c rest =>
        obtain ⟨_, rfl⟩ := List.cons.inj back_eq
        exact (clear (List.mem_append_right _ List.mem_cons_self)).elim
  · cases rest with
    | nil =>
        rw [List.append_nil] at front_eq
        exact ⟨front_eq, (List.cons.inj back_eq).2.symm⟩
    | cons c rest =>
        obtain ⟨_, rfl⟩ := List.cons.inj back_eq
        exact (clear' (List.mem_append_right _ List.mem_cons_self)).elim

/-- The part of a name that tells the place of a run in its batch. -/
def place : Option UInt64 → String
  | some index => toString index.toNat
  | none => "deterministic"

theorem toList_toString (number : ℕ) : (toString number).toList = Nat.toDigits 10 number :=
  (String.ofList_eq.mp rfl).symm

theorem toList_name (fingerprint : String) (seed : UInt64) (index : Option UInt64) :
    (name fingerprint seed index).toList =
      (fingerprint.toList ++ ':' :: (toString seed.toNat).toList) ++ ':' :: (place index).toList := by
  have name_eq : name fingerprint seed index =
      fingerprint ++ ":" ++ toString seed.toNat ++ ":" ++ place index := by
    cases index <;> rfl
  have colon : ":".toList = [':'] := rfl
  rw [name_eq]
  simp only [String.toList_append, colon, List.append_assoc, List.cons_append, List.nil_append]

theorem toString_injective : Function.Injective (toString : ℕ → String) := by
  intro number other same
  have digits_eq := congrArg String.toList same
  rw [toList_toString, toList_toString] at digits_eq
  rw [← Decimal.ofDigits_toDigits number, digits_eq, Decimal.ofDigits_toDigits]

theorem isDigit_of_mem_toString {number : ℕ} {c : Char} (member : c ∈ (toString number).toList) :
    c.isDigit = true := by
  rw [toList_toString] at member
  exact Decimal.isDigit_of_mem_toDigits member

theorem colon_not_mem_toString (number : ℕ) : ':' ∉ (toString number).toList := by
  intro member
  have digit : ':'.isDigit = true := isDigit_of_mem_toString member
  exact absurd digit (by decide)

theorem colon_not_mem_place (index : Option UInt64) : ':' ∉ (place index).toList := by
  cases index with
  | none => decide
  | some index => exact colon_not_mem_toString index.toNat

theorem place_some_ne_none (index : UInt64) : place (some index) ≠ place none := by
  intro same
  have member : 'd' ∈ (place (some index)).toList := by
    rw [same]
    decide
  have digit : 'd'.isDigit = true := isDigit_of_mem_toString member
  exact absurd digit (by decide)

theorem place_injective : Function.Injective place := by
  intro index other same
  cases index with
  | none =>
      cases other with
      | none => rfl
      | some other => exact (place_some_ne_none other same.symm).elim
  | some index =>
      cases other with
      | none => exact (place_some_ne_none index same).elim
      | some other => exact congrArg some (UInt64.toNat_inj.mp (toString_injective same))

/-- The name of a run tells its fingerprint, its seed and its index, whatever the fingerprint is. -/
theorem eq_of_name_eq {fingerprint fingerprint' : String} {seed seed' : UInt64}
    {index index' : Option UInt64}
    (same : name fingerprint seed index = name fingerprint' seed' index') :
    fingerprint = fingerprint' ∧ seed = seed' ∧ index = index' := by
  have chars_eq := congrArg String.toList same
  rw [toList_name, toList_name] at chars_eq
  obtain ⟨front_eq, place_eq⟩ :=
    eq_of_append_colon_eq (colon_not_mem_place _) (colon_not_mem_place _) chars_eq
  obtain ⟨fingerprint_eq, seed_eq⟩ :=
    eq_of_append_colon_eq (colon_not_mem_toString _) (colon_not_mem_toString _) front_eq
  exact ⟨String.toList_inj.mp fingerprint_eq,
    UInt64.toNat_inj.mp (toString_injective (String.toList_inj.mp seed_eq)),
    place_injective (String.toList_inj.mp place_eq)⟩

end RunId

end EconModel
