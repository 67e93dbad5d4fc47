import EconModel.Proofs.RoundTrip.Model
import EconModel.Proofs.RunId
import EconModel.Random.Stream

/-!
# What is hashed

The identifier of a run is a hash of its fingerprint, seed and index, and its random stream starts
from a hash of base seed and index.  What goes into either hash determines these parts, so two
identities share an identifier, and two runs of a batch share a stream, only where the hash itself
gives one result for two inputs.
-/

namespace EconModel

namespace Hash

/-- A hash gives one result for two inputs. -/
structure Collides {α : Type} (hash : List UInt8 → α) (input input' : List UInt8) : Prop where
  inputs_ne : input ≠ input'
  hashes_eq : hash input = hash input'

theorem littleEndian_lt (bytes : List UInt8) : littleEndian bytes < 256 ^ bytes.length := by
  induction bytes with
  | nil => decide
  | cons byte rest ih =>
      have step : littleEndian (byte :: rest) = byte.toNat + 256 * littleEndian rest := rfl
      have bound : byte.toNat < 256 := byte.toNat_lt
      rw [step, List.length_cons, pow_succ]
      omega

theorem eq_of_littleEndian_eq {bytes bytes' : List UInt8} (length_eq : bytes.length = bytes'.length)
    (same : littleEndian bytes = littleEndian bytes') : bytes = bytes' := by
  induction bytes generalizing bytes' with
  | nil => exact (List.length_eq_zero_iff.mp length_eq.symm).symm
  | cons byte rest ih =>
      obtain ⟨byte', rest', rfl⟩ := List.exists_cons_of_length_eq_add_one length_eq.symm
      have step : byte.toNat + 256 * littleEndian rest =
          byte'.toNat + 256 * littleEndian rest' := same
      have bound : byte.toNat < 256 := byte.toNat_lt
      have bound' : byte'.toNat < 256 := byte'.toNat_lt
      have byte_eq : byte = byte' := UInt8.toNat_inj.mp (by omega)
      rw [byte_eq, ih (Nat.succ.inj length_eq) (by omega)]

namespace Blake3

theorem pairUp_ne_nil {nodes : List Node} (nonempty : nodes ≠ []) : pairUp nodes ≠ [] := by
  unfold pairUp
  split
  · exact List.cons_ne_nil _ _
  · exact nonempty

theorem combine_ne_nil {limit : ℕ} {nodes : List Node} (nonempty : nodes ≠ []) :
    combine limit nodes ≠ [] := by
  induction limit generalizing nodes with
  | zero => exact nonempty
  | succ limit ih =>
      rw [combine]
      split
      · exact nonempty
      · exact ih (pairUp_ne_nil nonempty)

theorem chunkNodes_ne_nil (input : List UInt8) : chunkNodes input ≠ [] := by
  cases input with
  | nil => exact List.cons_ne_nil _ _
  | cons byte rest => exact List.cons_ne_nil _ _

theorem length_hash (input : List UInt8) : (hash input).length = 32 := by
  unfold hash
  split
  · next node _ _ =>
    rw [List.length_flatMap]
    simp only [length_littleEndianBytes, List.map_const', List.sum_replicate_nat,
      Vector.length_toList]
  · next none => exact (combine_ne_nil (chunkNodes_ne_nil input) none).elim

end Blake3

end Hash

/-! ## Identifiers -/

namespace RunId

/-- What is hashed into the identifier of a run: the namespace, then the bytes of its name. -/
def hashInput (fingerprint : String) (seed : UInt64) (index : Option UInt64) : List UInt8 :=
  bytes scope ++ (name fingerprint seed index).toUTF8.toList

theorem eq_of_hashInput_eq {fingerprint fingerprint' : String} {seed seed' : UInt64}
    {index index' : Option UInt64}
    (same : hashInput fingerprint seed index = hashInput fingerprint' seed' index') :
    fingerprint = fingerprint' ∧ seed = seed' ∧ index = index' :=
  eq_of_name_eq (eq_of_toUTF8 (List.append_cancel_left same))

/-- The leading bytes of the hash of an input. -/
def leading (input : List UInt8) : BitVec 128 :=
  BitVec.ofNat 128 (Hash.bigEndian ((Hash.Sha1.hash input).take 16))

/-- The bits that tell the version and the variant of an identifier; they are not taken from the
hash. -/
def IsMark (bit : ℕ) : Prop := (62 ≤ bit ∧ bit < 64) ∨ (76 ≤ bit ∧ bit < 80)

/-- The bits of the hash that an identifier keeps. -/
def keptBits (input : List UInt8) (bit : {bit : Fin 128 // ¬ IsMark bit}) : Bool :=
  (leading input).getLsbD bit.val

theorem getLsbD_mark (value : BitVec 128) {start width field : ℕ} (small : field < 2 ^ width)
    (fits : start + width ≤ 128) (bit : ℕ) :
    (mark value start width field).getLsbD bit =
      if start ≤ bit ∧ bit < start + width then field.testBit (bit - start)
      else value.getLsbD bit := by
  have beyond (outside : ¬ bit < start + width) : field.testBit (bit - start) = false :=
    Nat.testBit_lt_two_pow (small.trans_le (Nat.pow_le_pow_right two_pos (by omega)))
  have past (outside : ¬ bit < 128) : value.getLsbD bit = false :=
    BitVec.getLsbD_of_ge value bit (Nat.le_of_not_lt outside)
  simp only [mark, Nat.pow_eq, BitVec.getLsbD_or, BitVec.getLsbD_and, BitVec.getLsbD_not,
    BitVec.getLsbD_ofNat, Nat.testBit_mul_two_pow, Nat.testBit_two_pow_sub_one]
  by_cases before : start ≤ bit
  · by_cases inside : bit < start + width
    · have bound : bit < 128 := by omega
      have placed : bit - start < width := by omega
      simp [before, inside, bound, placed]
    · have unplaced : ¬ bit - start < width := by omega
      by_cases bound : bit < 128 <;> simp [before, inside, unplaced, bound, beyond inside, past]
  · by_cases bound : bit < 128 <;> simp [before, bound, past]

/-- Two names have the same identifier if and only if their hashes agree on the kept bits. -/
theorem ofName_eq_iff (name name' : String) :
    ofName name = ofName name' ↔
      keptBits (bytes scope ++ name.toUTF8.toList) =
        keptBits (bytes scope ++ name'.toUTF8.toList) := by
  have bits (name : String) (bit : ℕ) : (ofName name).value.getLsbD bit =
      if 62 ≤ bit ∧ bit < 64 then Nat.testBit 2 (bit - 62)
      else if 76 ≤ bit ∧ bit < 80 then Nat.testBit 5 (bit - 76)
      else (leading (bytes scope ++ name.toUTF8.toList)).getLsbD bit := by
    have value_eq : (ofName name).value =
        mark (mark (leading (bytes scope ++ name.toUTF8.toList)) 76 4 5) 62 2 2 := rfl
    rw [value_eq, getLsbD_mark _ (by decide) (by decide), getLsbD_mark _ (by decide) (by decide)]
  constructor
  · intro same
    funext bit
    obtain ⟨outside, above⟩ := not_or.mp bit.property
    have bit_eq := congrArg (fun id => id.value.getLsbD bit.val) same
    simp only [bits, if_neg outside, if_neg above] at bit_eq
    exact bit_eq
  · intro same
    have value_eq : (ofName name).value = (ofName name').value := by
      refine BitVec.eq_of_getLsbD_eq fun bit bound => ?_
      rw [bits, bits]
      split
      · rfl
      · next outside =>
        split
        · rfl
        · next above => exact congrFun same ⟨⟨bit, bound⟩, not_or.mpr ⟨outside, above⟩⟩
    exact congrArg RunId.mk value_eq

/-- Two identities share an identifier if and only if they are the same or their hashes collide. -/
theorem derive_eq_iff (fingerprint fingerprint' : String) (seed seed' : UInt64)
    (index index' : Option UInt64) :
    derive fingerprint seed index = derive fingerprint' seed' index' ↔
      (fingerprint = fingerprint' ∧ seed = seed' ∧ index = index') ∨
        Hash.Collides keptBits (hashInput fingerprint seed index)
          (hashInput fingerprint' seed' index') := by
  constructor
  · intro same
    by_cases equal : hashInput fingerprint seed index = hashInput fingerprint' seed' index'
    · exact .inl (eq_of_hashInput_eq equal)
    · exact .inr ⟨equal, (ofName_eq_iff _ _).mp same⟩
  · rintro (⟨rfl, rfl, rfl⟩ | collision)
    · rfl
    · exact (ofName_eq_iff _ _).mpr collision.hashes_eq

end RunId

/-! ## Random streams -/

/-- What is hashed into the seed of a run tells base seed and index. -/
theorem eq_of_runSeedInput_eq {baseSeed baseSeed' runIndex runIndex' : UInt64}
    (same : runSeedInput baseSeed runIndex = runSeedInput baseSeed' runIndex') :
    baseSeed = baseSeed' ∧ runIndex = runIndex' := by
  have word_eq {word word' : UInt64}
      (bytes_eq : Hash.littleEndianBytes 8 word.toNat = Hash.littleEndianBytes 8 word'.toNat) :
      word = word' := by
    have whole (word : UInt64) : word.toNat % 256 ^ 8 = word.toNat := Nat.mod_eq_of_lt word.toNat_lt
    have values_eq := congrArg Hash.littleEndian bytes_eq
    rw [Hash.littleEndian_littleEndianBytes, Hash.littleEndian_littleEndianBytes, whole,
      whole] at values_eq
    exact UInt64.toNat_inj.mp values_eq
  rw [runSeedInput, runSeedInput, List.append_assoc, List.append_assoc] at same
  have words_eq := List.append_cancel_left same
  obtain ⟨base_eq, index_eq⟩ := List.append_inj words_eq (by simp)
  exact ⟨word_eq base_eq, word_eq index_eq⟩

namespace RandomStream

/-- A seed of 32 bytes can be told from its stream. -/
theorem eq_of_ofSeed_eq {seed seed' : List UInt8} (length_eq : seed.length = 32)
    (length_eq' : seed'.length = 32) (same : ofSeed seed = ofSeed seed') : seed = seed' := by
  have words_eq (place : Fin 8) :
      (seed.drop (4 * place.val)).take 4 = (seed'.drop (4 * place.val)).take 4 := by
    have bound := place.isLt
    have count : ((seed.drop (4 * place.val)).take 4).length = 4 := by
      rw [List.length_take, List.length_drop]
      omega
    have count' : ((seed'.drop (4 * place.val)).take 4).length = 4 := by
      rw [List.length_take, List.length_drop]
      omega
    have below := Hash.littleEndian_lt ((seed.drop (4 * place.val)).take 4)
    have below' := Hash.littleEndian_lt ((seed'.drop (4 * place.val)).take 4)
    have word_eq := congrArg (fun stream => stream.key.get place) same
    simp only [ofSeed, Vector.get_eq_getElem, Vector.getElem_ofFn] at word_eq
    have values_eq := congrArg UInt32.toNat word_eq
    rw [count] at below
    rw [count'] at below'
    rw [UInt32.toNat_ofNat_of_lt' below, UInt32.toNat_ofNat_of_lt' below'] at values_eq
    exact Hash.eq_of_littleEndian_eq (count.trans count'.symm) values_eq
  refine List.ext_getElem? fun position => ?_
  by_cases inside : position < 32
  · have word_eq := congrArg (·[position % 4]?) (words_eq ⟨position / 4, by omega⟩)
    simpa [List.getElem?_take, Nat.mod_lt, Nat.div_add_mod] using word_eq
  · rw [List.getElem?_eq_none (by omega), List.getElem?_eq_none (by omega)]

/-- Two runs share a random stream if and only if they are the same or their hashes collide. -/
theorem ofRun_eq_iff (baseSeed baseSeed' runIndex runIndex' : UInt64) :
    ofRun baseSeed runIndex = ofRun baseSeed' runIndex' ↔
      (baseSeed = baseSeed' ∧ runIndex = runIndex') ∨
        Hash.Collides Hash.Blake3.hash (runSeedInput baseSeed runIndex)
          (runSeedInput baseSeed' runIndex') := by
  constructor
  · intro same
    by_cases equal : runSeedInput baseSeed runIndex = runSeedInput baseSeed' runIndex'
    · exact .inl (eq_of_runSeedInput_eq equal)
    · exact .inr ⟨equal, eq_of_ofSeed_eq (Hash.Blake3.length_hash _) (Hash.Blake3.length_hash _)
        same⟩
  · rintro (⟨rfl, rfl⟩ | collision)
    · rfl
    · exact congrArg ofSeed collision.hashes_eq

end RandomStream

/-- The name that is hashed into an identifier tells fingerprint, seed and index, whatever
characters the fingerprint has; the bytes that are hashed into the seed of a run tell base seed and
index.  So different identities with one identifier, and different runs with one random stream, are
collisions of the hash. -/
theorem preimages_injective :
    (Function.Injective fun identity : String × UInt64 × Option UInt64 =>
        RunId.name identity.1 identity.2.1 identity.2.2) ∧
      (Function.Injective fun run : UInt64 × UInt64 => runSeedInput run.1 run.2) ∧
      (∀ fingerprint seed index fingerprint' seed' index',
        RunId.derive fingerprint seed index = RunId.derive fingerprint' seed' index' ↔
          (fingerprint = fingerprint' ∧ seed = seed' ∧ index = index') ∨
            Hash.Collides RunId.keptBits (RunId.hashInput fingerprint seed index)
              (RunId.hashInput fingerprint' seed' index')) ∧
      (∀ baseSeed runIndex baseSeed' runIndex',
        RandomStream.ofRun baseSeed runIndex = RandomStream.ofRun baseSeed' runIndex' ↔
          (baseSeed = baseSeed' ∧ runIndex = runIndex') ∨
            Hash.Collides Hash.Blake3.hash (runSeedInput baseSeed runIndex)
              (runSeedInput baseSeed' runIndex')) := by
  refine ⟨?names, ?seeds, ?identifiers, ?streams⟩
  case names =>
    rintro ⟨fingerprint, seed, index⟩ ⟨fingerprint', seed', index'⟩ same
    obtain ⟨rfl, rfl, rfl⟩ := RunId.eq_of_name_eq same
    rfl
  case seeds =>
    rintro ⟨baseSeed, runIndex⟩ ⟨baseSeed', runIndex'⟩ same
    obtain ⟨rfl, rfl⟩ := eq_of_runSeedInput_eq same
    rfl
  case identifiers =>
    exact fun fingerprint seed index fingerprint' seed' index' =>
      RunId.derive_eq_iff fingerprint fingerprint' seed seed' index index'
  case streams =>
    exact fun baseSeed runIndex baseSeed' runIndex' =>
      RandomStream.ofRun_eq_iff baseSeed baseSeed' runIndex runIndex'

end EconModel
