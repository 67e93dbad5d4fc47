import EconModel.Hash.Sha1
import EconModel.Json.Decoder
import EconModel.Json.Document

/-!
# Identifiers of runs

A run is identified by sixteen bytes that are derived from the fingerprint of its model, its seed
and its index.  The derivation hashes a name under a fixed namespace, so the same run always has the
same identifier.  An identifier is written as five groups of hexadecimal digits; a few other
spellings are read.
-/

namespace EconModel

structure RunId where
  /-- Its sixteen bytes, read as one number with the most significant byte first. -/
  value : BitVec 128
  deriving DecidableEq

namespace RunId

/-! ## Derivation -/

/-- The namespace under which names of runs are hashed. -/
def scope : BitVec 128 := 0x65636f6e73696d008a1f03c25d4e9b71

/-- The name that is hashed: fingerprint, seed and index, divided by colons.  A run outside a batch
has no index. -/
def name (fingerprint : String) (seed : UInt64) (index : Option UInt64) : String :=
  let place :=
    match index with
    | some index => toString index.toNat
    | none => "deterministic"
  fingerprint ++ ":" ++ toString seed.toNat ++ ":" ++ place

def bytes (value : BitVec 128) : List UInt8 := Hash.bigEndianBytes 16 value.toNat

/-- Put a field of `width` bits over the bits of a value that start at `start`. -/
def mark (value : BitVec 128) (start width field : Nat) : BitVec 128 :=
  let mask := BitVec.ofNat 128 ((Nat.pow 2 width - 1) * Nat.pow 2 start)
  (value &&& ~~~mask) ||| BitVec.ofNat 128 (field * Nat.pow 2 start)

/-- The identifier of a name: the leading bytes of the hash of namespace and name, marked as version
five of the variant for hashed names. -/
def ofName (name : String) : RunId :=
  let digest := Hash.Sha1.hash (bytes scope ++ name.toUTF8.toList)
  let leading := BitVec.ofNat 128 (Hash.bigEndian (digest.take 16))
  ⟨mark (mark leading 76 4 5) 62 2 2⟩

def derive (fingerprint : String) (seed : UInt64) (index : Option UInt64) : RunId :=
  ofName (name fingerprint seed index)

/-! ## Text -/

def text (id : RunId) : String :=
  let digits := (Hash.hex (bytes id.value)).toList
  let group (start stop : Nat) : String := String.ofList ((digits.drop start).take (stop - start))
  "-".intercalate [group 0 8, group 8 12, group 12 16, group 16 20, group 20 32]

/-- The value of a hexadecimal digit in either case. -/
def hexValue? (c : Char) : Option Nat :=
  if c.isDigit then some (c.toNat - '0'.toNat)
  else if 'a' ≤ c ∧ c ≤ 'f' then some (c.toNat - 'a'.toNat + 10)
  else if 'A' ≤ c ∧ c ≤ 'F' then some (c.toNat - 'A'.toNat + 10)
  else none

/-- The identifier with the given 32 digits. -/
def ofDigits? (digits : List Char) : Option RunId :=
  if digits.length = 32 then
    (digits.mapM hexValue?).map fun values =>
      ⟨BitVec.ofNat 128 (values.foldl (fun value digit => 16 * value + digit) 0)⟩
  else none

/-- The identifier with the given five groups of digits, which hyphens divide. -/
def ofGroups? (groups : List Char) : Option RunId :=
  if groups.length = 36 ∧ [8, 13, 18, 23].all fun place => groups[place]? = some '-' then
    ofDigits? <|
      (groups.zipIdx.filter fun entry => entry.2 ∉ [8, 13, 18, 23]).map Prod.fst
  else none

/-- What may stand in front of the groups of an identifier, in either case. -/
def label : List Char := "urn:uuid:".toList

/-- Drop the braces around a text. -/
def unbraced? (text : List Char) : Option (List Char) :=
  if text.head? = some '{' ∧ text.getLast? = some '}' then some text.tail.dropLast else none

/-- The identifier that a text spells: 32 digits, or five groups of digits, which may stand in
braces or behind a label. -/
def ofText? (text : String) : Option RunId :=
  let chars := text.toList
  match chars.length with
  | 32 => ofDigits? chars
  | 36 => ofGroups? chars
  | 38 => (unbraced? chars).bind ofGroups?
  | 45 =>
      let (front, groups) := chars.splitAt label.length
      if front.map Char.toLower = label then ofGroups? groups else none
  | _ => none

def toDocument (id : RunId) : Json.Document := .text id.text

/-- Read an identifier. -/
def decode : Json.Decoder RunId := fun ahead nesting tree =>
  (Json.Decoder.text ahead nesting tree).bind ofText?

end RunId

end EconModel
