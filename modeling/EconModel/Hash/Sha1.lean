import EconModel.Hash.Word

/-!
# SHA-1

The SHA-1 hash function.  It serves here only to derive identifiers from names.
-/

namespace EconModel

namespace Hash

namespace Sha1

/-- The five words of the state. -/
structure State where
  a : UInt32
  b : UInt32
  c : UInt32
  d : UInt32
  e : UInt32

def State.initial : State := ⟨0x67452301, 0xEFCDAB89, 0x98BADCFE, 0x10325476, 0xC3D2E1F0⟩

/-- The sum of two states, word by word. -/
def State.add (left right : State) : State :=
  ⟨left.a + right.a, left.b + right.b, left.c + right.c, left.d + right.d, left.e + right.e⟩

/-- The input followed by a mark, zeros up to a block boundary, and its length in bits. -/
def padded (input : List UInt8) : List UInt8 :=
  let zeros := (119 - input.length % 64) % 64
  input ++ 0x80 :: List.replicate zeros 0 ++ bigEndianBytes 8 (8 * input.length)

/-- Extend message words, which are given latest first, by `count` words. -/
def extend : (count : Nat) → List UInt32 → List UInt32
  | 0, words => words
  | count + 1, words =>
      let word (back : Nat) : UInt32 := words.getD (back - 1) 0
      extend count (rotateLeft (word 3 ^^^ word 8 ^^^ word 14 ^^^ word 16) 1 :: words)

/-- The message words of a block, extended to eighty. -/
def schedule (block : List UInt8) : List UInt32 :=
  let words := (blocks 4 block).map fun bytes => UInt32.ofNat (bigEndian bytes)
  (extend 64 words.reverse).reverse

/-- The function and the constant of the step with a given number. -/
def choice (index : Nat) (b c d : UInt32) : UInt32 × UInt32 :=
  if index < 20 then ((b &&& c) ||| (~~~b &&& d), 0x5A827999)
  else if index < 40 then (b ^^^ c ^^^ d, 0x6ED9EBA1)
  else if index < 60 then ((b &&& c) ||| (b &&& d) ||| (c &&& d), 0x8F1BBCDC)
  else (b ^^^ c ^^^ d, 0xCA62C1D6)

/-- One step with one message word. -/
def step (state : State) (word : UInt32 × Nat) : State :=
  let (chosen, constant) := choice word.2 state.b state.c state.d
  ⟨rotateLeft state.a 5 + chosen + state.e + constant + word.1, state.a, rotateLeft state.b 30,
    state.c, state.d⟩

/-- Take up one block. -/
def compress (state : State) (block : List UInt8) : State :=
  state.add ((schedule block).zipIdx.foldl step state)

def hash (input : List UInt8) : List UInt8 :=
  let final := (blocks 64 (padded input)).foldl compress State.initial
  [final.a, final.b, final.c, final.d, final.e].flatMap fun word => bigEndianBytes 4 word.toNat

end Sha1

end Hash

end EconModel
