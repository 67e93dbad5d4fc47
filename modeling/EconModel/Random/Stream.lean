import EconModel.Hash.Blake3

/-!
# Random streams

Every run of a batch draws from a stream of its own, which depends only on the base seed and the
index of the run.  The seed of a stream is a hash of these two; the stream itself is the keystream
of ChaCha with eight rounds under that seed.
-/

namespace EconModel

open Hash

/-! ## Seeds -/

/-- What is hashed into the seed of a run: a fixed prefix, then base seed and index, each in eight
bytes with the least significant one first. -/
def runSeedInput (baseSeed runIndex : UInt64) : List UInt8 :=
  "econsim.run-seed.v1".toUTF8.toList ++ littleEndianBytes 8 baseSeed.toNat ++
    littleEndianBytes 8 runIndex.toNat

/-- The seed of a run, 32 bytes. -/
def runSeed (baseSeed runIndex : UInt64) : List UInt8 :=
  Blake3.hash (runSeedInput baseSeed runIndex)

/-! ## The keystream -/

namespace ChaCha

/-- Mix four words of the state. -/
def quarterRound (quarter : Quarter) : Quarter :=
  let a := quarter.first + quarter.second
  let d := rotateLeft (quarter.fourth ^^^ a) 16
  let c := quarter.third + d
  let b := rotateLeft (quarter.second ^^^ c) 12
  let a := a + b
  let d := rotateLeft (d ^^^ a) 8
  let c := c + d
  let b := rotateLeft (b ^^^ c) 7
  ⟨a, b, c, d⟩

/-- A round on the columns of the state and a round on its diagonals. -/
def doubleRound (state : Square) : Square := state.round fun _ => quarterRound

/-- The state before the rounds of a block. -/
def start (key : Vector UInt32 8) (counter : UInt64) : Square :=
  (#v[0x61707865, 0x3320646E, 0x79622D32, 0x6B206574] : Vector UInt32 4) ++ key ++
    #v[counter.toUInt32, (counter >>> 32).toUInt32, 0, 0]

/-- The words of a block of the keystream with eight rounds. -/
def block (key : Vector UInt32 8) (counter : UInt64) : Vector UInt32 16 :=
  let before := start key counter
  let after := doubleRound (doubleRound (doubleRound (doubleRound before)))
  Vector.zipWith (· + ·) before after

/-- The words of a block in pairs, the first word of a pair being the lower half. -/
def pairs (words : Vector UInt32 16) : List UInt64 :=
  (List.range 8).map fun i =>
    (words.toArray.getD (2 * i + 1) 0).toUInt64 <<< 32 ||| (words.toArray.getD (2 * i) 0).toUInt64

end ChaCha

/-- A place in a keystream. -/
structure RandomStream where
  key : Vector UInt32 8
  /-- The number of the block after the current one. -/
  counter : UInt64
  /-- What is left of the current block. -/
  pending : List UInt64

namespace RandomStream

/-- The beginning of the stream with a seed of 32 bytes. -/
def ofSeed (seed : List UInt8) : RandomStream where
  key := Vector.ofFn fun (i : Fin 8) =>
    UInt32.ofNat <| littleEndian <| (seed.drop (4 * i.val)).take 4
  counter := 0
  pending := []

/-- The stream of a run. -/
def ofRun (baseSeed runIndex : UInt64) : RandomStream := ofSeed (runSeed baseSeed runIndex)

/-- The next 64 bits of a stream. -/
def next (stream : RandomStream) : UInt64 × RandomStream :=
  match stream.pending with
  | bits :: rest => (bits, { stream with pending := rest })
  | [] =>
      match ChaCha.pairs (ChaCha.block stream.key stream.counter) with
      | bits :: rest => (bits, { stream with counter := stream.counter + 1, pending := rest })
      | [] => (0, stream)

/-- The next `count` values of a generator. -/
def take {α : Type} (generate : RandomStream → α × RandomStream) :
    (count : Nat) → RandomStream → List α × RandomStream
  | 0, stream => ([], stream)
  | count + 1, stream =>
      let (value, stream) := generate stream
      let (values, stream) := take generate count stream
      (value :: values, stream)

end RandomStream

end EconModel
