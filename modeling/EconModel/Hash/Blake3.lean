import EconModel.Hash.Square
import EconModel.Hash.Word

/-!
# BLAKE3

The BLAKE3 hash function with an output of 32 bytes.  The input is cut into chunks of 1024 bytes,
each chunk is compressed block by block, and the chaining values of the chunks are combined in
pairs until one node is left.
-/

namespace EconModel

namespace Hash

namespace Blake3

def initialWords : Vector UInt32 8 :=
  #v[0x6A09E667, 0xBB67AE85, 0x3C6EF372, 0xA54FF53A, 0x510E527F, 0x9B05688C, 0x1F83D9AB, 0x5BE0CD19]

/-- The order in which a round takes over the message words of the round before. -/
def permutation : Vector Nat 16 := #v[2, 6, 3, 10, 7, 0, 4, 13, 1, 11, 12, 5, 9, 14, 15, 8]

/-- Mark of the first block of a chunk. -/
def chunkStart : UInt32 := 1

/-- Mark of the last block of a chunk. -/
def chunkEnd : UInt32 := 2

/-- Mark of a node above the chunks. -/
def parent : UInt32 := 4

/-- Mark of the last node. -/
def root : UInt32 := 8

/-- Mix two message words into four words of the state. -/
def mix (x y : UInt32) (quarter : Quarter) : Quarter :=
  let a := quarter.first + quarter.second + x
  let d := rotateRight (quarter.fourth ^^^ a) 16
  let c := quarter.third + d
  let b := rotateRight (quarter.second ^^^ c) 12
  let a := a + b + y
  let d := rotateRight (d ^^^ a) 8
  let c := c + d
  let b := rotateRight (b ^^^ c) 7
  ⟨a, b, c, d⟩

/-- One round; every quarter takes in two message words. -/
def round (state : Square) (message : Vector UInt32 16) : Square :=
  state.round fun place => mix message[2 * place.val] message[2 * place.val + 1]

/-- Some rounds, with the message words permuted in between. -/
def rounds : (count : Nat) → (state : Square) → (message : Vector UInt32 16) → Square
  | 0, state, _ => state
  | count + 1, state, message =>
      rounds count (round state message)
        (permutation.map fun position => message.toArray.getD position 0)

/-- A block that waits to be compressed. -/
structure Node where
  /-- The chaining value that goes in. -/
  chaining : Vector UInt32 8
  /-- The message words. -/
  message : Vector UInt32 16
  /-- The number of the chunk. -/
  counter : UInt64
  /-- The number of message bytes. -/
  size : UInt32
  /-- The marks. -/
  flags : UInt32

namespace Node

/-- The chaining value that comes out of a node. -/
def compress (node : Node) : Vector UInt32 8 :=
  let start : Square :=
    node.chaining ++ #v[initialWords[0], initialWords[1], initialWords[2], initialWords[3]] ++
      #v[node.counter.toUInt32, (node.counter >>> 32).toUInt32, node.size, node.flags]
  let state := rounds 7 start node.message
  Vector.ofFn fun (i : Fin 8) => state[i.val] ^^^ state[i.val + 8]

end Node

/-- The message words of a block, filled up with zeros. -/
def messageWords (block : List UInt8) : Vector UInt32 16 :=
  let bytes := block.toArray
  Vector.ofFn fun (i : Fin 16) =>
    UInt32.ofNat <| littleEndian <|
      [bytes.getD (4 * i) 0, bytes.getD (4 * i + 1) 0, bytes.getD (4 * i + 2) 0,
        bytes.getD (4 * i + 3) 0]

/-- The last node of a chunk, whose blocks are given from the current one on. -/
def chunkNode (counter : UInt64) (chaining : Vector UInt32 8) (start : UInt32) :
    List (List UInt8) → Node
  | [] => ⟨chaining, messageWords [], counter, 0, start ||| chunkEnd⟩
  | [block] =>
      ⟨chaining, messageWords block, counter, UInt32.ofNat block.length, start ||| chunkEnd⟩
  | block :: rest =>
      let node : Node :=
        ⟨chaining, messageWords block, counter, UInt32.ofNat block.length, start⟩
      chunkNode counter node.compress 0 rest

/-- The node above two nodes. -/
def parentNode (left right : Node) : Node :=
  ⟨initialWords, left.compress ++ right.compress, 0, 64, parent⟩

/-- Combine neighbours; a node without a neighbour is kept. -/
def pairUp : List Node → List Node
  | left :: right :: rest => parentNode left right :: pairUp rest
  | rest => rest

/-- Combine neighbours until at most one node is left; each time the number of nodes is halved. -/
def combine : (limit : Nat) → List Node → List Node
  | 0, nodes => nodes
  | limit + 1, nodes => if nodes.length ≤ 1 then nodes else combine limit (pairUp nodes)

/-- The nodes of the chunks of an input. -/
def chunkNodes (input : List UInt8) : List Node :=
  let chunks := if input.isEmpty then [[]] else blocks 1024 input
  chunks.zipIdx.map fun (chunk, index) =>
    chunkNode (UInt64.ofNat index) initialWords chunkStart (blocks 64 chunk)

def hash (input : List UInt8) : List UInt8 :=
  match combine 64 (chunkNodes input) with
  | node :: _ =>
      ({ node with flags := node.flags ||| root } : Node).compress.toList.flatMap fun word =>
        littleEndianBytes 4 word.toNat
  | [] => []

end Blake3

end Hash

end EconModel
