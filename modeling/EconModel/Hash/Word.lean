/-!
# Words and bytes

Bytes packed into words in either order, rotation of words, and the cutting of a list into blocks.
-/

namespace EconModel

namespace Hash

def rotateLeft (word count : UInt32) : UInt32 := (word <<< count) ||| (word >>> (32 - count))

def rotateRight (word count : UInt32) : UInt32 := (word >>> count) ||| (word <<< (32 - count))

/-- The number whose base-256 digits are the given bytes, least significant first. -/
def littleEndian (bytes : List UInt8) : Nat :=
  bytes.foldr (fun byte value => byte.toNat + 256 * value) 0

/-- The number whose base-256 digits are the given bytes, most significant first. -/
def bigEndian (bytes : List UInt8) : Nat := littleEndian bytes.reverse

/-- The lowest `count` base-256 digits of a number, least significant first. -/
def littleEndianBytes : (count : Nat) → Nat → List UInt8
  | 0, _ => []
  | count + 1, value => UInt8.ofNat (value % 256) :: littleEndianBytes count (value / 256)

/-- The lowest `count` base-256 digits of a number, most significant first. -/
def bigEndianBytes (count value : Nat) : List UInt8 := (littleEndianBytes count value).reverse

/-- Cut a list into blocks of `size` entries; the last block may be shorter.  `limit` blocks are cut
at most. -/
def blocksUpTo {α : Type} (limit size : Nat) (entries : List α) : List (List α) :=
  match limit with
  | 0 => []
  | limit + 1 =>
      if entries.isEmpty then []
      else entries.take size :: blocksUpTo limit size (entries.drop size)

/-- Cut a list into blocks of `size` entries; the last block may be shorter. -/
def blocks {α : Type} (size : Nat) (entries : List α) : List (List α) :=
  blocksUpTo entries.length size entries

/-- The hexadecimal digits of bytes. -/
def hex (bytes : List UInt8) : String :=
  String.ofList <| bytes.flatMap fun byte =>
    [Nat.digitChar (byte.toNat / 16), Nat.digitChar (byte.toNat % 16)]

end Hash

end EconModel
