import EconModel.Random.Stream
import EconModel.Random.Ziggurat

/-!
# Standard normal draws

Draws from the standard normal distribution by the ziggurat method.  A draw picks a layer and a
point in it and keeps the point if it lies under the density, else it starts over.  About one
attempt in a hundred fails, so a limit on the number of attempts is never felt.
-/

namespace EconModel

namespace RandomStream

open Ziggurat

/-- The number of attempts after which a draw gives up and yields zero. -/
def attemptLimit : Nat := 4096

/-- The next double in the interval from zero, included, to one. -/
def nextUnit (stream : RandomStream) : Float × RandomStream :=
  let (bits, stream) := stream.next
  ((bits >>> 11).toFloat * Float.ofBits 0x3CA0000000000000, stream)

/-- The next double strictly between zero and one. -/
def nextOpen (stream : RandomStream) : Float × RandomStream :=
  let (bits, stream) := stream.next
  let shifted := Float.ofBits (bits >>> 12 ||| 0x3FF0000000000000)
  (shifted - Float.ofBits 0x3FEFFFFFFFFFFFFF, stream)

/-- A draw from the tail, on the side that the sign of `u` tells. -/
def nextTail (u : Float) : (limit : Nat) → RandomStream → Float × RandomStream
  | 0, stream => (0.0, stream)
  | limit + 1, stream =>
      let (first, stream) := stream.nextOpen
      let (second, stream) := stream.nextOpen
      let x := first.log / tailStart
      let y := second.log
      if -2.0 * y < x * x then nextTail u limit stream
      else (if u < 0.0 then x - tailStart else tailStart - x, stream)

/-- One attempt at a draw. -/
def attempt (stream : RandomStream) : Option Float × RandomStream :=
  let (bits, stream) := stream.next
  let layer := (bits &&& 0xFF).toNat
  let u := Float.ofBits (bits >>> 12 ||| 0x4000000000000000) - 3.0
  let x := u * edges.getD layer 0.0
  if x.abs < edges.getD (layer + 1) 0.0 then (some x, stream)
  else if layer = 0 then
    let (draw, stream) := nextTail u attemptLimit stream
    (some draw, stream)
  else
    let (height, stream) := stream.nextUnit
    let low := densities.getD (layer + 1) 0.0
    if low + (densities.getD layer 0.0 - low) * height < (-x * x / 2.0).exp then (some x, stream)
    else (none, stream)

/-- The first of at most `limit` attempts that succeeds. -/
def firstDraw : (limit : Nat) → RandomStream → Float × RandomStream
  | 0, stream => (0.0, stream)
  | limit + 1, stream =>
      match stream.attempt with
      | (some draw, stream) => (draw, stream)
      | (none, stream) => firstDraw limit stream

/-- The next draw from the standard normal distribution. -/
def nextNormal (stream : RandomStream) : Float × RandomStream := firstDraw attemptLimit stream

end RandomStream

end EconModel
