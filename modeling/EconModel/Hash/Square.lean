/-!
# Squares of words

The state of some hash functions and ciphers is a square of sixteen words.  A round mixes the four
words of every column and then the four words of every diagonal; what mixing four words means is
left to the function or cipher.
-/

namespace EconModel

namespace Hash

/-- Four words of a square, one of each row. -/
structure Quarter where
  first : UInt32
  second : UInt32
  third : UInt32
  fourth : UInt32

/-- A square of sixteen words, row by row. -/
abbrev Square := Vector UInt32 16

namespace Square

/-- Put what `mix` makes of four words in the place of these words. -/
def update (square : Square) (a b c d : Fin 16) (mix : Quarter → Quarter) : Square :=
  let mixed := mix ⟨square[a], square[b], square[c], square[d]⟩
  (((square.set a mixed.first).set b mixed.second).set c mixed.third).set d mixed.fourth

/-- One round: the columns, then the diagonals.  The eight quarters are numbered in this order. -/
def round (mix : Fin 8 → Quarter → Quarter) (square : Square) : Square :=
  let square := square.update 0 4 8 12 (mix 0)
  let square := square.update 1 5 9 13 (mix 1)
  let square := square.update 2 6 10 14 (mix 2)
  let square := square.update 3 7 11 15 (mix 3)
  let square := square.update 0 5 10 15 (mix 4)
  let square := square.update 1 6 11 12 (mix 5)
  let square := square.update 2 7 8 13 (mix 6)
  square.update 3 4 9 14 (mix 7)

end Square

end Hash

end EconModel
