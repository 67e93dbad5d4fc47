import EconModel.Decimal.Basic

/-!
# JSON as it is written

A `Json` tree records what a JSON text says before any type is read out of it: the members of an
object in their order and with repetitions, numbers as numerals, and strings that may be unusable
because an escape names half of a character.  Which of these matter is for the reader of the tree to
decide.
-/

namespace EconModel

namespace Json

/-- A number as it is written. -/
structure Numeral where
  /-- Sign, digits and scale. -/
  value : Decimal
  /-- Whether it is written without a point and without an exponent. -/
  whole : Bool
  deriving DecidableEq, Repr

/-- The double that a number denotes, or nothing where it is too large for one. -/
def Numeral.float? (numeral : Numeral) : Option Float :=
  let x := numeral.value.toFloat
  if x.isFinite then some x else none

/-- The machine word that a number denotes: it has no point, no exponent and no minus sign. -/
def Numeral.word? (numeral : Numeral) : Option UInt64 :=
  if numeral.whole && !numeral.value.negative && decide (numeral.value.digits < UInt64.size) then
    some (UInt64.ofNat numeral.value.digits)
  else none

end Json

/-- The syntax tree of a JSON text. -/
inductive Json where
  | null
  | boolean (value : Bool)
  | number (numeral : Json.Numeral)
  /-- A string, or nothing where an escape names a lone surrogate. -/
  | string (text : Option String)
  | array (items : List Json)
  /-- An object with its members in order, repetitions included. -/
  | object (members : List (Option String × Json))

namespace Json

mutual

/-- Whether every number of a tree fits a double, every string and key is usable, and at most
`nesting` containers stand inside one another. -/
def sound : Nat → Json → Bool
  | _, .null => true
  | _, .boolean _ => true
  | _, .number numeral => numeral.float?.isSome
  | _, .string text => text.isSome
  | 0, .array _ => false
  | nesting + 1, .array items => soundItems nesting items
  | 0, .object _ => false
  | nesting + 1, .object members => soundMembers nesting members

/-- `sound` for each item of an array. -/
def soundItems : Nat → List Json → Bool
  | _, [] => true
  | nesting, item :: rest => sound nesting item && soundItems nesting rest

/-- `sound` for each member of an object. -/
def soundMembers : Nat → List (Option String × Json) → Bool
  | _, [] => true
  | nesting, (key, value) :: rest =>
      key.isSome && sound nesting value && soundMembers nesting rest

end

/-- The most containers that may stand inside one another in an accepted text. -/
def nestingLimit : Nat := 127

/-- The members of an object whose keys are all usable. -/
def usableMembers? : List (Option String × Json) → Option (List (String × Json))
  | [] => some []
  | (none, _) :: _ => none
  | (some key, value) :: rest => (usableMembers? rest).map ((key, value) :: ·)

end Json

end EconModel
