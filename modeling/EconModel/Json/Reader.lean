import EconModel.Json.Basic
import EconModel.Decimal.Reading

/-!
# Reading JSON texts

A strict reader for JSON: no comments, no trailing commas, no leading zeros, no raw control
characters, nothing but blanks after the value.  Each function returns what it has read together
with the rest of the text.
-/

namespace EconModel

namespace Json

/-- The characters that may stand between tokens. -/
def isBlank (c : Char) : Bool := c == ' ' || c == '\t' || c == '\n' || c == '\r'

/-- The text without the blanks in front. -/
def skipBlank (text : List Char) : List Char := text.dropWhile isBlank

/-! ## Strings -/

/-- What one place of a string contributes. -/
inductive Piece where
  /-- A whole character. -/
  | scalar (c : Char)
  /-- The upper half of a surrogate pair, less its offset. -/
  | high (bits : Nat)
  /-- The lower half of a surrogate pair, less its offset. -/
  | low (bits : Nat)

/-- The value of a hexadecimal digit. -/
def hexValue? (c : Char) : Option Nat :=
  if c.isDigit then some (c.toNat - '0'.toNat)
  else if 'a' ≤ c ∧ c ≤ 'f' then some (c.toNat - 'a'.toNat + 10)
  else if 'A' ≤ c ∧ c ≤ 'F' then some (c.toNat - 'A'.toNat + 10)
  else none

/-- The piece named by an escape of four hexadecimal digits. -/
def unit? (a b c d : Char) : Option Piece := do
  let unit := (((← hexValue? a) * 16 + (← hexValue? b)) * 16 + (← hexValue? c)) * 16
    + (← hexValue? d)
  if 0xD800 ≤ unit ∧ unit < 0xDC00 then some (.high (unit - 0xD800))
  else if 0xDC00 ≤ unit ∧ unit < 0xE000 then some (.low (unit - 0xDC00))
  else some (.scalar (Char.ofNat unit))

/-- The character named by a one-letter escape. -/
def shortEscape? : Char → Option Char
  | '"' => some '"'
  | '\\' => some '\\'
  | '/' => some '/'
  | 'b' => some '\x08'
  | 'f' => some '\x0c'
  | 'n' => some '\n'
  | 'r' => some '\r'
  | 't' => some '\t'
  | _ => none

/-- The pieces of a string up to its closing quote, collected in front of `before` in reverse. -/
def pieces (before : List Piece) : List Char → Option (List Piece × List Char)
  | [] => none
  | '"' :: rest => some (before.reverse, rest)
  | '\\' :: 'u' :: a :: b :: c :: d :: rest =>
      match unit? a b c d with
      | some piece => pieces (piece :: before) rest
      | none => none
  | '\\' :: letter :: rest =>
      match shortEscape? letter with
      | some c => pieces (.scalar c :: before) rest
      | none => none
  | c :: rest => if c.toNat < 0x20 || c == '\\' then none else pieces (.scalar c :: before) rest

/-- The characters of a string, or nothing where half of a surrogate pair stands alone. -/
def assemble? : List Piece → Option (List Char)
  | [] => some []
  | .scalar c :: rest => (assemble? rest).map (c :: ·)
  | .high high :: .low low :: rest =>
      (assemble? rest).map (Char.ofNat (0x10000 + high * 0x400 + low) :: ·)
  | _ :: _ => none

/-- A string whose opening quote has been read. -/
def string? (text : List Char) : Option (Option String × List Char) :=
  (pieces [] text).map fun (found, rest) => ((assemble? found).map String.ofList, rest)

/-! ## Numbers -/

/-- The digits in front of the point: a single zero, or digits that do not start with zero. -/
def wholeDigits? : List Char → Option (List Char × List Char)
  | '0' :: rest => some (['0'], rest)
  | c :: rest => if c.isDigit then some (Decimal.takeDigits (c :: rest)) else none
  | [] => none

/-- The digits behind a point, if there is one. -/
def fractionDigits? : List Char → Option (Option (List Char) × List Char)
  | '.' :: rest =>
      let (digits, rest) := Decimal.takeDigits rest
      if digits.isEmpty then none else some (some digits, rest)
  | rest => some (none, rest)

/-- The scale behind an exponent mark, if there is one. -/
def scale? : List Char → Option (Option Int × List Char)
  | [] => some (none, [])
  | mark :: rest =>
      if mark = 'e' ∨ mark = 'E' then
        let (negative, rest) := Decimal.takeSign rest
        let (digits, rest) := Decimal.takeDigits rest
        if digits.isEmpty then none
        else
          let size := Decimal.ofDigits digits
          some (some (if negative then -(size : Int) else size), rest)
      else some (none, mark :: rest)

def number? (text : List Char) : Option (Numeral × List Char) := do
  let (negative, rest) :=
    match text with
    | '-' :: rest => (true, rest)
    | rest => (false, rest)
  let (whole, rest) ← wholeDigits? rest
  let (fraction, rest) ← fractionDigits? rest
  let (scale, rest) ← scale? rest
  let places := fraction.getD []
  let value : Decimal :=
    ⟨negative, Decimal.ofDigits (whole ++ places), scale.getD 0 - places.length⟩
  some (⟨value, fraction.isNone && scale.isNone⟩, rest)

/-! ## Values -/

mutual

/-- A value with blanks in front. -/
def value? : Nat → List Char → Option (Json × List Char)
  | 0, _ => none
  | fuel + 1, text =>
      match skipBlank text with
      | 'n' :: 'u' :: 'l' :: 'l' :: rest => some (.null, rest)
      | 't' :: 'r' :: 'u' :: 'e' :: rest => some (.boolean true, rest)
      | 'f' :: 'a' :: 'l' :: 's' :: 'e' :: rest => some (.boolean false, rest)
      | '"' :: rest => (string? rest).map fun (text, rest) => (.string text, rest)
      | '[' :: rest =>
          match skipBlank rest with
          | ']' :: rest => some (.array [], rest)
          | rest => (items? fuel rest).map fun (items, rest) => (.array items, rest)
      | '{' :: rest =>
          match skipBlank rest with
          | '}' :: rest => some (.object [], rest)
          | rest => (members? fuel rest).map fun (members, rest) => (.object members, rest)
      | text => (number? text).map fun (numeral, rest) => (.number numeral, rest)

/-- The items of a nonempty array up to its closing bracket. -/
def items? : Nat → List Char → Option (List Json × List Char)
  | 0, _ => none
  | fuel + 1, text =>
      match value? fuel text with
      | none => none
      | some (item, rest) =>
          match skipBlank rest with
          | ',' :: rest => (items? fuel rest).map fun (items, rest) => (item :: items, rest)
          | ']' :: rest => some ([item], rest)
          | _ => none

/-- The members of a nonempty object up to its closing brace. -/
def members? : Nat → List Char → Option (List (Option String × Json) × List Char)
  | 0, _ => none
  | fuel + 1, text =>
      match skipBlank text with
      | '"' :: rest =>
          match string? rest with
          | none => none
          | some (key, rest) =>
              match skipBlank rest with
              | ':' :: rest =>
                  match value? fuel rest with
                  | none => none
                  | some (value, rest) =>
                      match skipBlank rest with
                      | ',' :: rest =>
                          (members? fuel rest).map fun (members, rest) =>
                            ((key, value) :: members, rest)
                      | '}' :: rest => some ([(key, value)], rest)
                      | _ => none
              | _ => none
      | _ => none

end

/-- The tree of a text that holds one value and blanks.  Two steps per character are enough. -/
def read? (text : String) : Option Json :=
  let chars := text.toList
  match value? (2 * chars.length + 2) chars with
  | some (tree, rest) => if (skipBlank rest).isEmpty then some tree else none
  | none => none

end Json

end EconModel
