import EconModel.Json.Decoder
import EconModel.Json.Document

/-!
# Values

A value is what a parameter, a variable or an event argument holds.  `undefined` marks a place that
has not been computed, or could not be; it differs from every computed value.  In JSON a value is
written without a tag, so numbers, truth values, texts and `null` stand for themselves and anything
else is structured data.
-/

namespace EconModel

/-- A value held by a parameter, a variable or an event argument. -/
inductive Value where
  | number (value : Float)
  | boolean (value : Bool)
  | text (value : String)
  /-- The mark of a value that is missing. -/
  | undefined
  /-- Data that the library carries along without looking inside. -/
  | structured (data : Json.Data)

namespace Value

instance : Inhabited Value := ⟨.undefined⟩

def number? : Value → Option Float
  | .number value => some value
  | _ => none

def boolean? : Value → Option Bool
  | .boolean value => some value
  | _ => none

def text? : Value → Option String
  | .text value => some value
  | _ => none

/-- Whether a value is missing. -/
def isUndefined : Value → Bool
  | .undefined => true
  | _ => false

/-- The number that a value counts as in statistics; a truth value counts as zero or one. -/
def numeric? : Value → Option Float
  | .number value => some value
  | .boolean true => some 1.0
  | .boolean false => some 0.0
  | _ => none

/-- The name of the kind of a value. -/
def typeName : Value → String
  | .number _ => "number"
  | .boolean _ => "bool"
  | .text _ => "text"
  | .undefined => "undefined"
  | .structured _ => "structured"

/-- The text of a value inside a message. -/
def display : Value → String
  | .number value => Decimal.prose value
  | .boolean value => if value then "true" else "false"
  | .text value => value
  | .undefined => "undefined"
  | .structured data => data.document.compact

/-- Equality of values as expressions see it: numbers are compared as numbers, so the undefined
double differs from itself and the two zeros agree. -/
def same : Value → Value → Bool
  | .number x, .number y => x == y
  | .boolean x, .boolean y => x == y
  | .text x, .text y => x == y
  | .undefined, .undefined => true
  | .structured x, .structured y => x.document.same y.document
  | _, _ => false

/-! ## JSON -/

def toDocument : Value → Json.Document
  | .number value => .float value
  | .boolean value => .boolean value
  | .text value => .text value
  | .undefined => .null
  | .structured data => data.document

/-- The value that a tree denotes. -/
def ofJson? : Json → Option Value
  | .null => some .undefined
  | .boolean value => some (.boolean value)
  | .number numeral => numeral.float?.map .number
  | .string value => value.map .text
  | tree => (Json.Data.ofJson? tree).map .structured

/-- Read a value; its tree is read ahead as a whole. -/
def decode : Json.Decoder Value := Json.Decoder.readAhead fun _ tree => ofJson? tree

end Value

end EconModel
