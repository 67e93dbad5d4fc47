import EconModel.Json.Basic
import EconModel.Bindings

/-!
# Decoders

A decoder reads a value of some type out of a JSON tree.  It knows how many containers may still be
entered, and whether the tree has been read ahead.  A tree that has not been read ahead is examined
only where a field asks for it: what an unknown member holds is skipped.  A tagged object has to be
read ahead as a whole, because its tag may come last; everything below it is then known to be sound.
-/

namespace EconModel

namespace Json

/-- A reader of values of type `α`.  Its arguments are whether the tree has been read ahead and how
many containers may be entered. -/
abbrev Decoder (α : Type) := (ahead : Bool) → (nesting : Nat) → Json → Option α

namespace Decoder

variable {α β : Type}

/-! ## Single values -/

def text : Decoder String
  | _, _, .string value => value
  | _, _, _ => none

def boolean : Decoder Bool
  | _, _, .boolean value => some value
  | _, _, _ => none

/-- A finite double, written as any number. -/
def float : Decoder Float
  | _, _, .number numeral => numeral.float?
  | _, _, _ => none

/-- A machine word, written as a whole number. -/
def word : Decoder UInt64
  | _, _, .number numeral => numeral.word?
  | _, _, _ => none

/-- A value or `null`. -/
def nullable (decode : Decoder α) : Decoder (Option α)
  | _, _, .null => some none
  | ahead, nesting, tree => (decode ahead nesting tree).map some

/-- The values that a decoder yields, changed by a function. -/
def map (f : α → β) (decode : Decoder α) : Decoder β :=
  fun ahead nesting tree => (decode ahead nesting tree).map f

/-- A decoder for a tree that is read ahead as a whole. -/
def readAhead (decode : Nat → Json → Option α) : Decoder α := fun ahead nesting tree =>
  if ahead || tree.sound nesting then decode nesting tree else none

/-! ## Containers -/

def list (decode : Decoder α) : Decoder (List α)
  | ahead, nesting + 1, .array items => items.mapM (decode ahead nesting)
  | _, _, _ => none

/-- Named values; of a repeated name the first position and the last value remain. -/
def table (decode : Decoder α) : Decoder (Bindings α)
  | ahead, nesting + 1, .object members => do
      let members ← usableMembers? members
      let pairs ← members.mapM fun (name, tree) =>
        (decode ahead nesting tree).map (name, ·)
      some (Bindings.ofList pairs)
  | _, _, _ => none

/-- The fields of a record that are present, with what their decoders need. -/
structure Fields where
  /-- The trees of the fields that are present. -/
  present : List (String × Json)
  /-- Whether they have been read ahead. -/
  ahead : Bool
  /-- How many containers may be entered inside a field. -/
  nesting : Nat

namespace Fields

/-- A field that has to be present. -/
def required (fields : Fields) (name : String) (decode : Decoder α) : Option α :=
  match Bindings.find? name fields.present with
  | some tree => decode fields.ahead fields.nesting tree
  | none => none

/-- A field that has a value of its own where it is absent. -/
def optional (fields : Fields) (name : String) (absent : α) (decode : Decoder α) : Option α :=
  match Bindings.find? name fields.present with
  | some tree => decode fields.ahead fields.nesting tree
  | none => some absent

end Fields

/-- The members that are fields, unless one of them is repeated. -/
def presentFields? (names : List String) (members : List (String × Json)) :
    Option (List (String × Json)) :=
  let known := members.filter fun member => names.contains member.1
  if (known.map Prod.fst).Nodup then some known else none

/-- A record with the given field names.  It is an object that may have further members, or an array
of the leading fields in order. -/
def record (names : List String) (build : Fields → Option α) : Decoder α
  | ahead, nesting + 1, .object members => do
      let members ← usableMembers? members
      let present ← presentFields? names members
      build ⟨present, ahead, nesting⟩
  | ahead, nesting + 1, .array items =>
      if items.length ≤ names.length then build ⟨names.zip items, ahead, nesting⟩ else none
  | _, _, _ => none

/-! ## Choices -/

/-- One of several names.  A name is written as a text, or as an object with the name as its only
key and nothing as its value: `null`, or also an empty object where the tree has been read ahead. -/
def choice (names : List (String × α)) : Decoder α
  | _, _, .string (some name) => Bindings.find? name names
  | _, _ + 1, .object [(some name, .null)] => Bindings.find? name names
  | true, _ + 1, .object [(some name, .object [])] => Bindings.find? name names
  | _, _, _ => none

/-- The tag of a tagged value and what stands beside it.  The tag is the member with the given key,
which must not be repeated, or the first item of an array. -/
def splitTag? (key : String) : Json → Option (Json × Json)
  | .object members =>
      match members.filter fun member => member.1 = some key with
      | [(_, tag)] => some (tag, .object (members.filter fun member => member.1 ≠ some key))
      | _ => none
  | .array (tag :: rest) => some (tag, .array rest)
  | _ => none

/-- The variant that a tag selects: by its name, or by its position where the tree has been read
ahead. -/
def select? (ahead : Bool) (variants : List (String × α)) : Json → Option α
  | .string (some name) => Bindings.find? name variants
  | .number numeral =>
      if ahead then
        match numeral.word? with
        | some position => (variants[position.toNat]?).map Prod.snd
        | none => none
      else none
  | _ => none

/-- One of several variants, selected by a tag. -/
def tagged (key : String) (variants : List (String × Decoder α)) : Decoder α :=
  fun ahead nesting tree =>
    if ahead || tree.sound nesting then
      match splitTag? key tree with
      | some (tag, rest) =>
          match select? ahead variants tag with
          | some decode => decode true nesting rest
          | none => none
      | none => none
    else none

/-- A variant without fields. -/
def unit (value : α) : Decoder α
  | _, _, .object _ => some value
  | _, _, .array [] => some value
  | _, _, _ => none

end Decoder

/-- Decode a text that holds one value. -/
def decodeTree? {α : Type} (decode : Decoder α) (tree : Json) : Option α :=
  decode false nestingLimit tree

end Json

end EconModel
