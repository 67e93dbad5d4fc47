import EconModel.Json.Basic
import EconModel.Decimal.Layout

/-!
# JSON documents

A `Document` is a JSON value with usable text and with numbers that are machine words or finite
doubles.  It is what the library writes.  A `Data` value is a document whose objects list their keys
in ascending order without repetition; this is the form in which structured values are held.
-/

namespace EconModel

namespace Json

/-- A number of a document.  Whole numbers and doubles stay apart, also where they are equal. -/
inductive Number where
  /-- A whole number that is not negative. -/
  | natural (value : UInt64)
  | negative (value : Int64) (below : value < 0)
  /-- A finite double. -/
  | real (value : Float) (finite : value.isFinite = true)
  deriving DecidableEq

namespace Number

/-- The finite double `x` as a number. -/
def ofFloat? (x : Float) : Option Number :=
  if finite : x.isFinite = true then some (Number.real x finite) else none

/-- The number that a numeral denotes: a whole number where it is written as one and fits a machine
word, else the nearest double. -/
def ofNumeral? (numeral : Numeral) : Option Number :=
  let digits := numeral.value.digits
  if numeral.whole && !numeral.value.negative && decide (digits < UInt64.size) then
    some (.natural (UInt64.ofNat digits))
  else if numeral.whole && numeral.value.negative && decide (digits ≤ Nat.pow 2 63) then
    let value := Int64.ofInt (-(digits : Int))
    if below : value < 0 then some (.negative value below) else ofFloat? numeral.value.toFloat
  else ofFloat? numeral.value.toFloat

/-- Equality of numbers of one kind; doubles are compared as numbers, so the two zeros agree. -/
def same : Number → Number → Bool
  | .natural x, .natural y => x == y
  | .negative x _, .negative y _ => x == y
  | .real x _, .real y _ => x == y
  | _, _ => false

def text : Number → String
  | .natural value => toString value.toNat
  | .negative value _ => toString value.toInt
  | .real value _ =>
      match Binary64.decompose? value with
      | some exact => Decimal.Layout.artifact.renderFinite value exact
      | none => Decimal.specialName value

end Number

/-- A JSON value. -/
inductive Document where
  | null
  | boolean (value : Bool)
  | number (value : Number)
  | text (value : String)
  | list (items : List Document)
  | object (members : List (String × Document))

namespace Document

instance : Inhabited Document := ⟨.null⟩

/-- A word as a value. -/
def word (value : UInt64) : Document := .number (.natural value)

/-- A double as a value; one that is not finite has no numeral and becomes `null`. -/
def float (x : Float) : Document :=
  match Number.ofFloat? x with
  | some value => .number value
  | none => .null

/-! ## Writing -/

/-- How the parts of a document are set apart. -/
inductive Style where
  /-- Nothing between the parts. -/
  | compact
  /-- Every item on a line of its own, indented by two blanks per level. -/
  | indented
  deriving DecidableEq, Repr

namespace Style

/-- What stands in front of an item at a level. -/
def newline : Style → Nat → List Char
  | .compact, _ => []
  | .indented, level => '\n' :: List.replicate (2 * level) ' '

/-- What stands between a key and its value. -/
def colon : Style → List Char
  | .compact => [':']
  | .indented => [':', ' ']

end Style

/-- The hexadecimal digit of a number below sixteen. -/
def hexDigit (value : Nat) : Char := Nat.digitChar value

/-- A character inside quotes.  Only quotes, backslashes and control characters are escaped. -/
def escape (c : Char) : List Char :=
  if c = '"' then ['\\', '"']
  else if c = '\\' then ['\\', '\\']
  else if c = '\x08' then ['\\', 'b']
  else if c = '\x0c' then ['\\', 'f']
  else if c = '\n' then ['\\', 'n']
  else if c = '\r' then ['\\', 'r']
  else if c = '\t' then ['\\', 't']
  else if c.toNat < 0x20 then
    ['\\', 'u', '0', '0', hexDigit (c.toNat / 16), hexDigit (c.toNat % 16)]
  else [c]

/-- A text in quotes. -/
def quote (text : String) : List Char :=
  '"' :: text.toList.flatMap escape ++ ['"']

mutual

/-- The characters of a value that stands at a level. -/
def write (style : Style) (level : Nat) : Document → List Char
  | .null => ['n', 'u', 'l', 'l']
  | .boolean true => ['t', 'r', 'u', 'e']
  | .boolean false => ['f', 'a', 'l', 's', 'e']
  | .number value => value.text.toList
  | .text value => quote value
  | .list items =>
      if items.isEmpty then ['[', ']']
      else '[' :: writeItems style (level + 1) [] items ++ style.newline level ++ [']']
  | .object members =>
      if members.isEmpty then ['{', '}']
      else '{' :: writeMembers style (level + 1) [] members ++ style.newline level ++ ['}']

/-- The items of a list, the first one behind `lead` and every other one behind a comma. -/
def writeItems (style : Style) (level : Nat) (lead : List Char) : List Document → List Char
  | [] => []
  | item :: rest =>
      lead ++ style.newline level ++ write style level item ++ writeItems style level [','] rest

/-- The members of an object, the first one behind `lead` and every other one behind a comma. -/
def writeMembers (style : Style) (level : Nat) (lead : List Char) :
    List (String × Document) → List Char
  | [] => []
  | (key, value) :: rest =>
      lead ++ style.newline level ++ quote key ++ style.colon ++ write style level value ++
        writeMembers style level [','] rest

end

def render (style : Style) (document : Document) : String :=
  String.ofList (document.write style 0)

/-- The text of a document without blanks. -/
def compact (document : Document) : String := document.render .compact

/-- The text of a document with an item a line. -/
def pretty (document : Document) : String := document.render .indented

/-! ## Structured data -/

mutual

/-- Equality of values; numbers are compared by `Number.same`. -/
def same : Document → Document → Bool
  | .null, .null => true
  | .boolean x, .boolean y => x == y
  | .number x, .number y => x.same y
  | .text x, .text y => x == y
  | .list xs, .list ys => sameItems xs ys
  | .object xs, .object ys => sameMembers xs ys
  | _, _ => false

/-- `same` for the items of two lists. -/
def sameItems : List Document → List Document → Bool
  | [], [] => true
  | x :: xs, y :: ys => same x y && sameItems xs ys
  | _, _ => false

/-- `same` for the members of two objects. -/
def sameMembers : List (String × Document) → List (String × Document) → Bool
  | [], [] => true
  | (key, x) :: xs, (other, y) :: ys => key == other && same x y && sameMembers xs ys
  | _, _ => false

end

/-- Put a member into an ascending list of members, replacing one with the same key. -/
def putSorted (key : String) (value : Document) :
    List (String × Document) → List (String × Document)
  | [] => [(key, value)]
  | (other, old) :: rest =>
      if other < key then (other, old) :: putSorted key value rest
      else if other = key then (key, value) :: rest
      else (key, value) :: (other, old) :: rest

mutual

/-- Whether every object of a document lists its keys in ascending order without repetition. -/
def Sorted : Document → Prop
  | .list items => SortedItems items
  | .object members => (members.map Prod.fst).Pairwise (· < ·) ∧ SortedMembers members
  | _ => True

/-- `Sorted` for every item. -/
def SortedItems : List Document → Prop
  | [] => True
  | item :: rest => Sorted item ∧ SortedItems rest

/-- `Sorted` for every member. -/
def SortedMembers : List (String × Document) → Prop
  | [] => True
  | (_, value) :: rest => Sorted value ∧ SortedMembers rest

end

theorem mem_keys_putSorted {key other : String} {value : Document}
    {members : List (String × Document)}
    (member : other ∈ (putSorted key value members).map Prod.fst) :
    other = key ∨ other ∈ members.map Prod.fst := by
  induction members with
  | nil => simpa [putSorted] using member
  | cons entry rest ih =>
      obtain ⟨name, old⟩ := entry
      simp only [putSorted] at member
      split at member
      · simp only [List.map_cons, List.mem_cons] at member ⊢
        rcases member with same | later
        · exact .inr (.inl same)
        · exact (ih later).imp id .inr
      · split at member <;> simp only [List.map_cons, List.mem_cons] at member ⊢
        · exact member.imp id .inr
        · exact member

theorem pairwise_putSorted (key : String) (value : Document) {members : List (String × Document)}
    (ascending : (members.map Prod.fst).Pairwise (· < ·)) :
    ((putSorted key value members).map Prod.fst).Pairwise (· < ·) := by
  induction members with
  | nil => simp [putSorted]
  | cons entry rest ih =>
      obtain ⟨name, old⟩ := entry
      simp only [List.map_cons, List.pairwise_cons] at ascending
      simp only [putSorted]
      split
      · next before =>
        simp only [List.map_cons, List.pairwise_cons]
        refine ⟨fun other member => ?_, ih ascending.2⟩
        rcases mem_keys_putSorted member with rfl | later
        · exact before
        · exact ascending.1 other later
      · next notBefore =>
        split
        · next same =>
          subst same
          simpa using ascending
        · next different =>
          have after : key < name := by
            rcases Std.lt_trichotomy key name with less | equal | greater
            · exact less
            · exact absurd equal.symm different
            · exact absurd greater notBefore
          simp only [List.map_cons, List.pairwise_cons, List.mem_cons, forall_eq_or_imp]
          exact ⟨⟨after, fun other member => String.lt_trans after (ascending.1 other member)⟩,
            ascending⟩

theorem sortedMembers_putSorted (key : String) {value : Document} (value_sorted : value.Sorted)
    {members : List (String × Document)} (members_sorted : SortedMembers members) :
    SortedMembers (putSorted key value members) := by
  induction members with
  | nil => exact ⟨value_sorted, trivial⟩
  | cons entry rest ih =>
      obtain ⟨name, old⟩ := entry
      simp only [putSorted]
      split
      · exact ⟨members_sorted.1, ih members_sorted.2⟩
      · split
        · exact ⟨value_sorted, members_sorted.2⟩
        · exact ⟨value_sorted, members_sorted⟩

/-! ## From a tree -/

mutual

/-- The document that a tree denotes, with the members of every object in ascending order; of a
repeated key the last value counts. -/
def ofJson? : Json → Option Document
  | .null => some .null
  | .boolean value => some (.boolean value)
  | .number numeral => (Number.ofNumeral? numeral).map .number
  | .string value => value.map .text
  | .array items => (ofItems? items).map .list
  | .object members => (ofMembers? [] members).map .object

/-- The documents that the items of an array denote. -/
def ofItems? : List Json → Option (List Document)
  | [] => some []
  | item :: rest =>
      match ofJson? item, ofItems? rest with
      | some item, some rest => some (item :: rest)
      | _, _ => none

/-- The members of an object, put one after the other into an ascending list. -/
def ofMembers? (before : List (String × Document)) :
    List (Option String × Json) → Option (List (String × Document))
  | [] => some before
  | (key, value) :: rest =>
      match key, ofJson? value with
      | some key, some value => ofMembers? (putSorted key value before) rest
      | _, _ => none

end

mutual

theorem sorted_of_ofJson? : ∀ (tree : Json) (document : Document),
    ofJson? tree = some document → document.Sorted
  | .null, _, read => by cases read; trivial
  | .boolean _, _, read => by cases read; trivial
  | .number _, _, read => by
      simp only [ofJson?, Option.map_eq_some_iff] at read
      obtain ⟨_, _, rfl⟩ := read
      trivial
  | .string _, _, read => by
      simp only [ofJson?, Option.map_eq_some_iff] at read
      obtain ⟨_, _, rfl⟩ := read
      trivial
  | .array items, _, read => by
      simp only [ofJson?, Option.map_eq_some_iff] at read
      obtain ⟨documents, documents_eq, rfl⟩ := read
      exact sortedItems_of_ofItems? items documents documents_eq
  | .object members, _, read => by
      simp only [ofJson?, Option.map_eq_some_iff] at read
      obtain ⟨documents, documents_eq, rfl⟩ := read
      exact sortedMembers_of_ofMembers? members [] documents documents_eq (by simp) trivial

theorem sortedItems_of_ofItems? : ∀ (items : List Json) (documents : List Document),
    ofItems? items = some documents → SortedItems documents
  | [], _, read => by cases read; trivial
  | item :: rest, _, read => by
      simp only [ofItems?] at read
      split at read
      · next first others first_eq others_eq =>
        cases read
        exact ⟨sorted_of_ofJson? item first first_eq, sortedItems_of_ofItems? rest others others_eq⟩
      · cases read

theorem sortedMembers_of_ofMembers? : ∀ (members : List (Option String × Json))
    (before documents : List (String × Document)), ofMembers? before members = some documents →
    (before.map Prod.fst).Pairwise (· < ·) → SortedMembers before →
    (documents.map Prod.fst).Pairwise (· < ·) ∧ SortedMembers documents
  | [], _, _, read, ascending, before_sorted => by
      cases read
      exact ⟨ascending, before_sorted⟩
  | (key, value) :: rest, before, documents, read, ascending, before_sorted => by
      simp only [ofMembers?] at read
      split at read
      · next name found found_eq =>
        exact sortedMembers_of_ofMembers? rest _ documents read
          (pairwise_putSorted name found ascending)
          (sortedMembers_putSorted name (sorted_of_ofJson? value found found_eq) before_sorted)
      · cases read

end

end Document

/-- A document whose objects list their keys in ascending order without repetition. -/
structure Data where
  document : Document
  /-- Its objects are in order. -/
  sorted : document.Sorted

/-- The data that a tree denotes. -/
def Data.ofJson? (tree : Json) : Option Data :=
  match read : Document.ofJson? tree with
  | some document => some ⟨document, Document.sorted_of_ofJson? tree document read⟩
  | none => none

end Json

end EconModel
