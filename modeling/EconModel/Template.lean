import EconModel.Decimal.Layout
import EconModel.Evaluation

/-!
# Message templates

A template is a text with placeholders: names in braces.  It is cut into pieces in one pass from the
left, and every placeholder is then replaced by the value of its name.  What is put in is not
scanned again, and a placeholder whose name has no value stays as it is written.
-/

namespace EconModel

namespace Template

/-! ## Pieces -/

/-- Whether a name may start with a character. -/
def isNameStart (c : Char) : Bool := c.isAlpha || c = '_'

/-- Whether a character may stand in a name. -/
def isNameChar (c : Char) : Bool := c.isAlphanum || c = '_'

/-- The name in a placeholder at the front of a text, and what follows the placeholder. -/
def placeholder? : List Char → Option (List Char × List Char)
  | '{' :: start :: text =>
      if isNameStart start then
        match text.dropWhile isNameChar with
        | '}' :: rest => some (start :: text.takeWhile isNameChar, rest)
        | _ => none
      else none
  | _ => none

theorem length_dropWhile_le {α : Type} (test : α → Bool) (entries : List α) :
    (entries.dropWhile test).length ≤ entries.length :=
  (List.dropWhile_sublist test).length_le

theorem length_lt_of_placeholder? {text name rest : List Char}
    (found : placeholder? text = some (name, rest)) : rest.length < text.length := by
  unfold placeholder? at found
  split at found
  · next start text =>
    split at found
    · split at found
      · next rest' drop_eq =>
        cases found
        have bound := length_dropWhile_le isNameChar text
        simp only [drop_eq, List.length_cons] at bound ⊢
        omega
      · cases found
    · cases found
  · cases found

/-- A piece of a template. -/
inductive Piece where
  /-- A character that stands for itself. -/
  | character (c : Char)
  /-- A name in braces. -/
  | placeholder (name : List Char)
  deriving DecidableEq, Repr

/-- The text of a piece as it is written. -/
def Piece.source : Piece → List Char
  | .character c => [c]
  | .placeholder name => '{' :: name ++ ['}']

/-- Cut a template into pieces, from the left. -/
def pieces : List Char → List Piece
  | [] => []
  | c :: text =>
      match _found : placeholder? (c :: text) with
      | some (name, rest) => .placeholder name :: pieces rest
      | none => .character c :: pieces text
termination_by text => text.length
decreasing_by
  · exact length_lt_of_placeholder? _found
  · simp

theorem source_of_placeholder? {text name rest : List Char}
    (found : placeholder? text = some (name, rest)) :
    text = (Piece.placeholder name).source ++ rest := by
  unfold placeholder? at found
  split at found
  · next start text =>
    split at found
    · split at found
      · next rest' drop_eq =>
        cases found
        have whole := List.takeWhile_append_dropWhile (p := isNameChar) (l := text)
        rw [drop_eq] at whole
        simp [Piece.source, whole]
      · cases found
    · cases found
  · cases found

/-- The pieces of a template make up the template. -/
theorem flatMap_source_pieces (text : List Char) : (pieces text).flatMap Piece.source = text := by
  induction text using pieces.induct with
  | case1 => simp [pieces]
  | case2 c text name rest found ih =>
      rw [pieces, found]
      simp only [List.flatMap_cons, ih]
      exact (source_of_placeholder? found).symm
  | case3 c text found ih =>
      rw [pieces, found]
      simp [Piece.source, ih]

/-- The text of a piece, where `resolve` gives the values of names. -/
def Piece.fill (resolve : String → Option String) : Piece → List Char
  | .character c => [c]
  | .placeholder name =>
      match resolve (String.ofList name) with
      | some value => value.toList
      | none => (Piece.placeholder name).source

/-- A template with values put in for its names. -/
def fill (resolve : String → Option String) (template : String) : String :=
  String.ofList <| (pieces template.toList).flatMap (Piece.fill resolve)

/-! ## Values of names -/

/-- A number in a message: without places where it is whole and moderate, else with two places. -/
def number (x : Float) : String :=
  if Binary64.isWhole x && decide (x.abs < 1e15) then Decimal.fixed 0 x else Decimal.fixed 2 x

/-- A value in a message. -/
def value : Value → String
  | .number x => number x
  | other => other.display

end Template

namespace Context

/-- The text of a name in a message: `t` is the timestep, other names stand for their values. -/
def templateValue? (context : Context) (name : String) : Option String :=
  if name = "t" then some (toString context.timestep)
  else
    match context.resolve name with
    | .ok value => some (Template.value value)
    | .error _ => none

/-- A template with the values of a context put in. -/
def render (context : Context) (template : String) : String :=
  Template.fill context.templateValue? template

end Context

end EconModel
