import EconModel.Json.Decoder
import EconModel.Json.Document

/-!
# Expressions

Expressions are built from literals, names, operators, conditionals and function calls.  A bare
identifier stands for a parameter, a scalar or a variable at the current timestep; a `lagged` node
names a variable some timesteps back.
-/

namespace EconModel

/-- An operator with one operand. -/
inductive UnaryOp where
  | neg
  | not
  deriving DecidableEq, Repr

/-- The name of an operator with one operand. -/
def UnaryOp.name : UnaryOp → String
  | .neg => "neg"
  | .not => "not"

/-- The operators with one operand under their names. -/
def UnaryOp.byName : List (String × UnaryOp) := [(UnaryOp.neg.name, .neg), (UnaryOp.not.name, .not)]

/-- An operator with two operands. -/
inductive BinaryOp where
  | add
  | sub
  | mul
  | div
  | rem
  | pow
  | lt
  | le
  | gt
  | ge
  | eq
  | ne
  /-- Conjunction, which leaves out its right operand where the left one is false. -/
  | and
  /-- Disjunction, which leaves out its right operand where the left one is true. -/
  | or
  deriving DecidableEq, Repr

namespace BinaryOp

def symbol : BinaryOp → String
  | .add => "+"
  | .sub => "-"
  | .mul => "*"
  | .div => "/"
  | .rem => "%"
  | .pow => "^"
  | .lt => "<"
  | .le => "<="
  | .gt => ">"
  | .ge => ">="
  | .eq => "=="
  | .ne => "!="
  | .and => "&&"
  | .or => "||"

/-- The operators that compare two values. -/
def isComparison : BinaryOp → Bool
  | .lt | .le | .gt | .ge | .eq | .ne => true
  | _ => false

/-- The operators that combine two truth values. -/
def isLogical : BinaryOp → Bool
  | .and | .or => true
  | _ => false

/-- All operators, in the order of their declaration. -/
def all : List BinaryOp :=
  [.add, .sub, .mul, .div, .rem, .pow, .lt, .le, .gt, .ge, .eq, .ne, .and, .or]

/-- The operators under their symbols. -/
def bySymbol : List (String × BinaryOp) := all.map fun op => (op.symbol, op)

end BinaryOp

/-- An expression. -/
inductive Expr where
  | number (value : Float)
  | boolean (value : Bool)
  | text (value : String)
  /-- A parameter, a scalar or a variable at the current timestep. -/
  | ident (name : String)
  /-- A variable `lag` timesteps back. -/
  | lagged (name : String) (lag : UInt64)
  | time
  | unary (op : UnaryOp) (operand : Expr)
  | binary (op : BinaryOp) (left right : Expr)
  /-- One of two expressions, chosen by a condition. -/
  | conditional (condition whenTrue whenFalse : Expr)
  | call (function : String) (arguments : List Expr)

namespace Expr

instance : Inhabited Expr := ⟨.time⟩

mutual

/-- All nodes of an expression, every one in front of its operands. -/
def nodes : Expr → List Expr
  | .unary op operand => .unary op operand :: nodes operand
  | .binary op left right => .binary op left right :: (nodes left ++ nodes right)
  | .conditional condition whenTrue whenFalse =>
      .conditional condition whenTrue whenFalse ::
        (nodes condition ++ nodes whenTrue ++ nodes whenFalse)
  | .call function arguments => .call function arguments :: nodesOfAll arguments
  | leaf => [leaf]

/-- The nodes of several expressions. -/
def nodesOfAll : List Expr → List Expr
  | [] => []
  | expr :: rest => nodes expr ++ nodesOfAll rest

end

/-- The name that a node refers to. -/
def referredName? : Expr → Option String
  | .ident name => some name
  | .lagged name _ => some name
  | _ => none

/-- Put a name into an ascending list of names, unless it is there. -/
def putName (name : String) : List String → List String
  | [] => [name]
  | other :: rest =>
      if other < name then other :: putName name rest
      else if other = name then other :: rest
      else name :: other :: rest

/-- The names that an expression refers to, ascending and without repetition. -/
def identifiers (expr : Expr) : List String :=
  (expr.nodes.filterMap referredName?).foldl (fun names name => putName name names) []

/-! ## JSON -/

mutual

def toDocument : Expr → Json.Document
  | .number value => .object [("kind", .text "number"), ("value", .float value)]
  | .boolean value => .object [("kind", .text "bool"), ("value", .boolean value)]
  | .text value => .object [("kind", .text "text"), ("value", .text value)]
  | .ident name => .object [("kind", .text "ident"), ("name", .text name)]
  | .lagged name lag =>
      .object [("kind", .text "var"), ("name", .text name), ("lag", .word lag)]
  | .time => .object [("kind", .text "time")]
  | .unary op operand =>
      .object [("kind", .text "unary"), ("op", .text op.name), ("operand", toDocument operand)]
  | .binary op left right =>
      .object [("kind", .text "binary"), ("op", .text op.symbol), ("lhs", toDocument left),
        ("rhs", toDocument right)]
  | .conditional condition whenTrue whenFalse =>
      .object [("kind", .text "if"), ("cond", toDocument condition), ("then", toDocument whenTrue),
        ("otherwise", toDocument whenFalse)]
  | .call function arguments =>
      .object [("kind", .text "call"), ("function", .text function),
        ("args", .list (toDocuments arguments))]

/-- The documents of several expressions. -/
def toDocuments : List Expr → List Json.Document
  | [] => []
  | expr :: rest => toDocument expr :: toDocuments rest

end

open Json (Decoder)

/-- The variants of an expression under their tags, for a given reader of operands. -/
def variants (operand : Decoder Expr) : List (String × Decoder Expr) :=
  [("number", Decoder.record ["value"] fun fields => do
      some (.number (← fields.required "value" Decoder.float))),
    ("bool", Decoder.record ["value"] fun fields => do
      some (.boolean (← fields.required "value" Decoder.boolean))),
    ("text", Decoder.record ["value"] fun fields => do
      some (.text (← fields.required "value" Decoder.text))),
    ("ident", Decoder.record ["name"] fun fields => do
      some (.ident (← fields.required "name" Decoder.text))),
    ("var", Decoder.record ["name", "lag"] fun fields => do
      some (.lagged (← fields.required "name" Decoder.text)
        (← fields.optional "lag" 0 Decoder.word))),
    ("time", Decoder.unit .time),
    ("unary", Decoder.record ["op", "operand"] fun fields => do
      some (.unary (← fields.required "op" (Decoder.choice UnaryOp.byName))
        (← fields.required "operand" operand))),
    ("binary", Decoder.record ["op", "lhs", "rhs"] fun fields => do
      some (.binary (← fields.required "op" (Decoder.choice BinaryOp.bySymbol))
        (← fields.required "lhs" operand) (← fields.required "rhs" operand))),
    ("if", Decoder.record ["cond", "then", "otherwise"] fun fields => do
      some (.conditional (← fields.required "cond" operand) (← fields.required "then" operand)
        (← fields.required "otherwise" operand))),
    ("call", Decoder.record ["function", "args"] fun fields => do
      some (.call (← fields.required "function" Decoder.text)
        (← fields.optional "args" [] (Decoder.list operand))))]

/-- Read an expression with at most `depth` expressions inside one another. -/
def decodeWithin : (depth : Nat) → Decoder Expr
  | 0 => fun _ _ _ => none
  | depth + 1 => Decoder.tagged "kind" (variants (decodeWithin depth))

/-- Read an expression.  Every expression is a container, so there are no more of them inside one
another than containers may be entered. -/
def decode : Decoder Expr := fun ahead nesting tree => decodeWithin nesting ahead nesting tree

end Expr

end EconModel
