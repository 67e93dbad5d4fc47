import EconModel.Bindings
import EconModel.Scalar
import EconModel.EvalError
import EconModel.Value

/-!
# Functions

Expressions call functions by name.  A `FunctionRegistry` says which names can be called and what a
call yields; a `Catalogue` is a registry made of a list of functions, and `Catalogue.standard` holds
the functions every model may rely on.
-/

namespace EconModel

/-- What an expression needs to know about functions. -/
structure FunctionRegistry where
  /-- Whether a name can be called. -/
  contains : String → Bool
  call : String → List Value → Except EvalError Value

/-- A function of evaluated arguments; a failure is described by a text. -/
abbrev NativeFunction := List Value → Except String Value

/-- Functions under their names. -/
abbrev Catalogue := Bindings NativeFunction

namespace Catalogue

/-- The registry that knows exactly the functions of a catalogue. -/
def toRegistry (catalogue : Catalogue) : FunctionRegistry where
  contains := catalogue.contains
  call name arguments :=
    match catalogue.get? name with
    | none => .error (.unknownFunction name)
    | some apply =>
        match apply arguments with
        | .ok value => .ok value
        | .error reason => .error (.callFailed name reason)

/-! ## Arguments -/

/-- The finite number that an argument is. -/
def number (function : String) (argument : Value) : Except String Float :=
  match argument with
  | .number x =>
      if x.isFinite then .ok x
      else .error (function ++ " expects finite numbers, got " ++ Decimal.prose x)
  | other => .error (function ++ " expects numbers, got " ++ other.typeName)

/-- The finite numbers that the arguments are; there have to be `count` of them. -/
def numbers (function : String) (count : Nat) (arguments : List Value) :
    Except String (Vector Float count) :=
  if size_eq : arguments.length = count then
    (⟨arguments.toArray, by simpa using size_eq⟩ : Vector Value count).mapM (number function)
  else
    .error (function ++ " expects " ++ toString count ++ " argument(s), got " ++
      toString arguments.length)

/-- Apply a function of one number. -/
def unary (name : String) (f : Float → Except String Float) : NativeFunction := fun arguments => do
  let xs ← numbers name 1 arguments
  return .number (← f xs[0])

/-- Apply a function of two numbers. -/
def binary (name : String) (f : Float → Float → Except String Float) : NativeFunction :=
  fun arguments => do
    let xs ← numbers name 2 arguments
    return .number (← f xs[0] xs[1])

/-- Apply a function of three numbers. -/
def ternary (name : String) (f : Float → Float → Float → Except String Float) : NativeFunction :=
  fun arguments => do
    let xs ← numbers name 3 arguments
    return .number (← f xs[0] xs[1] xs[2])

/-- Apply a function of any number of numbers, but of one at least. -/
def variadic (name : String) (f : List Float → Float) : NativeFunction := fun arguments =>
  if arguments.isEmpty then .error (name ++ " expects at least one argument")
  else do return .number (f (← arguments.mapM (number name)))

/-! ## The standard functions -/

/-- The power of a number with a natural exponent by repeated squaring, `bits` squarings at most;
`result` collects the factors. -/
def powerBySquaring (bits : Nat) (base result : Float) (exponent : Nat) : Float :=
  match bits with
  | 0 => result
  | bits + 1 =>
      let result := if exponent % 2 = 1 then result * base else result
      if exponent / 2 = 0 then result
      else powerBySquaring bits (base * base) result (exponent / 2)

/-- The power of ten with a whole exponent; a negative one gives a reciprocal. -/
def powerOfTen (exponent : Int32) : Float :=
  let size := powerBySquaring 32 10.0 1.0 exponent.toInt.natAbs
  if exponent < 0 then 1.0 / size else size

/-- Round to a number of decimal places, which is truncated to a whole number. -/
def roundTo (x places : Float) : Float :=
  let scale := powerOfTen places.toInt32
  (x * scale).round / scale

/-- Refuse a number that fails a test. -/
def guarded (refuses : Float → Bool) (reason : String) (f : Float → Float) (x : Float) :
    Except String Float :=
  if refuses x then .error (reason ++ Decimal.prose x) else .ok (f x)

/-- Restrict a number to an interval. -/
def clamp (x low high : Float) : Except String Float :=
  if high < low then
    .error ("clamp bounds inverted: " ++ Decimal.prose low ++ " > " ++ Decimal.prose high)
  else .ok (Scalar.clamp x low high)

/-- Round to a whole number, or with a second argument to a number of places. -/
def round (name : String) : NativeFunction := fun arguments =>
  if arguments.length = 1 then unary name (fun x => .ok x.round) arguments
  else binary name (fun x places => .ok (roundTo x places)) arguments

/-- A function under its name; the function knows the name for its error texts. -/
def named (name : String) (apply : String → NativeFunction) : String × NativeFunction :=
  (name, apply name)

/-- The functions every model may rely on. -/
def standard : Catalogue :=
  Bindings.ofList
    [named "abs" (unary · fun x => .ok x.abs),
      named "floor" (unary · fun x => .ok x.floor),
      named "ceil" (unary · fun x => .ok x.ceil),
      named "exp" (unary · fun x => .ok x.exp),
      named "sqrt" (unary · (guarded (· < 0.0) "sqrt of negative number " Float.sqrt)),
      named "ln" (unary · (guarded (· ≤ 0.0) "ln of non-positive number " Float.log)),
      named "log10" (unary · (guarded (· ≤ 0.0) "log10 of non-positive number " Float.log10)),
      named "pow" (binary · fun base exponent => .ok (base.pow exponent)),
      named "round" round,
      named "clamp" (ternary · clamp),
      named "min" (variadic · fun xs =>
        xs.foldl (fun least x => if x < least then x else least) Binary64.infinity),
      named "max" (variadic · fun xs =>
        xs.foldl (fun greatest x => if greatest < x then x else greatest) (-Binary64.infinity)),
      named "sum" (variadic · Scalar.sum),
      named "mean" (variadic · fun xs => Scalar.sum xs / Float.ofNat xs.length),
      named "compound" (binary · fun rate periods => .ok ((1.0 + rate).pow periods)),
      named "discount" (ternary · fun value rate periods =>
        .ok (value / (1.0 + rate).pow periods))]

end Catalogue

end EconModel
