import EconModel.Distribution
import EconModel.Expr
import EconModel.Value

/-!
# Models

A model declares parameters, equations, constraints, policies and correlations over a horizon of
timesteps.  It is fixed before a run starts and every run reads the same one.
-/

namespace EconModel

/-- A correlation that a parameter declares with another one. -/
structure CorrelationPartner where
  /-- The other parameter. -/
  parameter : String
  coefficient : Float

/-- How a parameter gets its value. -/
inductive ParameterValue where
  /-- The value is given. -/
  | literal (value : Value)
  /-- The value is drawn once per sampled run. -/
  | distribution (marginal : Distribution Float) (pointEstimate : Option Float)
      (partners : List CorrelationPartner)

/-- A parameter of a model. -/
structure Parameter where
  name : String
  /-- Its unit, which has no meaning to the library. -/
  unit : Option String
  /-- How it gets its value. -/
  value : ParameterValue

namespace Parameter

/-- Whether a parameter is drawn in sampled runs. -/
def isStochastic (parameter : Parameter) : Bool :=
  match parameter.value with
  | .literal _ => false
  | .distribution _ _ _ => true

/-- The distribution of a parameter that is drawn. -/
def marginal? (parameter : Parameter) : Option (Distribution Float) :=
  match parameter.value with
  | .literal _ => none
  | .distribution marginal _ _ => some marginal

/-- The correlations that a parameter declares. -/
def partners (parameter : Parameter) : List CorrelationPartner :=
  match parameter.value with
  | .literal _ => []
  | .distribution _ _ partners => partners

/-- The value of a parameter where nothing is drawn: the point estimate, or else the mean. -/
def pointValue (parameter : Parameter) : Value :=
  match parameter.value with
  | .literal value => value
  | .distribution marginal pointEstimate _ => .number (pointEstimate.getD marginal.mean)

end Parameter

/-- A correlation between two parameters, declared by the model. -/
structure CorrelationSpec where
  first : String
  second : String
  coefficient : Float

/-- Which value of a variable an equation defines. -/
inductive EquationKind where
  /-- The value at the first timestep. -/
  | initial
  /-- The value at the current timestep. -/
  | current
  /-- The value at the next timestep. -/
  | recurrence
  /-- A value that does not depend on time. -/
  | scalar
  deriving DecidableEq, Repr

namespace EquationKind

def name : EquationKind → String
  | .initial => "initial"
  | .current => "current"
  | .recurrence => "recurrence"
  | .scalar => "scalar"

/-- Whether equations of a kind define values of a series. -/
def isTimeIndexed : EquationKind → Bool
  | .scalar => false
  | _ => true

/-- The kinds in the order of their declaration. -/
def all : List EquationKind := [.initial, .current, .recurrence, .scalar]

end EquationKind

/-- An equation that defines a variable or a scalar. -/
structure Equation where
  target : String
  /-- Which of its values is defined. -/
  kind : EquationKind
  expr : Expr
  /-- The names on which the equation is declared to depend. -/
  dependencies : List String

namespace Equation

/-- The equation that depends on exactly the names in its expression. -/
def ofExpr (target : String) (kind : EquationKind) (expr : Expr) : Equation :=
  ⟨target, kind, expr, expr.identifiers⟩

/-- The place of an equation in messages. -/
def location (equation : Equation) : String :=
  equation.kind.name ++ " equation '" ++ equation.target ++ "'"

end Equation

/-- What a violated constraint does to a run. -/
inductive Severity where
  /-- It halts the run. -/
  | fatal
  /-- It is recorded. -/
  | warning
  deriving DecidableEq, Repr

namespace Severity

def name : Severity → String
  | .fatal => "fatal"
  | .warning => "warning"

/-- Whether a violation halts the run. -/
def isFatal : Severity → Bool
  | .fatal => true
  | .warning => false

end Severity

/-- A condition that has to hold at every settled timestep. -/
structure Constraint where
  name : String
  condition : Expr
  /-- What a violation does. -/
  severity : Severity
  /-- A text with placeholders for a violation. -/
  message : Option String

/-- The place of the constraint of a name in messages. -/
def Constraint.location (name : String) : String := "constraint '" ++ name ++ "'"

/-- What a policy does when it fires. -/
inductive Action where
  /-- Overwrite the value of a variable at the current timestep. -/
  | assign (target : String) (value : Expr)
  | block (actions : List Action)
  | emit (name : String) (arguments : Bindings Expr)

namespace Action

instance : Inhabited Action := ⟨.block []⟩

mutual

/-- How many blocks stand inside one another. -/
def depth : Action → Nat
  | .block actions => 1 + maxDepth actions
  | _ => 0

/-- The greatest depth among some actions. -/
def maxDepth : List Action → Nat
  | [] => 0
  | action :: rest => max (depth action) (maxDepth rest)

end

mutual

/-- All actions of a tree, every block in front of its members. -/
def nodes : Action → List Action
  | .block actions => .block actions :: nodesOfAll actions
  | leaf => [leaf]

/-- The actions of several trees. -/
def nodesOfAll : List Action → List Action
  | [] => []
  | action :: rest => nodes action ++ nodesOfAll rest

end

end Action

/-- A rule that acts when its trigger holds. -/
structure Policy where
  name : String
  trigger : Expr
  action : Action

/-- The place of the policy of a name in messages. -/
def Policy.location (name : String) : String := "policy '" ++ name ++ "'"

/-- A model. -/
structure Model where
  version : String
  name : String
  /-- The number of timesteps. -/
  horizon : UInt64
  parameters : List Parameter
  equations : List Equation
  constraints : List Constraint
  policies : List Policy
  correlations : List CorrelationSpec

namespace Model

/-- The version of the format that the library writes. -/
def currentVersion : String := "1.0"

/-- The model that declares nothing. -/
def blank (name : String) (horizon : UInt64) : Model :=
  ⟨currentVersion, name, horizon, [], [], [], [], []⟩

/-- The first parameter of a name. -/
def parameter? (model : Model) (name : String) : Option Parameter :=
  model.parameters.find? fun parameter => parameter.name = name

/-- The equations of a kind. -/
def equationsOf (model : Model) (kind : EquationKind) : List Equation :=
  model.equations.filter fun equation => equation.kind = kind

/-- The first occurrences of the names in a list. -/
def firstOccurrences (names : List String) : List String :=
  (names.foldl (fun seen name => if seen.contains name then seen else name :: seen) []).reverse

/-- The variables, in the order of their first equation. -/
def variableNames (model : Model) : List String :=
  firstOccurrences <|
    (model.equations.filter fun equation => equation.kind.isTimeIndexed).map Equation.target

def scalars (model : Model) : List String := (model.equationsOf .scalar).map Equation.target

/-- Whether a variable has an equation of a kind. -/
def hasEquation (model : Model) (target : String) (kind : EquationKind) : Bool :=
  model.equations.any fun equation => equation.kind = kind && equation.target = target

/-- Whether a parameter is drawn in sampled runs. -/
def isStochastic (model : Model) : Bool := model.parameters.any Parameter.isStochastic

/-- The parameters that are drawn, with their distributions. -/
def stochasticParameters (model : Model) : List (String × Distribution Float) :=
  model.parameters.filterMap fun parameter =>
    parameter.marginal?.map fun marginal => (parameter.name, marginal)

/-- The value of every parameter where nothing is drawn. -/
def pointValues (model : Model) : Bindings Value :=
  Bindings.ofList <| model.parameters.map fun parameter => (parameter.name, parameter.pointValue)

end Model

end EconModel
