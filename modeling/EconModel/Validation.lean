import EconModel.Functions
import EconModel.Text.Blank
import EconModel.Validation.Defect

/-!
# Validation of models

A model is checked before it runs: its names, its distributions, the targets of its equations, every
reference in an expression, and the actions of its policies.  The checks have a fixed order and the
first defect is returned.
-/

namespace EconModel

namespace Validation

/-- What a check yields. -/
abbrev Check := Except ModelDefect Unit

/-- The check that fails with a defect, if there is one. -/
def checkNone : Option ModelDefect → Check
  | some defect => .error defect
  | none => .ok ()

/-- Check every entry of a list in order. -/
def checkAll {α : Type} (check : α → Check) : List α → Check
  | [] => .ok ()
  | entry :: rest => do
      check entry
      checkAll check rest

/-! ## Names -/

def checkName (declaration : Declaration) (name : String) : Check :=
  if Text.isBlank name then .error (.emptyName declaration) else .ok ()

/-- Check that names are not blank and differ from one another and from those seen before. -/
def checkDistinct (declaration : Declaration) (seen : List String) : List String → Check
  | [] => .ok ()
  | name :: rest => do
      checkName declaration name
      if seen.contains name then .error (.duplicateName declaration name)
      else checkDistinct declaration (name :: seen) rest

/-! ## References -/

/-- The names that expressions may refer to. -/
structure Scope where
  parameters : List String
  scalars : List String
  variableNames : List String

namespace Scope

/-- Whether a name is declared. -/
def knows (scope : Scope) (name : String) : Bool :=
  scope.parameters.contains name || scope.scalars.contains name || scope.variableNames.contains name

/-- What is wrong with a node of an expression, apart from its operands. -/
def nodeDefect? (scope : Scope) (functions : FunctionRegistry) (location : String) :
    Expr → Option ModelDefect
  | .ident name =>
      if scope.knows name then none else some (.unknownIdentifier location name)
  | .lagged name _ =>
      if scope.variableNames.contains name then none
      else if scope.knows name then some (.notAVariable location name)
      else some (.unknownIdentifier location name)
  | .call function _ =>
      if functions.contains function then none else some (.unknownFunction location function)
  | _ => none

/-- Check every node of an expression. -/
def checkExpr (scope : Scope) (functions : FunctionRegistry) (location : String) (expr : Expr) :
    Check :=
  checkNone (expr.nodes.findSome? (scope.nodeDefect? functions location))

end Scope

/-! ## Equations -/

/-- Whether two equations define the same values. -/
def sameDefinition (left right : Equation) : Bool :=
  left.target = right.target && left.kind = right.kind

/-- Check the targets of equations; `seen` are the equations in front of them. -/
def checkTargets (parameters : List String) (seen : List Equation) : List Equation → Check
  | [] => .ok ()
  | equation :: rest => do
      checkName .variable equation.target
      if parameters.contains equation.target then .error (.nameCollision equation.target)
      else if seen.any (sameDefinition equation) then
        .error (.duplicateEquation equation.target equation.kind)
      else checkTargets parameters (equation :: seen) rest

/-- The first recurrence that has nothing to start from. -/
def unstarted? (model : Model) : Option Equation :=
  model.equations.find? fun equation =>
    equation.kind = .recurrence && !model.hasEquation equation.target .initial &&
      !model.hasEquation equation.target .current

/-- The names that are both scalars and variables. -/
def clashes (model : Model) : List String :=
  (Model.firstOccurrences model.scalars).filter model.variableNames.contains

/-- A way to enumerate a set of names that is given as a list. -/
structure Enumeration where
  /-- The names in the order of the enumeration. -/
  order : List String → List String
  /-- The names stay the same. -/
  perm : ∀ names, (order names).Perm names

/-- The enumeration in the order of declaration. -/
def Enumeration.declared : Enumeration := ⟨id, fun _ => .refl _⟩

/-- Check the targets of all equations.  Of several names that are both a scalar and a variable, the
first one of an enumeration is reported. -/
def checkEquations (enumeration : Enumeration) (model : Model) : Check := do
  checkTargets (model.parameters.map Parameter.name) [] model.equations
  checkNone ((unstarted? model).map fun equation => .missingStartingValue equation.target)
  checkNone ((enumeration.order (clashes model)).head?.map fun name =>
    .duplicateEquation name .scalar)

/-- The names that the expressions of a model may refer to. -/
def scope (model : Model) : Scope :=
  ⟨model.parameters.map Parameter.name, model.scalars, model.variableNames⟩

/-- The first name that an expression refers to at a lag. -/
def laggedName? (expr : Expr) : Option String :=
  expr.nodes.findSome? fun node =>
    match node with
    | .lagged name lag => if 0 < lag then some name else none
    | _ => none

/-- Check the expression of an equation and its declared dependencies. -/
def checkEquation (scope : Scope) (functions : FunctionRegistry) (equation : Equation) : Check := do
  scope.checkExpr functions equation.location equation.expr
  checkNone ((equation.dependencies.find? fun name => !scope.knows name).map fun name =>
    .unknownIdentifier equation.location name)
  if equation.kind = .initial then
    checkNone ((laggedName? equation.expr).map fun name =>
      .laggedInitialReference equation.target name)

def checkConstraint (scope : Scope) (functions : FunctionRegistry) (constraint : Constraint) :
    Check :=
  scope.checkExpr functions (Constraint.location constraint.name) constraint.condition

/-! ## Policies -/

/-- Check an action apart from the actions inside it. -/
def checkAction (scope : Scope) (functions : FunctionRegistry) (policy : String) :
    Action → Check
  | .assign target value =>
      if scope.variableNames.contains target then
        scope.checkExpr functions (Policy.location policy) value
      else .error (.invalidAssignTarget policy target)
  | .emit name arguments => do
      checkName .event name
      checkAll (fun argument =>
        scope.checkExpr functions (Policy.location policy) argument.2) arguments.entries
  | .block _ => .ok ()

/-- Check the trigger and the action of a policy. -/
def checkPolicy (scope : Scope) (functions : FunctionRegistry) (blockLimit : UInt64)
    (policy : Policy) : Check := do
  scope.checkExpr functions (Policy.location policy.name) policy.trigger
  if blockLimit.toNat < policy.action.depth then
    throw (.blockTooDeep policy.name blockLimit)
  checkAll (checkAction scope functions policy.name) policy.action.nodes

def checkParameter (parameter : Parameter) : Check :=
  match parameter.marginal? with
  | none => .ok ()
  | some marginal =>
      match marginal.validate with
      | .ok () => .ok ()
      | .error defect => .error (.invalidDistribution parameter.name defect)

end Validation

namespace Model

open Validation

/-- Check a model; names that are both a scalar and a variable are enumerated as given. -/
def validateBy (enumeration : Enumeration) (model : Model) (functions : FunctionRegistry)
    (blockLimit : UInt64) : Except ModelDefect Unit := do
  if Text.isBlank model.name then throw .emptyModelName
  if model.horizon = 0 then throw .zeroHorizon
  checkDistinct .parameter [] (model.parameters.map Parameter.name)
  checkDistinct .constraint [] (model.constraints.map Constraint.name)
  checkDistinct .policy [] (model.policies.map Policy.name)
  checkAll checkParameter model.parameters
  checkEquations enumeration model
  let names := scope model
  checkAll (checkEquation names functions) model.equations
  checkAll (checkConstraint names functions) model.constraints
  checkAll (checkPolicy names functions blockLimit) model.policies

/-- Check a model against the functions it may call and the depth to which action blocks may be
nested. -/
def validate (model : Model) (functions : FunctionRegistry) (blockLimit : UInt64) :
    Except ModelDefect Unit :=
  model.validateBy .declared functions blockLimit

end Model

end EconModel
