import EconModel.Sampler
import EconModel.Validation
import EconModel.Config

/-!
# Building models

A model is built up by appending declarations to a blank one.  Two of the operations annotate the
parameter that was added last; they have an effect only if that parameter is stochastic.
-/

namespace EconModel

/-- A model under construction. -/
structure ModelBuilder where
  /-- What has been declared so far. -/
  model : Model

namespace ModelBuilder

def start (name : String) (horizon : UInt64) : ModelBuilder := ⟨.blank name horizon⟩

/-! ## Parameters -/

def withParameter (builder : ModelBuilder) (parameter : Parameter) : ModelBuilder :=
  ⟨{ builder.model with parameters := builder.model.parameters ++ [parameter] }⟩

/-- Add a parameter with a given number. -/
def parameter (builder : ModelBuilder) (name : String) (value : Float) : ModelBuilder :=
  builder.withParameter ⟨name, none, .literal (.number value)⟩

/-- Add a parameter that is drawn. -/
def stochastic (builder : ModelBuilder) (name : String) (marginal : Distribution Float) :
    ModelBuilder :=
  builder.withParameter ⟨name, none, .distribution marginal none []⟩

/-- Change the last entry of a list. -/
def modifyLast {α : Type} (f : α → α) : List α → List α
  | [] => []
  | [entry] => [f entry]
  | entry :: rest => entry :: modifyLast f rest

/-- Change how a parameter is drawn; a parameter that is not drawn stays as it is. -/
def annotate (f : Option Float → List CorrelationPartner → Option Float × List CorrelationPartner)
    (parameter : Parameter) : Parameter :=
  match parameter.value with
  | .literal _ => parameter
  | .distribution marginal pointEstimate partners =>
      let (pointEstimate, partners) := f pointEstimate partners
      { parameter with value := .distribution marginal pointEstimate partners }

/-- Annotate the parameter that was added last. -/
def annotateLast
    (f : Option Float → List CorrelationPartner → Option Float × List CorrelationPartner)
    (builder : ModelBuilder) : ModelBuilder :=
  ⟨{ builder.model with parameters := modifyLast (annotate f) builder.model.parameters }⟩

/-- Set the value that the last parameter has where nothing is drawn. -/
def pointEstimate (builder : ModelBuilder) (value : Float) : ModelBuilder :=
  builder.annotateLast fun _ partners => (some value, partners)

/-- Declare a correlation of the last parameter with another one. -/
def correlatedWith (builder : ModelBuilder) (partner : String) (coefficient : Float) :
    ModelBuilder :=
  builder.annotateLast fun estimate partners => (estimate, partners ++ [⟨partner, coefficient⟩])

/-- Declare a correlation between two parameters. -/
def correlation (builder : ModelBuilder) (first second : String) (coefficient : Float) :
    ModelBuilder :=
  ⟨{ builder.model with
    correlations := builder.model.correlations ++ [⟨first, second, coefficient⟩] }⟩

/-! ## Equations, constraints and policies -/

/-- Add an equation that depends on exactly the names in its expression. -/
def equation (builder : ModelBuilder) (target : String) (kind : EquationKind) (expr : Expr) :
    ModelBuilder :=
  ⟨{ builder.model with
    equations := builder.model.equations ++ [.ofExpr target kind expr] }⟩

def withConstraint (builder : ModelBuilder) (constraint : Constraint) : ModelBuilder :=
  ⟨{ builder.model with constraints := builder.model.constraints ++ [constraint] }⟩

def policy (builder : ModelBuilder) (name : String) (trigger : Expr) (action : Action) :
    ModelBuilder :=
  ⟨{ builder.model with policies := builder.model.policies ++ [⟨name, trigger, action⟩] }⟩

/-! ## The model -/

/-- The model, checked against the functions it may call. -/
def build (builder : ModelBuilder) (functions : FunctionRegistry) : Except ModelDefect Model := do
  builder.model.validate functions defaultBlockLimit
  return builder.model

end ModelBuilder

end EconModel
