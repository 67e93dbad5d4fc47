import EconModel.Hash.Blake3
import EconModel.Json.Reader
import EconModel.RunResult.Json

/-!
# Models as JSON

How models and their parts are written and read.  A part that is empty or missing is left out where
reading supplies it again.  The text of a model without blanks also gives it a fingerprint.
-/

namespace EconModel

open Json (Decoder Document)

/-! ## Parameters -/

namespace CorrelationPartner

def toDocument (partner : CorrelationPartner) : Document :=
  .object [("parameter", .text partner.parameter), ("coefficient", .float partner.coefficient)]

def decode : Decoder CorrelationPartner :=
  Decoder.record ["parameter", "coefficient"] fun fields => do
    some {
      parameter := ← fields.required "parameter" Decoder.text
      coefficient := ← fields.required "coefficient" Decoder.float }

end CorrelationPartner

namespace ParameterValue

/-- The document of the value of a parameter. -/
def toDocument : ParameterValue → Document
  | .literal value => .object [("type", .text "literal"), ("value", value.toDocument)]
  | .distribution marginal pointEstimate partners =>
      .object <|
        [("type", .text "distribution"), ("distribution", marginal.toDocument)] ++
        Document.present "point_estimate" (pointEstimate.map .float) ++
        (if partners.isEmpty then []
          else [("correlated_with", .list (partners.map CorrelationPartner.toDocument))])

def decode : Decoder ParameterValue :=
  Decoder.tagged "type"
    [("literal", Decoder.record ["value"] fun fields => do
        some (.literal (← fields.required "value" Value.decode))),
      ("distribution", Decoder.record ["distribution", "point_estimate", "correlated_with"]
        fun fields => do
          some (.distribution (← fields.required "distribution" Distribution.decode)
            (← fields.optional "point_estimate" none (Decoder.nullable Decoder.float))
            (← fields.optional "correlated_with" [] (Decoder.list CorrelationPartner.decode))))]

end ParameterValue

namespace Parameter

def toDocument (parameter : Parameter) : Document :=
  .object <|
    [("name", .text parameter.name)] ++ Document.present "unit" (parameter.unit.map .text) ++
    [("value", parameter.value.toDocument)]

def decode : Decoder Parameter :=
  Decoder.record ["name", "unit", "value"] fun fields => do
    some {
      name := ← fields.required "name" Decoder.text
      unit := ← fields.optional "unit" none (Decoder.nullable Decoder.text)
      value := ← fields.required "value" ParameterValue.decode }

end Parameter

namespace CorrelationSpec

def toDocument (spec : CorrelationSpec) : Document :=
  .object [("a", .text spec.first), ("b", .text spec.second),
    ("coefficient", .float spec.coefficient)]

def decode : Decoder CorrelationSpec :=
  Decoder.record ["a", "b", "coefficient"] fun fields => do
    some {
      first := ← fields.required "a" Decoder.text
      second := ← fields.required "b" Decoder.text
      coefficient := ← fields.required "coefficient" Decoder.float }

end CorrelationSpec

/-! ## Equations and constraints -/

namespace EquationKind

def byName : List (String × EquationKind) := all.map fun kind => (kind.name, kind)

end EquationKind

namespace Equation

def toDocument (equation : Equation) : Document :=
  .object [("variable", .text equation.target), ("kind", .text equation.kind.name),
    ("expr", equation.expr.toDocument), ("dependencies", .list (equation.dependencies.map .text))]

def decode : Decoder Equation :=
  Decoder.record ["variable", "kind", "expr", "dependencies"] fun fields => do
    some {
      target := ← fields.required "variable" Decoder.text
      kind := ← fields.required "kind" (Decoder.choice EquationKind.byName)
      expr := ← fields.required "expr" Expr.decode
      dependencies := ← fields.optional "dependencies" [] (Decoder.list Decoder.text) }

end Equation

namespace Constraint

def toDocument (constraint : Constraint) : Document :=
  .object <|
    [("name", .text constraint.name), ("condition", constraint.condition.toDocument),
      ("severity", .text constraint.severity.name)] ++
    Document.present "message" (constraint.message.map .text)

def decode : Decoder Constraint :=
  Decoder.record ["name", "condition", "severity", "message"] fun fields => do
    some {
      name := ← fields.required "name" Decoder.text
      condition := ← fields.required "condition" Expr.decode
      severity := ← fields.optional "severity" .warning (Decoder.choice Severity.byName)
      message := ← fields.optional "message" none (Decoder.nullable Decoder.text) }

end Constraint

/-! ## Policies -/

namespace Action

mutual

def toDocument : Action → Document
  | .assign target value =>
      .object [("type", .text "assign"), ("target", .text target), ("value", value.toDocument)]
  | .block actions => .object [("type", .text "block"), ("actions", .list (toDocuments actions))]
  | .emit name arguments =>
      .object [("type", .text "emit_event"), ("name", .text name),
        ("args", .table Expr.toDocument arguments)]

def toDocuments : List Action → List Document
  | [] => []
  | action :: rest => toDocument action :: toDocuments rest

end

/-- The variants of an action under their tags, for a given reader of nested actions. -/
def variants (nested : Decoder Action) : List (String × Decoder Action) :=
  [("assign", Decoder.record ["target", "value"] fun fields => do
      some (.assign (← fields.required "target" Decoder.text)
        (← fields.required "value" Expr.decode))),
    ("block", Decoder.record ["actions"] fun fields => do
      some (.block (← fields.required "actions" (Decoder.list nested)))),
    ("emit_event", Decoder.record ["name", "args"] fun fields => do
      some (.emit (← fields.required "name" Decoder.text)
        (← fields.optional "args" .empty (Decoder.table Expr.decode))))]

/-- Read an action with at most `depth` actions inside one another. -/
def decodeWithin : (depth : Nat) → Decoder Action
  | 0 => fun _ _ _ => none
  | depth + 1 => Decoder.tagged "type" (variants (decodeWithin depth))

/-- Read an action.  Every action is a container, so there are no more of them inside one another
than containers may be entered. -/
def decode : Decoder Action := fun ahead nesting tree => decodeWithin nesting ahead nesting tree

end Action

namespace Policy

def toDocument (policy : Policy) : Document :=
  .object [("name", .text policy.name), ("trigger", policy.trigger.toDocument),
    ("action", policy.action.toDocument)]

def decode : Decoder Policy :=
  Decoder.record ["name", "trigger", "action"] fun fields => do
    some {
      name := ← fields.required "name" Decoder.text
      trigger := ← fields.required "trigger" Expr.decode
      action := ← fields.required "action" Action.decode }

end Policy

/-! ## Models -/

namespace Model

def toDocument (model : Model) : Document :=
  .object <|
    [("version", .text model.version), ("name", .text model.name),
      ("horizon", .word model.horizon),
      ("parameters", .list (model.parameters.map Parameter.toDocument)),
      ("equations", .list (model.equations.map Equation.toDocument)),
      ("constraints", .list (model.constraints.map Constraint.toDocument)),
      ("policies", .list (model.policies.map Policy.toDocument))] ++
    (if model.correlations.isEmpty then []
      else [("correlations", .list (model.correlations.map CorrelationSpec.toDocument))])

def decode : Decoder Model :=
  Decoder.record ["version", "name", "horizon", "parameters", "equations", "constraints",
      "policies", "correlations"] fun fields => do
    some {
      version := ← fields.optional "version" currentVersion Decoder.text
      name := ← fields.required "name" Decoder.text
      horizon := ← fields.required "horizon" Decoder.word
      parameters := ← fields.optional "parameters" [] (Decoder.list Parameter.decode)
      equations := ← fields.optional "equations" [] (Decoder.list Equation.decode)
      constraints := ← fields.optional "constraints" [] (Decoder.list Constraint.decode)
      policies := ← fields.optional "policies" [] (Decoder.list Policy.decode)
      correlations := ← fields.optional "correlations" [] (Decoder.list CorrelationSpec.decode) }

/-- The text of a model without blanks. -/
def compactText (model : Model) : String := model.toDocument.compact

/-- The text of a model with an item a line. -/
def text (model : Model) : String := model.toDocument.pretty

def ofTree? (tree : Json) : Option Model := Json.decodeTree? decode tree

def ofText? (text : String) : Option Model := (Json.read? text).bind ofTree?

/-- The fingerprint of a model, a hash of its text without blanks. -/
def fingerprint (model : Model) : String :=
  Hash.hex (Hash.Blake3.hash model.compactText.toUTF8.toList)

end Model

end EconModel
