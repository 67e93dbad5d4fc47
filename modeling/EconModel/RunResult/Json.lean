import EconModel.RunResult

/-!
# Results of runs as JSON

How the records of a run and its result are written and read.  Fields without a value are left out,
and so is an empty table of scalars.
-/

namespace EconModel

open Json (Decoder Document)

namespace Json

namespace Document

/-- The member of a field that may be left out. -/
def present (name : String) (value : Option Document) : List (String × Document) :=
  match value with
  | some value => [(name, value)]
  | none => []

def table {α : Type} (entry : α → Document) (values : Bindings α) : Document :=
  .object (values.entries.map fun (name, value) => (name, entry value))

end Document

end Json

/-! ## Records of the log -/

namespace Severity

def byName : List (String × Severity) :=
  [Severity.fatal, .warning].map fun severity => (severity.name, severity)

end Severity

namespace Violation

def toDocument (violation : Violation) : Document :=
  .object <|
    [("timestep", .word violation.timestep), ("constraint", .text violation.constraint),
      ("severity", .text violation.severity.name)] ++
    Document.present "message" (violation.message.map .text) ++
    Document.present "actual_value" (violation.shortfall.actual.map .float) ++
    Document.present "expected_value" (violation.shortfall.expected.map .float) ++
    Document.present "operator" (violation.shortfall.operator.map .text) ++
    Document.present "violation_amount" (violation.shortfall.amount.map .float)

def decode : Decoder Violation :=
  Decoder.record ["timestep", "constraint", "severity", "message", "actual_value",
      "expected_value", "operator", "violation_amount"] fun fields => do
    some {
      timestep := ← fields.required "timestep" Decoder.word
      constraint := ← fields.required "constraint" Decoder.text
      severity := ← fields.required "severity" (Decoder.choice Severity.byName)
      message := ← fields.optional "message" none (Decoder.nullable Decoder.text)
      shortfall := {
        actual := ← fields.optional "actual_value" none (Decoder.nullable Decoder.float)
        expected := ← fields.optional "expected_value" none (Decoder.nullable Decoder.float)
        operator := ← fields.optional "operator" none (Decoder.nullable Decoder.text)
        amount := ← fields.optional "violation_amount" none (Decoder.nullable Decoder.float) } }

end Violation

namespace EmittedEvent

def toDocument (event : EmittedEvent) : Document :=
  .object [("name", .text event.name), ("args", .table Value.toDocument event.arguments),
    ("timestep", .word event.timestep), ("policy", .text event.policy)]

def decode : Decoder EmittedEvent :=
  Decoder.record ["name", "args", "timestep", "policy"] fun fields => do
    some {
      name := ← fields.required "name" Decoder.text
      arguments := ← fields.required "args" (Decoder.table Value.decode)
      timestep := ← fields.required "timestep" Decoder.word
      policy := ← fields.required "policy" Decoder.text }

end EmittedEvent

namespace PolicyFiring

def toDocument (firing : PolicyFiring) : Document :=
  .object [("policy", .text firing.policy), ("timestep", .word firing.timestep)]

def decode : Decoder PolicyFiring :=
  Decoder.record ["policy", "timestep"] fun fields => do
    some {
      policy := ← fields.required "policy" Decoder.text
      timestep := ← fields.required "timestep" Decoder.word }

end PolicyFiring

namespace Diagnostic

/-- The document of a diagnostic with a tag, a timestep and further texts. -/
def tagged (tag : String) (timestep : UInt64) (texts : List (String × String)) : Document :=
  .object <| [("type", .text tag), ("timestep", .word timestep)] ++
    texts.map fun (name, value) => (name, .text value)

def toDocument : Diagnostic → Document
  | .convergence warning =>
      .object [("type", .text "convergence"), ("timestep", .word warning.timestep),
        ("iterations", .word warning.iterations),
        ("unresolved", .table Document.text warning.unresolved)]
  | .divisionByZero timestep location =>
      tagged "division_by_zero" timestep [("context", location)]
  | .recurrenceFailed timestep target reason =>
      tagged "recurrence_failed" timestep [("variable", target), ("reason", reason)]
  | .constraintSkipped timestep constraint reason =>
      tagged "constraint_skipped" timestep [("constraint", constraint), ("reason", reason)]
  | .policyFailed timestep policy reason =>
      tagged "policy_failed" timestep [("policy", policy), ("reason", reason)]

/-- Read a diagnostic with a reason; `subject` names the field of what failed. -/
def decodeFailure (subject : String) (build : UInt64 → String → String → Diagnostic) :
    Decoder Diagnostic :=
  Decoder.record ["timestep", subject, "reason"] fun fields => do
    some (build (← fields.required "timestep" Decoder.word)
      (← fields.required subject Decoder.text) (← fields.required "reason" Decoder.text))

def decode : Decoder Diagnostic :=
  Decoder.tagged "type"
    [("convergence", Decoder.record ["timestep", "iterations", "unresolved"] fun fields => do
        some (.convergence {
          timestep := ← fields.required "timestep" Decoder.word
          iterations := ← fields.required "iterations" Decoder.word
          unresolved := ← fields.required "unresolved" (Decoder.table Decoder.text) })),
      ("division_by_zero", Decoder.record ["timestep", "context"] fun fields => do
        some (.divisionByZero (← fields.required "timestep" Decoder.word)
          (← fields.required "context" Decoder.text))),
      ("recurrence_failed", decodeFailure "variable" .recurrenceFailed),
      ("constraint_skipped", decodeFailure "constraint" .constraintSkipped),
      ("policy_failed", decodeFailure "policy" .policyFailed)]

end Diagnostic

/-! ## The result -/

namespace RunMetadata

/-- The document of the identity of a run. -/
def toDocument (metadata : RunMetadata) : Document :=
  .object <|
    [("run_id", metadata.id.toDocument), ("model_name", .text metadata.modelName),
      ("model_fingerprint", .text metadata.fingerprint), ("seed", .word metadata.seed)] ++
    Document.present "run_index" (metadata.index.map .word) ++
    [("horizon", .word metadata.horizon)]

/-- Read the identity of a run. -/
def decode : Decoder RunMetadata :=
  Decoder.record ["run_id", "model_name", "model_fingerprint", "seed", "run_index", "horizon"]
      fun fields => do
    some {
      id := ← fields.required "run_id" RunId.decode
      modelName := ← fields.required "model_name" Decoder.text
      fingerprint := ← fields.required "model_fingerprint" Decoder.text
      seed := ← fields.required "seed" Decoder.word
      index := ← fields.optional "run_index" none (Decoder.nullable Decoder.word)
      horizon := ← fields.required "horizon" Decoder.word }

end RunMetadata

namespace RunStatus

def toDocument : RunStatus → Document
  | .completed => .object [("status", .text "completed")]
  | .halted timestep => .object [("status", .text "halted_fatal"), ("timestep", .word timestep)]

def decode : Decoder RunStatus :=
  Decoder.tagged "status"
    [("completed", Decoder.unit .completed),
      ("halted_fatal", Decoder.record ["timestep"] fun fields => do
        some (.halted (← fields.required "timestep" Decoder.word)))]

end RunStatus

namespace RunResult

def toDocument (result : RunResult) : Document :=
  .object <|
    [("metadata", result.metadata.toDocument), ("status", result.status.toDocument),
      ("parameters", .table Value.toDocument result.parameters)] ++
    (if result.scalars.isEmpty then []
      else [("scalars", .table Value.toDocument result.scalars)]) ++
    [("series", .table (fun values => .list (values.map Value.toDocument)) result.series),
      ("violations", .list (result.log.violations.map Violation.toDocument)),
      ("events", .list (result.log.events.map EmittedEvent.toDocument)),
      ("firings", .list (result.log.firings.map PolicyFiring.toDocument)),
      ("diagnostics", .list (result.log.diagnostics.map Diagnostic.toDocument))]

def decode : Decoder RunResult :=
  Decoder.record ["metadata", "status", "parameters", "scalars", "series", "violations", "events",
      "firings", "diagnostics"] fun fields => do
    some {
      metadata := ← fields.required "metadata" RunMetadata.decode
      status := ← fields.required "status" RunStatus.decode
      parameters := ← fields.required "parameters" (Decoder.table Value.decode)
      scalars := ← fields.optional "scalars" .empty (Decoder.table Value.decode)
      series := ← fields.required "series" (Decoder.table (Decoder.list Value.decode))
      log := {
        violations := ← fields.required "violations" (Decoder.list Violation.decode)
        events := ← fields.required "events" (Decoder.list EmittedEvent.decode)
        firings := ← fields.required "firings" (Decoder.list PolicyFiring.decode)
        diagnostics := ← fields.required "diagnostics" (Decoder.list Diagnostic.decode) } }

def text (result : RunResult) : String := result.toDocument.pretty

end RunResult

end EconModel
