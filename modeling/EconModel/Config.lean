import EconModel.Evaluation
import EconModel.RunResult.Json

/-!
# Configuration and requests

An `EngineConfig` sets the limits of a run and the meaning of a zero divisor.  An `ExecutionRequest`
asks for one run without sampling or for a batch of sampled runs.
-/

namespace EconModel

open Json (Decoder Document)

namespace ZeroDivision

def name : ZeroDivision → String
  | .zero => "zero"
  | .warn => "warn"
  | .error => "error"

def byName : List (String × ZeroDivision) :=
  [ZeroDivision.zero, .warn, .error].map fun treatment => (treatment.name, treatment)

end ZeroDivision

/-- The limits of a run and the meaning of a zero divisor. -/
structure EngineConfig where
  /-- How many passes may resolve the equations of a timestep. -/
  passLimit : UInt64
  /-- What a zero divisor does. -/
  zeroDivision : ZeroDivision
  /-- How many action blocks may stand inside one another. -/
  blockLimit : UInt64
  /-- How many milliseconds a run may take. -/
  budget : Option UInt64
  deriving DecidableEq, Repr

/-- The number of action blocks that may stand inside one another unless it is said otherwise. -/
def defaultBlockLimit : UInt64 := 16

/-- A limit of a configuration that is zero. -/
inductive ConfigDefect where
  | noPasses
  | noBlocks
  | noBudget
  deriving DecidableEq, Repr

/-- The text that describes a defect. -/
def ConfigDefect.message : ConfigDefect → String
  | .noPasses => "max_fixed_point_iterations must be > 0"
  | .noBlocks => "max_block_depth must be > 0"
  | .noBudget => "max_run_duration_ms must be > 0"

namespace EngineConfig

/-- The configuration that is used unless it is said otherwise. -/
def default : EngineConfig := ⟨10, .zero, defaultBlockLimit, none⟩

/-- Check that no limit is zero; the first defect is returned. -/
def validate (config : EngineConfig) : Except ConfigDefect Unit :=
  if config.passLimit = 0 then .error .noPasses
  else if config.blockLimit = 0 then .error .noBlocks
  else if config.budget = some 0 then .error .noBudget
  else .ok ()

def toDocument (config : EngineConfig) : Document :=
  .object [("max_fixed_point_iterations", .word config.passLimit),
    ("division_by_zero", .text config.zeroDivision.name),
    ("max_block_depth", .word config.blockLimit),
    ("max_run_duration_ms", (config.budget.map Document.word).getD .null)]

/-- Read a configuration; what is absent is as in the default one. -/
def decode : Decoder EngineConfig :=
  Decoder.record ["max_fixed_point_iterations", "division_by_zero", "max_block_depth",
      "max_run_duration_ms"] fun fields => do
    some {
      passLimit := ← fields.optional "max_fixed_point_iterations" default.passLimit Decoder.word
      zeroDivision := ← fields.optional "division_by_zero" default.zeroDivision
        (Decoder.choice ZeroDivision.byName)
      blockLimit := ← fields.optional "max_block_depth" default.blockLimit Decoder.word
      budget := ← fields.optional "max_run_duration_ms" default.budget
        (Decoder.nullable Decoder.word) }

end EngineConfig

/-- What is to be executed. -/
inductive ExecutionMode where
  /-- One run without sampling. -/
  | deterministic
  | batch (runs : UInt64)
  deriving DecidableEq, Repr

structure ExecutionRequest where
  mode : ExecutionMode
  seed : UInt64
  deriving DecidableEq, Repr

namespace ExecutionRequest

/-- The document of a request; the fields of the mode stand beside the seed. -/
def toDocument (request : ExecutionRequest) : Document :=
  .object <|
    (match request.mode with
      | .deterministic => [("mode", .text "deterministic")]
      | .batch runs => [("mode", .text "monte_carlo"), ("runs", .word runs)]) ++
    [("seed", .word request.seed)]

def decodeMode : Decoder ExecutionMode :=
  Decoder.tagged "mode"
    [("deterministic", Decoder.unit .deterministic),
      ("monte_carlo", Decoder.record ["runs"] fun fields => do
        some (.batch (← fields.required "runs" Decoder.word)))]

/-- The seed among the members of an object, zero where there is none, and the other members. -/
def splitSeed? (members : List (Option String × Json)) :
    Option (UInt64 × List (Option String × Json)) :=
  let others := members.filter fun member => member.1 ≠ some "seed"
  match members.filter fun member => member.1 = some "seed" with
  | [] => some (0, others)
  | [(_, .number numeral)] => numeral.word?.map (·, others)
  | _ => none

/-- Read a request.  It is an object whose other members are those of the mode, so it is read ahead
as a whole. -/
def decode : Decoder ExecutionRequest :=
  Decoder.readAhead fun nesting tree =>
    match tree with
    | .object members => do
        let (seed, others) ← splitSeed? members
        some ⟨← decodeMode true nesting (.object others), seed⟩
    | _ => none

end ExecutionRequest

end EconModel
