import EconModel.Engine.Error
import EconModel.Model.Json
import EconModel.Validation

/-!
# The engine

An engine is a model that has passed all checks, together with the functions it may call and a
configuration.  Nothing of it changes afterwards, so any number of runs can share it.
-/

namespace EconModel

/-- A checked model with its functions and its configuration. -/
structure Engine where
  model : Model
  functions : FunctionRegistry
  config : EngineConfig
  fingerprint : String
  config_valid : config.validate = .ok ()
  model_valid : model.validate functions config.blockLimit = .ok ()
  fingerprint_eq : fingerprint = model.fingerprint

namespace Engine

/-- A model and a configuration without defects, put together. -/
def ofValid (model : Model) (functions : FunctionRegistry) (config : EngineConfig)
    (config_valid : config.validate = .ok ())
    (model_valid : model.validate functions config.blockLimit = .ok ()) : Engine :=
  ⟨model, functions, config, model.fingerprint, config_valid, model_valid, rfl⟩

/-- Check a configuration, then a model, and put them together. -/
def create (model : Model) (functions : FunctionRegistry) (config : EngineConfig) :
    Except EngineError Engine :=
  match config_valid : config.validate with
  | .error defect => .error (.execution (.invalidConfig defect))
  | .ok () =>
      match model_valid : model.validate functions config.blockLimit with
      | .error defect => .error (.invalidModel defect)
      | .ok () => .ok (ofValid model functions config config_valid model_valid)

/-- What does not change during a run with the given parameters and scalars. -/
def environment (engine : Engine) (parameters scalars : Bindings Value) : Environment :=
  ⟨parameters, scalars, engine.functions, engine.config.zeroDivision⟩

end Engine

end EconModel
