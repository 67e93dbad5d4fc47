import EconModel.Evaluation
import EconModel.Log

/-!
# Running policies

The policies of a model run in order against the open timestep.  An assignment takes effect at once,
so a later policy sees what an earlier one did.  A failing action ends its own policy; what was done
before stays done, and the next policy still runs.
-/

namespace EconModel

namespace Evaluation

variable {α β : Type}

/-- The results of an evaluation for every entry of a list, or the first failure. -/
def forAll (evaluate : α → Evaluation β) : List α → Evaluation (List β)
  | [] => pure []
  | entry :: rest => do
      let value ← evaluate entry
      let values ← forAll evaluate rest
      return value :: values

end Evaluation

namespace Context

/-- The values of the arguments of an event. -/
def evalArguments (context : Context) (arguments : Bindings Expr) :
    Evaluation (Bindings Value) := do
  let pairs ← Evaluation.forAll
    (fun (name, expr) => do return (name, ← context.evalFinite expr)) arguments.entries
  return Bindings.ofList pairs

end Context

/-- What policies change: the state, and what they record. -/
structure PolicyEffect where
  state : SimulationState
  /-- The records of this run of the policies. -/
  log : Log

namespace PolicyEffect

def diagnose (effect : PolicyEffect) (diagnostics : List Diagnostic) : PolicyEffect :=
  { effect with log := { effect.log with
    diagnostics := effect.log.diagnostics ++ diagnostics } }

def emit (effect : PolicyEffect) (event : EmittedEvent) : PolicyEffect :=
  { effect with log := { effect.log with events := effect.log.events ++ [event] } }

def fire (effect : PolicyEffect) (firing : PolicyFiring) : PolicyEffect :=
  { effect with log := { effect.log with firings := effect.log.firings ++ [firing] } }

end PolicyEffect

/-- Where and under which limit policies run. -/
structure PolicySetting where
  environment : Environment
  timestep : Nat
  /-- How many blocks may stand inside one another. -/
  blockLimit : UInt64

namespace PolicySetting

/-- The context in which a state is seen. -/
def context (setting : PolicySetting) (state : SimulationState) : Context :=
  ⟨setting.environment, state, setting.timestep⟩

/-- The timestep as it is recorded. -/
def stamp (setting : PolicySetting) : UInt64 := UInt64.ofNat setting.timestep

/-- Take the result of an evaluation.  A mark is recorded if the evaluation succeeds. -/
def settle {α : Type} (setting : PolicySetting) (policy : String) (evaluation : Evaluation α)
    (effect : PolicyEffect) : Except EvalError α × PolicyEffect :=
  match evaluation.result with
  | .error error => (.error error, effect)
  | .ok value =>
      (.ok value,
        effect.diagnose
          (Diagnostic.ofMark evaluation.dividedByZero setting.stamp (Policy.location policy)))

/-- Perform an assignment. -/
def assign (setting : PolicySetting) (policy target : String) (value : Expr)
    (effect : PolicyEffect) : Except EvalError Unit × PolicyEffect :=
  match setting.settle policy ((setting.context effect.state).evalFinite value) effect with
  | (.error error, effect) => (.error error, effect)
  | (.ok value, effect) =>
      match effect.state.setCurrent target value with
      | .error error => (.error error, effect)
      | .ok state => (.ok (), { effect with state })

def emit (setting : PolicySetting) (policy name : String) (arguments : Bindings Expr)
    (effect : PolicyEffect) : Except EvalError Unit × PolicyEffect :=
  match setting.settle policy ((setting.context effect.state).evalArguments arguments) effect with
  | (.error error, effect) => (.error error, effect)
  | (.ok arguments, effect) => (.ok (), effect.emit ⟨name, arguments, setting.stamp, policy⟩)

mutual

/-- Perform an action that stands inside `depth` blocks. -/
def perform (setting : PolicySetting) (policy : String) (depth : Nat) :
    Action → PolicyEffect → Except EvalError Unit × PolicyEffect
  | .assign target value, effect => setting.assign policy target value effect
  | .emit name arguments, effect => setting.emit policy name arguments effect
  | .block actions, effect =>
      if setting.blockLimit.toNat ≤ depth then
        (.error (.blockDepthExceeded setting.blockLimit), effect)
      else performAll setting policy (depth + 1) actions effect

/-- Perform actions in order up to the first one that fails. -/
def performAll (setting : PolicySetting) (policy : String) (depth : Nat) :
    List Action → PolicyEffect → Except EvalError Unit × PolicyEffect
  | [], effect => (.ok (), effect)
  | action :: rest, effect =>
      match perform setting policy depth action effect with
      | (.ok (), effect) => performAll setting policy depth rest effect
      | (.error error, effect) => (.error error, effect)

end

def runOne (setting : PolicySetting) (effect : PolicyEffect) (policy : Policy) : PolicyEffect :=
  let failed (error : EvalError) (effect : PolicyEffect) : PolicyEffect :=
    effect.diagnose [.policyFailed setting.stamp policy.name error.message]
  let trigger := (setting.context effect.state).evalBoolean policy.trigger
  match setting.settle policy.name trigger effect with
  | (.error error, effect) => failed error effect
  | (.ok false, effect) => effect
  | (.ok true, effect) =>
      let fired := effect.fire ⟨policy.name, setting.stamp⟩
      match setting.perform policy.name 0 policy.action fired with
      | (.ok (), effect) => effect
      | (.error error, effect) => failed error effect

/-- Run policies in order. -/
def run (setting : PolicySetting) (policies : List Policy) (state : SimulationState) :
    PolicyEffect :=
  policies.foldl setting.runOne ⟨state, .empty⟩

end PolicySetting

end EconModel
