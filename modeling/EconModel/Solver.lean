import EconModel.EvalError
import EconModel.Model

/-!
# Resolution of equations

Equations that depend on one another are resolved by repeated passes.  A pass tries every equation
that is not yet resolved, in order; one that fails is deferred to the next pass.  The passes end
when everything is resolved, when a pass resolves nothing, or at a limit.
-/

namespace EconModel

/-- What the passes came to. -/
structure Resolution where
  /-- The number of passes. -/
  iterations : Nat
  /-- The equations that stayed unresolved, each with its last failure. -/
  unresolved : Bindings EvalError

namespace Resolution

/-- Whether every equation was resolved. -/
def isConverged (resolution : Resolution) : Bool := resolution.unresolved.isEmpty

end Resolution

namespace Solver

variable {σ : Type}

/-- An attempt at an equation: it changes a state and succeeds or fails. -/
abbrev Step (σ : Type) := Equation → σ → Except EvalError Unit × σ

/-- One pass over some equations.  The result lists those that failed, with their failures. -/
def pass (step : Step σ) : List Equation → σ → List (Equation × EvalError) × σ
  | [], state => ([], state)
  | equation :: rest, state =>
      match step equation state with
      | (.ok (), state) => pass step rest state
      | (.error error, state) =>
          let (failed, state) := pass step rest state
          ((equation, error) :: failed, state)

/-- The failures of a pass under the names of the variables. -/
def failures (failed : List (Equation × EvalError)) : Bindings EvalError :=
  Bindings.ofList <| failed.map fun (equation, error) => (equation.target, error)

/-- At most `limit` further passes, after `iterations` passes of which the last one left the
failures `last`. -/
def passes (step : Step σ) (limit iterations : Nat) (last : Bindings EvalError)
    (pending : List Equation) (state : σ) : Resolution × σ :=
  match limit with
  | 0 => (⟨iterations, last⟩, state)
  | limit + 1 =>
      if pending.isEmpty then (⟨iterations, last⟩, state)
      else
        let (failed, state) := pass step pending state
        if failed.length = pending.length then (⟨iterations + 1, failures failed⟩, state)
        else passes step limit (iterations + 1) (failures failed) (failed.map Prod.fst) state

/-- Resolve equations by at most `limit` passes. -/
def solve (step : Step σ) (limit : Nat) (pending : List Equation) (state : σ) : Resolution × σ :=
  passes step limit 0 .empty pending state

end Solver

end EconModel
