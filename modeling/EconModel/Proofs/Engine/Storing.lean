import EconModel.Proofs.Engine.Resolution
import EconModel.Proofs.Solver.Lockstep

/-!
# Attempts that store a value

The attempts at scalars and at the equations of a timestep are of one kind: an equation is evaluated
in a view of a state, its mark is recorded, and its value is written.  What every write keeps holds
after a resolution.
-/

namespace EconModel

namespace Solver

variable {σ : Type} {pending : List Equation} {view : σ → Context}
  {write : Equation → Value → σ → Except EvalError σ}

/-- The attempt that evaluates an equation in a view of a state and writes its value. -/
def storing (view : σ → Context) (write : Equation → Value → σ → Except EvalError σ) :
    Step (σ × List Diagnostic) := fun equation (state, diagnostics) =>
  let evaluation := (view state).evalFinite equation.expr
  match evaluation.result with
  | .error error => (.error error, (state, diagnostics))
  | .ok value =>
      let diagnostics := diagnostics ++
        Diagnostic.ofMark evaluation.dividedByZero (view state).stamp equation.location
      match write equation value state with
      | .error error => (.error error, (state, diagnostics))
      | .ok state => (.ok (), (state, diagnostics))

theorem storing_of_error {equation : Equation} {state : σ} {error : EvalError}
    (failed : ((view state).evalFinite equation.expr).result = .error error)
    (diagnostics : List Diagnostic) :
    storing view write equation (state, diagnostics) = (.error error, (state, diagnostics)) := by
  simp only [storing, failed]

theorem storing_of_ok {equation : Equation} {state : σ} {value : Value}
    (found : ((view state).evalFinite equation.expr).result = .ok value)
    (diagnostics : List Diagnostic) :
    storing view write equation (state, diagnostics) =
      match write equation value state with
      | .error error => (.error error, (state, diagnostics ++ (view state).mark equation))
      | .ok state' => (.ok (), (state', diagnostics ++ (view state).mark equation)) := by
  simp only [storing, found]
  cases write equation value state <;> rfl

/-- Attempts keep what every write keeps. -/
theorem stays_storing {holds : σ → Prop}
    (writes : ∀ equation ∈ pending, ∀ {state next : σ} {value : Value}, holds state →
      ((view state).evalFinite equation.expr).result = .ok value →
        write equation value state = .ok next → holds next) :
    Stays (storing view write) pending fun entry => holds entry.1 := by
  rintro equation member ⟨state, diagnostics⟩ start
  cases evaluated : ((view state).evalFinite equation.expr).result with
  | error error =>
      rw [storing_of_error evaluated]
      exact start
  | ok value =>
      rw [storing_of_ok evaluated]
      cases written : write equation value state with
      | error error => exact start
      | ok next => exact writes equation member start evaluated written

end Solver

namespace Engine

/-- Write the open slot of the variable of an equation. -/
def storeSlot (equation : Equation) (value : Value) (state : SimulationState) :
    Except EvalError SimulationState :=
  state.setCurrent equation.target value

/-- Keep the value of the scalar of an equation. -/
def storeScalar (equation : Equation) (value : Value) (scalars : Bindings Value) :
    Except EvalError (Bindings Value) :=
  .ok (scalars.insert equation.target value)

theorem equationStep_eq (environment : Environment) (timestep : Nat) :
    equationStep environment timestep =
      Solver.storing (environment.view timestep) storeSlot := by
  funext equation ⟨state, diagnostics⟩
  cases evaluated : ((environment.view timestep state).evalFinite equation.expr).result with
  | error error =>
      rw [Solver.storing_of_error evaluated]
      rw [Environment.view] at evaluated
      simp only [equationStep, evaluated]
  | ok value =>
      rw [Solver.storing_of_ok evaluated, storeSlot]
      rw [Environment.view] at evaluated
      simp only [equationStep, evaluated]
      cases state.setCurrent equation.target value <;> rfl

theorem scalarStep_eq (engine : Engine) (parameters : Bindings Value) :
    engine.scalarStep parameters = Solver.storing (engine.scalarView parameters) storeScalar := rfl

end Engine

end EconModel
