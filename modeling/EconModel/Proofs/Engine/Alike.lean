import EconModel.Proofs.Engine.Failure
import EconModel.Proofs.Engine.Undefined

/-!
# Engines that act alike

Constraints and the horizon have no part in how a timestep is resolved, nor in what its policies and
recurrences do.  Two engines that differ in nothing else fail alike, and while both go on they come
to the same positions.
-/

namespace EconModel

namespace Engine

/-- Two engines act alike: they agree on everything but constraints and horizon. -/
structure Alike (engine other : Engine) : Prop where
  equations_eq : other.model.equations = engine.model.equations
  policies_eq : other.model.policies = engine.model.policies
  functions_eq : other.functions = engine.functions
  config_eq : other.config = engine.config

namespace Alike

variable {engine other : Engine} (alike : Alike engine other)

include alike

/-! ## What is the same -/

theorem hasEquation_eq : other.model.hasEquation = engine.model.hasEquation := by
  funext target kind
  rw [Model.hasEquation, Model.hasEquation, alike.equations_eq]

theorem equationsOf_eq : other.model.equationsOf = engine.model.equationsOf := by
  funext kind
  rw [Model.equationsOf, Model.equationsOf, alike.equations_eq]

theorem variableNames_eq : other.model.variableNames = engine.model.variableNames := by
  rw [Model.variableNames, Model.variableNames, alike.equations_eq]

theorem unhidden {scalars : Bindings Value} (unhidden : engine.Unhidden scalars) :
    other.Unhidden scalars := by
  rw [Unhidden, alike.variableNames_eq]
  exact unhidden

theorem environment_eq : other.environment = engine.environment := by
  funext parameters scalars
  rw [environment, environment, alike.functions_eq, alike.config_eq]

theorem start_eq : other.start = engine.start := by
  rw [start, start, alike.variableNames_eq]

theorem startingLimit_eq : other.startingLimit = engine.startingLimit := by
  funext pending
  rw [startingLimit, startingLimit, alike.config_eq]

theorem solveScalars_eq : other.solveScalars = engine.solveScalars := by
  funext parameters
  have step_eq : other.scalarStep parameters = engine.scalarStep parameters := by
    funext equation entry
    rw [scalarStep, scalarStep, alike.environment_eq]
  rw [solveScalars, solveScalars, step_eq, alike.startingLimit_eq, alike.equationsOf_eq]

theorem startingEquations_eq : startingEquations other.model = startingEquations engine.model := by
  rw [startingEquations, startingEquations, alike.hasEquation_eq, alike.equations_eq]

theorem pendingAt_eq : other.pendingAt = engine.pendingAt := by
  funext timestep
  rw [pendingAt, pendingAt, alike.startingEquations_eq, alike.equationsOf_eq]

theorem limitAt_eq : other.limitAt = engine.limitAt := by
  funext timestep
  rw [limitAt, limitAt, alike.startingEquations_eq, alike.startingLimit_eq, alike.config_eq]

theorem openedAt_eq : other.openedAt = engine.openedAt := by
  have seed_eq : other.seed = engine.seed := by
    funext timestep next name previous
    rw [seed, seed, alike.hasEquation_eq]
  funext position
  rw [openedAt, openedAt, opened, opened, seed_eq]

theorem resolveAt_eq : other.resolveAt = engine.resolveAt := by
  funext environment timestep before
  rw [resolveAt, resolveAt, alike.limitAt_eq, alike.pendingAt_eq]

theorem solveAt_eq : other.solveAt = engine.solveAt := by
  funext environment timestep before
  rw [Engine.solveAt_eq, Engine.solveAt_eq, missingInitials, missingInitials, alike.resolveAt_eq,
    alike.hasEquation_eq]

theorem settledAt_eq : other.settledAt = engine.settledAt := by
  funext environment timestep before
  rw [settledAt, settledAt, alike.resolveAt_eq]

theorem settledContext_eq : other.settledContext = engine.settledContext := by
  funext environment position
  rw [settledContext, settledContext, alike.settledAt_eq, alike.openedAt_eq]

theorem effectAt_eq : other.effectAt = engine.effectAt := by
  funext environment timestep before
  rw [effectAt, effectAt, policySetting, policySetting, alike.config_eq, alike.policies_eq,
    alike.settledAt_eq]

theorem recurrencesAt_eq : other.recurrencesAt = engine.recurrencesAt := by
  funext environment timestep isLast before
  rw [recurrencesAt, recurrencesAt, alike.effectAt_eq, alike.equationsOf_eq]

theorem firedAssignment_eq : other.FiredAssignment = engine.FiredAssignment := by
  funext log timestep name
  rw [FiredAssignment, FiredAssignment, alike.policies_eq]

/-- A run that is not stopped from outside fails with the same error. -/
theorem run_eq_error_iff (parameters : Bindings Value) (seed : UInt64) (index : Option UInt64)
    (error : EngineError) :
    engine.run parameters seed index .uninterrupted = .error error ↔
      other.run parameters seed index .uninterrupted = .error error := by
  rw [Engine.run_eq_error_iff, Engine.run_eq_error_iff, prepare, prepare, alike.solveScalars_eq,
    alike.environment_eq, alike.solveAt_eq, alike.openedAt_eq, alike.start_eq]

/-! ## Two runs -/

variable {environment : Environment} {checkpoint checkpoint' : Checkpoint} {position : Position}
  {outcome outcome' : StepOutcome}

theorem state_eq (does : engine.Does environment checkpoint position outcome)
    (does' : other.Does environment checkpoint' position outcome')
    (proceeding : outcome.halted = false) (proceeding' : outcome'.halted = false) :
    outcome.state = outcome'.state := by
  rw [state_of_proceeding does proceeding, state_of_proceeding does' proceeding',
    alike.effectAt_eq, alike.openedAt_eq]

theorem next_eq (does : engine.Does environment checkpoint position outcome)
    (does' : other.Does environment checkpoint' position outcome')
    (proceeding : outcome.halted = false) (proceeding' : outcome'.halted = false)
    (isLast_eq : engine.isLastAt position.timestep = other.isLastAt position.timestep) :
    outcome.next = outcome'.next := by
  rw [Engine.next_eq does proceeding, Engine.next_eq does' proceeding', isLast_eq,
    alike.recurrencesAt_eq, alike.openedAt_eq]

/-- Two runs that begin a timestep are at the same position. -/
theorem position_eq {other_position : Position}
    (path : Relation.ReflTransGen (engine.Advances environment checkpoint) engine.start position)
    (path' : Relation.ReflTransGen (other.Advances environment checkpoint') other.start
      other_position)
    (timestep_eq : position.timestep = other_position.timestep)
    (within : position.timestep < engine.model.horizon.toNat)
    (within' : position.timestep < other.model.horizon.toNat) : position = other_position := by
  induction path generalizing other_position with
  | refl =>
      cases path' with
      | refl => exact alike.start_eq.symm
      | tail _ advances =>
          obtain ⟨_, _, _, rfl⟩ := advances
          cases timestep_eq
  | @tail earlier _ _ advances ih =>
      obtain ⟨outcome, does, proceeding, rfl⟩ := advances
      cases path' with
      | refl => cases timestep_eq
      | tail path_before advances' =>
          obtain ⟨outcome', does', proceeding', rfl⟩ := advances'
          obtain rfl := ih path_before (Nat.succ.inj timestep_eq) (Nat.lt_of_succ_lt within)
            (Nat.lt_of_succ_lt within')
          have isLast_eq : engine.isLastAt earlier.timestep = other.isLastAt earlier.timestep := by
            change earlier.timestep + 1 < _ at within within'
            rw [isLastAt, isLastAt, beq_eq_false_iff_ne.mpr (Nat.ne_of_lt within),
              beq_eq_false_iff_ne.mpr (Nat.ne_of_lt within')]
          rw [alike.state_eq does does' proceeding proceeding',
            alike.next_eq does does' proceeding proceeding' isLast_eq]

end Alike

end Engine

end EconModel
