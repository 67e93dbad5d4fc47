import EconModel.Proofs.Engine.Failure
import EconModel.Proofs.Solver.Caps

/-!
# The limit of passes

The configured limit can cut the resolution of a later timestep short, and it does so fairly: a
higher one resolves more, and an equation whose rank is within the limit is resolved wherever it
stands.  Scalars and the first timestep are resolved with as many passes as they need, so a run
starts alike under all limits.
-/

namespace EconModel

namespace Engine

/-- Two engines differ at most in how many passes may resolve the equations of a timestep. -/
structure Relimited (engine other : Engine) : Prop where
  model_eq : other.model = engine.model
  functions_eq : other.functions = engine.functions
  config_eq : other.config = { engine.config with passLimit := other.config.passLimit }

namespace Relimited

variable {engine other : Engine} (relimited : Relimited engine other)

include relimited

theorem environment_eq : other.environment = engine.environment := by
  funext parameters scalars
  rw [environment, environment, relimited.functions_eq, relimited.config_eq]

theorem start_eq : other.start = engine.start := by
  rw [start, start, relimited.model_eq]

theorem seed_eq : other.seed = engine.seed := by
  funext timestep next name previous
  rw [seed, seed, relimited.model_eq]

theorem openedAt_eq : other.openedAt = engine.openedAt := by
  funext position
  rw [openedAt, openedAt, opened, opened, relimited.seed_eq]

theorem isLastAt_eq : other.isLastAt = engine.isLastAt := by
  funext timestep
  rw [isLastAt, isLastAt, relimited.model_eq]

/-! ## What is resolved at the start -/

theorem solveScalars_eq : other.solveScalars = engine.solveScalars := by
  funext parameters
  have step_eq : other.scalarStep parameters = engine.scalarStep parameters := by
    funext equation entry
    rw [scalarStep, scalarStep, relimited.environment_eq]
  rw [solveScalars, solveScalars, step_eq, relimited.model_eq,
    Solver.solve_eq_of_length_le _ (other.length_le_startingLimit _)
      (engine.length_le_startingLimit _)]

theorem solveFirst_eq : other.solveFirst = engine.solveFirst := by
  funext environment state
  rw [solveFirst, solveFirst, relimited.model_eq,
    Solver.solve_eq_of_length_le _ (other.length_le_startingLimit _)
      (engine.length_le_startingLimit _)]

theorem solveAt_zero_eq (environment : Environment) (state : SimulationState) :
    other.solveAt environment 0 state = engine.solveAt environment 0 state := by
  rw [solveAt, solveAt, if_pos rfl, if_pos rfl, relimited.solveFirst_eq]

theorem prepare_eq (parameters : Bindings Value) :
    other.prepare parameters = engine.prepare parameters := by
  simp only [prepare, relimited.solveScalars_eq, relimited.environment_eq,
    relimited.solveAt_zero_eq, relimited.openedAt_eq, relimited.start_eq]

theorem run_eq_error_iff (parameters : Bindings Value) (seed : UInt64) (index : Option UInt64)
    (error : EngineError) :
    engine.run parameters seed index .uninterrupted = .error error ↔
      other.run parameters seed index .uninterrupted = .error error := by
  rw [Engine.run_eq_error_iff, Engine.run_eq_error_iff, relimited.prepare_eq]

theorem step_zero_eq (environment : Environment) (isLast : Bool) (state : SimulationState)
    (next : Bindings Value) :
    other.step environment 0 isLast state next = engine.step environment 0 isLast state next := by
  have conclude_eq : other.conclude = engine.conclude := by
    funext environment timestep isLast state log
    rw [conclude, conclude, relimited.model_eq, relimited.config_eq]
  rw [step, step, relimited.seed_eq, relimited.solveAt_zero_eq, relimited.model_eq, conclude_eq]

end Relimited

/-! ## Runs -/

/-- The first timestep of a run gives the first values of the series. -/
theorem Executes.exists_first {engine : Engine} {environment : Environment}
    {checkpoint : Checkpoint} {status : RunStatus} {final : SimulationState} {log : Log}
    (executes : engine.Executes environment checkpoint engine.start status final log)
    (unhidden : engine.Unhidden environment.scalars) :
    ∃ outcome,
      engine.step environment 0 (engine.isLastAt 0) engine.start.state engine.start.next =
          .ok outcome ∧
        ∀ name, final.valueAt? name 0 = outcome.state.valueAt? name 0 := by
  have horizon_ne : engine.model.horizon.toNat ≠ 0 := fun zero =>
    engine.accepted.horizon_ne (UInt64.toNat_inj.mp zero)
  have committed := executes.timestep_lt (Nat.pos_of_ne_zero horizon_ne)
  obtain ⟨position, outcome, stage, timestep_eq⟩ :=
    executes.exists_stage unhidden .refl (Nat.le_refl 0) committed
  obtain rfl := position_unique stage.path .refl timestep_eq
  exact ⟨outcome, stage.does.step_eq, stage.valueAt?_eq⟩

/-- Two runs with the same parameters have the same scalars and the same first values. -/
theorem Relimited.starts_eq {engine other : Engine} (relimited : Relimited engine other)
    {parameters : Bindings Value} {seed seed' : UInt64} {index index' : Option UInt64}
    {checkpoint checkpoint' : Checkpoint} {result result' : RunResult}
    (ran : engine.run parameters seed index checkpoint = .ok result)
    (ran' : other.run parameters seed' index' checkpoint' = .ok result') :
    result.scalars = result'.scalars ∧ ∀ name, result.value? name 0 = result'.value? name 0 := by
  obtain ⟨scalars, marks, final, log, solved, executes, rfl, _, series_eq, _⟩ :=
    exists_executes_of_run ran
  obtain ⟨scalars', marks', final', log', solved', executes', rfl, _, series_eq', _⟩ :=
    exists_executes_of_run ran'
  have unhidden := unhidden_of_solveScalars solved
  have unhidden' := unhidden_of_solveScalars solved'
  obtain ⟨outcome, stepped, first_eq⟩ := executes.exists_first unhidden
  obtain ⟨outcome', stepped', first_eq'⟩ := executes'.exists_first unhidden'
  rw [relimited.solveScalars_eq, solved] at solved'
  obtain ⟨scalars_eq, _⟩ := Prod.mk.inj (Except.ok.inj solved')
  refine ⟨scalars_eq, fun name => ?_⟩
  rw [relimited.step_zero_eq, relimited.environment_eq, relimited.isLastAt_eq, relimited.start_eq,
    ← scalars_eq, stepped] at stepped'
  cases stepped'
  rw [RunResult.value?_eq (executes.rests unhidden engine.rests_initial).closed series_eq,
    RunResult.value?_eq (executes'.rests unhidden' other.rests_initial).closed series_eq',
    first_eq, first_eq']

/-- With another limit of passes a model is accepted too. -/
theorem exists_relimited (engine : Engine) {passLimit : UInt64} (nonzero : passLimit ≠ 0) :
    ∃ other,
      create engine.model engine.functions { engine.config with passLimit } = .ok other ∧
        Relimited engine other := by
  have config_valid : { engine.config with passLimit }.validate = .ok () := by
    have valid := engine.config_valid
    unfold EngineConfig.validate at valid ⊢
    rw [if_neg nonzero]
    split at valid
    · cases valid
    · exact valid
  exact ⟨_, create_eq_ok config_valid engine.model_valid, rfl, rfl, rfl⟩

/-- The limit of passes is fair to the equations of a timestep that are waiting for their values,
and to the scalars.  A run starts alike under all limits: with the same scalars and the same values
at the first timestep, or with the same failure. -/
theorem passLimit_fair (engine : Engine) :
    (∀ environment timestep state pending,
      Place.slots.Ready pending (environment.view timestep state) →
        Solver.FairLimit .slots (environment.view timestep) (equationStep environment timestep)
          pending state) ∧
    (∀ parameters, Solver.FairLimit .scalars (engine.scalarView parameters)
      (engine.scalarStep parameters) (engine.model.equationsOf .scalar) .empty) ∧
    ∀ passLimit, passLimit ≠ 0 → ∃ other,
      create engine.model engine.functions { engine.config with passLimit } = .ok other ∧
        ∀ parameters seed index,
          (∀ error, engine.run parameters seed index .uninterrupted = .error error ↔
            other.run parameters seed index .uninterrupted = .error error) ∧
          ∀ checkpoint checkpoint' result result',
            engine.run parameters seed index checkpoint = .ok result →
            other.run parameters seed index checkpoint' = .ok result' →
              result.scalars = result'.scalars ∧
                ∀ name, result.value? name 0 = result'.value? name 0 := by
  refine ⟨?_, ?_, ?_⟩
  · intro environment timestep state pending ready
    exact (keeps_equationStep environment timestep).fairLimit ready
  · intro parameters
    exact (engine.keeps_scalarStep parameters).fairLimit (engine.ready_scalars parameters)
  · intro passLimit nonzero
    obtain ⟨other, created, relimited⟩ := engine.exists_relimited nonzero
    refine ⟨other, created, fun parameters seed index =>
      ⟨relimited.run_eq_error_iff parameters seed index, ?_⟩⟩
    intro checkpoint checkpoint' result result' ran ran'
    exact relimited.starts_eq ran ran'

/-- The variable at the end of a chain. -/
def relayEnd : Equation := ⟨"end", .current, .ident "middle", []⟩

/-- A chain of variables, declared from its end, so that each pass resolves one of them. -/
def relayModel : Model :=
  { Model.blank "relay" 2 with
    equations := [relayEnd, ⟨"middle", .current, .ident "start", []⟩,
      ⟨"start", .current, .boolean true, []⟩] }

def relayEngine : Engine := .plain relayModel rfl

-- The end of the chain is of rank three, so three passes are enough and one is not; but the first
-- timestep of a run does not depend on this.
theorem passLimit_fair_relay :
    let attempt := equationStep (relayEngine.environment .empty .empty) 0
    let opened := relayEngine.openedAt relayEngine.start
    ¬ Solver.Resolves attempt 1 relayModel.equations (opened, []) relayEnd ∧
      Solver.Resolves attempt 3 relayModel.equations (opened, []) relayEnd ∧
      ∃ other result result',
        create relayModel .empty { relayEngine.config with passLimit := 1 } = .ok other ∧
        relayEngine.run .empty 0 none .uninterrupted = .ok result ∧
        other.run .empty 0 none .uninterrupted = .ok result' ∧
        ∀ name, result.value? name 0 = result'.value? name 0 := by
  obtain ⟨fair, _, starts⟩ := passLimit_fair relayEngine
  obtain ⟨other, created, alike⟩ := starts 1 (by decide)
  obtain ⟨fails_iff, agree⟩ := alike .empty 0 none
  have ready := ready_opened
    (fun _ _ => rfl : relayEngine.Unhidden (relayEngine.environment .empty .empty).scalars)
    relayEngine.rests_initial .empty
  obtain ⟨result, ran⟩ : ∃ result, relayEngine.run .empty 0 none .uninterrupted = .ok result :=
    ⟨_, rfl⟩
  refine ⟨fun resolves => resolves.2 (by decide), ?_, ?_⟩
  · exact (fair _ _ _ _ ready).ranked (by decide) (.refl _) relayEnd List.mem_cons_self
      ⟨2, by decide, .boolean true, rfl⟩
  · rcases ran' : other.run .empty 0 none .uninterrupted with error | result'
    · rw [(fails_iff error).mpr ran'] at ran
      cases ran
    · exact ⟨other, result, result', created, ran, ran',
        (agree _ _ result result' ran ran').2⟩

end Engine

end EconModel
