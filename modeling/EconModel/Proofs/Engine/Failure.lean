import EconModel.Proofs.Engine.Progress

/-!
# How a run fails

Only the resolution of the scalars and that of the initial values can fail, so what a run fails with
is known after its first timestep.  To be stopped from outside is the other way to fail; a run that
is not stopped does not depend on whether it could have been.
-/

namespace EconModel

namespace Engine

variable {engine : Engine} {environment : Environment}

/-! ## Failures from inside -/

/-- The part of a run that can fail: the scalars and the values of the first timestep. -/
def prepare (engine : Engine) (parameters : Bindings Value) : Except EngineError Unit := do
  let (scalars, _) ← engine.solveScalars parameters
  let _ ← engine.solveAt (engine.environment parameters scalars) 0 (engine.openedAt engine.start)
  return ()

theorem bind_eq_error_iff {α β : Type} {first : Except EngineError α}
    {next : α → Except EngineError β} {error : EngineError} :
    first >>= next = .error error ↔
      first = .error error ∨ ∃ value, first = .ok value ∧ next value = .error error := by
  cases first with
  | error failure => simp [bind, Except.bind]
  | ok value => simp [bind, Except.bind]

/-- A timestep fails as its resolution does. -/
theorem step_eq_error_iff {timestep : Nat} {isLast : Bool} {state : SimulationState}
    {next : Bindings Value} {error : EngineError} :
    engine.step environment timestep isLast state next = .error error ↔
      engine.solveAt environment timestep (engine.opened timestep state next) = .error error := by
  rw [step_eq, solveAt_eq]
  cases engine.missingInitials timestep
    (engine.resolveAt environment timestep (engine.opened timestep state next)).1 <;> simp

theorem steps_succ_eq_error_iff {index : Option UInt64} {remaining timestep : Nat}
    {state : SimulationState} {next : Bindings Value} {error : EngineError}
    (later : ∀ timestep state next, timestep ≠ 0 →
      engine.steps environment index .uninterrupted remaining timestep state next ≠
        .error error) :
    engine.steps environment index .uninterrupted (remaining + 1) timestep state next =
        .error error ↔
      engine.solveAt environment timestep (engine.opened timestep state next) = .error error := by
  rw [steps]
  change (engine.step _ _ _ _ _ >>= _) = _ ↔ _
  rw [bind_eq_error_iff, step_eq_error_iff]
  refine or_iff_left ?_
  rintro ⟨outcome, _, failed⟩
  split at failed
  · cases failed
  · rcases bind_eq_error_iff.mp failed with continued | ⟨_, _, finished⟩
    · exact later _ _ _ (Nat.succ_ne_zero timestep) continued
    · cases finished

/-- After the first timestep nothing fails. -/
theorem steps_ne_error (index : Option UInt64) (remaining : Nat) {timestep : Nat}
    (started : timestep ≠ 0) (state : SimulationState) (next : Bindings Value)
    (error : EngineError) :
    engine.steps environment index .uninterrupted remaining timestep state next ≠
      .error error := by
  induction remaining generalizing timestep state next with
  | zero =>
      intro failed
      cases failed
  | succ remaining ih =>
      rw [Ne, steps_succ_eq_error_iff fun _ state next started => ih started state next, solveAt,
        if_neg started]
      intro failed
      cases failed

/-- A run that is not stopped from outside fails as its preparation does. -/
theorem run_eq_error_iff (engine : Engine) (parameters : Bindings Value) (seed : UInt64)
    (index : Option UInt64) (error : EngineError) :
    engine.run parameters seed index .uninterrupted = .error error ↔
      engine.prepare parameters = .error error := by
  have horizon_ne : engine.model.horizon.toNat ≠ 0 := fun zero =>
    engine.accepted.horizon_ne (UInt64.toNat_inj.mp zero)
  obtain ⟨remaining, horizon_eq⟩ := Nat.exists_eq_succ_of_ne_zero horizon_ne
  rw [run, prepare, bind_eq_error_iff, bind_eq_error_iff]
  refine or_congr_right (exists_congr fun ⟨scalars, marks⟩ => and_congr_right fun _ => ?_)
  dsimp only
  rw [bind_eq_error_iff, bind_eq_error_iff, horizon_eq, Nat.succ_eq_add_one,
    steps_succ_eq_error_iff fun _ state next started =>
      steps_ne_error index remaining started state next error]
  refine or_congr_right (iff_of_false ?_ ?_)
  · rintro ⟨_, _, finished⟩
    cases finished
  · rintro ⟨_, _, finished⟩
    cases finished

/-! ## Being stopped from outside -/

/-- An outcome is the one of an uninterrupted run, or the run was stopped where it was to stop. -/
inductive Stoppable {α : Type} (checkpoint : Checkpoint) (index : Option UInt64)
    (uninterrupted : Except EngineError α) : Except EngineError α → Prop where
  | same : Stoppable checkpoint index uninterrupted uninterrupted
  | stopped {cause : Interruption} {timestep : Nat} : checkpoint timestep = some cause →
      Stoppable checkpoint index uninterrupted
        (.error (.execution (.interrupted cause (index.getD 0) (UInt64.ofNat timestep))))

namespace Stoppable

variable {α β : Type} {checkpoint : Checkpoint} {index : Option UInt64}
  {whole outcome : Except EngineError α}

theorem bind (stoppable : Stoppable checkpoint index whole outcome)
    {next next' : α → Except EngineError β}
    (later : ∀ value, Stoppable checkpoint index (next value) (next' value)) :
    Stoppable checkpoint index (whole >>= next) (outcome >>= next') := by
  cases stoppable with
  | stopped stop => exact .stopped stop
  | same =>
      cases whole with
      | error failure => exact .same
      | ok value => exact later value

theorem eq_of_ok {value : α} (stoppable : Stoppable checkpoint index whole (.ok value)) :
    whole = .ok value := by
  cases stoppable
  rfl

end Stoppable

theorem stoppable_steps (checkpoint : Checkpoint) (index : Option UInt64)
    (remaining timestep : Nat) (state : SimulationState) (next : Bindings Value) :
    Stoppable checkpoint index
      (engine.steps environment index .uninterrupted remaining timestep state next)
      (engine.steps environment index checkpoint remaining timestep state next) := by
  induction remaining generalizing timestep state next with
  | zero => exact .same
  | succ remaining ih =>
      rw [steps, steps]
      cases stop : checkpoint timestep with
      | some cause => exact .stopped stop
      | none =>
          refine Stoppable.same.bind fun outcome => ?_
          split
          · exact .same
          · exact (ih (timestep + 1) outcome.state outcome.next).bind fun _ => .same

/-- A run that may be stopped has the outcome of an uninterrupted run, or is stopped. -/
theorem stoppable_run (engine : Engine) (parameters : Bindings Value) (seed : UInt64)
    (index : Option UInt64) (checkpoint : Checkpoint) :
    Stoppable checkpoint index (engine.run parameters seed index .uninterrupted)
      (engine.run parameters seed index checkpoint) := by
  refine Stoppable.same.bind fun ⟨scalars, marks⟩ => ?_
  exact (stoppable_steps checkpoint index _ _ _ _).bind fun _ => .same

theorem stoppable_runSingle (engine : Engine) (sampler : Sampler) (baseSeed index : UInt64)
    (checkpoint : Checkpoint) :
    Stoppable checkpoint (some index) (engine.runSingle sampler baseSeed index .uninterrupted)
      (engine.runSingle sampler baseSeed index checkpoint) :=
  engine.stoppable_run _ baseSeed (some index) checkpoint

/-- A completed run of a batch carries its index, and it was not stopped. -/
theorem runSingle_of_ok {sampler : Sampler} {baseSeed index : UInt64} {checkpoint : Checkpoint}
    {result : RunResult} (ran : engine.runSingle sampler baseSeed index checkpoint = .ok result) :
    result.metadata.index = some index ∧
      engine.runSingle sampler baseSeed index .uninterrupted = .ok result := by
  have stoppable := engine.stoppable_runSingle sampler baseSeed index checkpoint
  rw [ran] at stoppable
  have metadata_eq : result.metadata = engine.metadata baseSeed (some index) :=
    metadata_of_run ran
  exact ⟨congrArg RunMetadata.index metadata_eq, stoppable.eq_of_ok⟩

end Engine

end EconModel
