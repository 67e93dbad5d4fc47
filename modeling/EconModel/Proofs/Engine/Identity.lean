import EconModel.Proofs.Engine.Failure
import EconModel.Proofs.RunId
import Mathlib.Data.Set.Function

/-!
# What the identifier of a run identifies

The identifier of a run is derived from the fingerprint of its model, its seed and its index.  In a
batch these determine the parameters, and with them the result.  Outside a batch the parameters may
be given, and then they are not part of the identity: all runs with one seed share an identifier,
and two of their results are the same if and only if their parameters are.
-/

namespace EconModel

/-- The name from which the identifier is derived. -/
def RunMetadata.name (metadata : RunMetadata) : String :=
  RunId.name metadata.fingerprint metadata.seed metadata.index

namespace Engine

/-- A result that an engine produces in one of its kinds of runs. -/
inductive Produces (engine : Engine) : RunResult → Prop where
  | deterministic {seed : UInt64} {result : RunResult} :
      engine.runDeterministic seed = .ok result → Produces engine result
  | overridden {overrides : Bindings Value} {seed : UInt64} {result : RunResult} :
      engine.runWithParameters overrides seed = .ok result → Produces engine result
  | sampled {sampler : Sampler} {baseSeed index : UInt64} {checkpoint : Checkpoint}
      {result : RunResult} : engine.sampler = .ok sampler →
        engine.runSingle sampler baseSeed index checkpoint = .ok result → Produces engine result

variable {engine : Engine} {left right result : RunResult}

/-- A result tells what it is the result of. -/
theorem run_parameters_of_run {parameters : Bindings Value} {seed : UInt64}
    {index : Option UInt64} {checkpoint : Checkpoint}
    (ran : engine.run parameters seed index checkpoint = .ok result) :
    engine.run result.parameters result.metadata.seed result.metadata.index .uninterrupted =
      .ok result := by
  obtain ⟨_, _, _, _, _, _, _, parameters_eq, _⟩ := exists_executes_of_run ran
  have stoppable := engine.stoppable_run parameters seed index checkpoint
  rw [ran] at stoppable
  rw [metadata_of_run ran, parameters_eq]
  exact stoppable.eq_of_ok

theorem Produces.run_eq (produces : engine.Produces result) :
    engine.run result.parameters result.metadata.seed result.metadata.index .uninterrupted =
      .ok result := by
  cases produces with
  | deterministic ran => exact run_parameters_of_run ran
  | overridden ran => exact run_parameters_of_run ran
  | sampled _ ran => exact run_parameters_of_run ran

theorem Produces.metadata_eq (produces : engine.Produces result) :
    result.metadata = engine.metadata result.metadata.seed result.metadata.index :=
  metadata_of_run produces.run_eq

theorem Produces.id_eq (produces : engine.Produces result) :
    result.metadata.id = RunId.ofName result.metadata.name := by
  rw [produces.metadata_eq]
  rfl

/-- In a batch the parameters follow from seed and index. -/
theorem Produces.exists_runSingle (produces : engine.Produces result) {index : UInt64}
    (index_eq : result.metadata.index = some index) : ∃ sampler,
      engine.sampler = .ok sampler ∧
        engine.runSingle sampler result.metadata.seed index .uninterrupted = .ok result := by
  cases produces with
  | deterministic ran =>
      rw [metadata_of_run ran] at index_eq
      cases index_eq
  | overridden ran =>
      rw [metadata_of_run ran] at index_eq
      cases index_eq
  | @sampled sampler baseSeed place checkpoint _ prepared ran =>
      obtain ⟨place_eq, uninterrupted⟩ := runSingle_of_ok ran
      rw [place_eq, Option.some.injEq] at index_eq
      have metadata_eq : result.metadata = engine.metadata baseSeed (some place) :=
        metadata_of_run ran
      rw [metadata_eq, ← index_eq]
      exact ⟨sampler, prepared, uninterrupted⟩

/-- Results whose identifiers are the same have the same metadata, unless the names from which the
identifiers are derived collide.  They are the same results if and only if they have the same
parameters, and always if they come from a batch. -/
theorem eq_iff_parameters_eq_of_id_eq (first : engine.Produces left)
    (second : engine.Produces right)
    (collision_free : Set.InjOn RunId.ofName {left.metadata.name, right.metadata.name})
    (same : left.metadata.id = right.metadata.id) :
    left.metadata = right.metadata ∧ (left = right ↔ left.parameters = right.parameters) ∧
      (left.metadata.index ≠ none → left = right) := by
  have name_eq : left.metadata.name = right.metadata.name := by
    apply collision_free (Set.mem_insert _ _) (Set.mem_insert_of_mem _ rfl)
    rw [← first.id_eq, ← second.id_eq, same]
  obtain ⟨_, seed_eq, index_eq⟩ := RunId.eq_of_name_eq name_eq
  refine ⟨?_, ⟨congrArg RunResult.parameters, ?_⟩, ?_⟩
  · rw [first.metadata_eq, second.metadata_eq, seed_eq, index_eq]
  · intro parameters_eq
    have ran := first.run_eq
    rw [parameters_eq, seed_eq, index_eq, second.run_eq] at ran
    exact (Except.ok.inj ran).symm
  · intro batched
    obtain ⟨index, left_index⟩ := Option.ne_none_iff_exists'.mp batched
    obtain ⟨sampler, prepared, ran⟩ := first.exists_runSingle left_index
    obtain ⟨sampler', prepared', ran'⟩ := second.exists_runSingle (index_eq.symm.trans left_index)
    obtain rfl : sampler' = sampler := Except.ok.inj (prepared'.symm.trans prepared)
    rw [seed_eq, ran'] at ran
    exact (Except.ok.inj ran).symm

/-- A model of one parameter and a variable that repeats it. -/
def mirrorModel : Model :=
  { Model.blank "mirror" 1 with
    parameters := [⟨"switch", none, .literal (.boolean true)⟩]
    equations := [⟨"state", .current, .ident "switch", []⟩] }

def mirrorEngine : Engine := .plain mirrorModel rfl

/-- Two runs of it, one with another value of the parameter. -/
theorem exists_runs_mirror : ∃ left right,
    mirrorEngine.runDeterministic 7 = .ok left ∧
      mirrorEngine.runWithParameters (Bindings.empty.insert "switch" (.boolean false)) 7 =
        .ok right ∧
      left.series? "state" = some [.boolean true] ∧
      right.series? "state" = some [.boolean false] ∧
      left.parameters.get? "switch" = some (.boolean true) ∧
      right.parameters.get? "switch" = some (.boolean false) :=
  ⟨_, _, rfl, rfl, rfl, rfl, rfl, rfl⟩

theorem eq_iff_parameters_eq_of_id_eq_mirror : ∃ left right,
    mirrorEngine.Produces left ∧ mirrorEngine.Produces right ∧
      left.metadata = right.metadata ∧ ¬ left.parameters = right.parameters ∧ left ≠ right := by
  obtain ⟨left, right, ran, ran', _, _, left_value, right_value⟩ := exists_runs_mirror
  have names_eq : left.metadata = right.metadata :=
    (metadata_of_run ran).trans (metadata_of_run ran').symm
  have collision_free : Set.InjOn RunId.ofName {left.metadata.name, right.metadata.name} := by
    rw [names_eq, Set.pair_eq_singleton]
    exact Set.injOn_singleton _ _
  obtain ⟨metadata_eq, equal_iff, _⟩ := eq_iff_parameters_eq_of_id_eq (.deterministic ran)
    (.overridden ran') collision_free (congrArg RunMetadata.id names_eq)
  have different : ¬ left.parameters = right.parameters := by
    intro parameters_eq
    rw [parameters_eq, right_value] at left_value
    cases left_value
  exact ⟨left, right, .deterministic ran, .overridden ran', metadata_eq, different,
    mt equal_iff.mp different⟩

/-- Two results with one identifier and different values. -/
theorem shared_id_mirror : ∃ left right,
    mirrorEngine.Produces left ∧ mirrorEngine.Produces right ∧
      left.metadata.id = right.metadata.id ∧ left ≠ right := by
  obtain ⟨left, right, ran, ran', left_values, right_values, _⟩ := exists_runs_mirror
  refine ⟨left, right, .deterministic ran, .overridden ran', ?_, ?_⟩
  · rw [metadata_of_run ran, metadata_of_run ran']
  · rintro rfl
    rw [left_values] at right_values
    cases right_values

end Engine

end EconModel
