import EconModel.Proofs.Correlation.Assembly
import EconModel.Proofs.Engine.Parameters

/-!
# Draws of sampled runs

A sampled run turns a vector of independent draws into one value for every stochastic parameter.
The draws are aligned with the parameters by their position only and joined with them by name; here
it is shown that every parameter gets its own draw, the value of its distribution at its coordinate
of the correlated vector.
-/

namespace EconModel

theorem RandomStream.length_take {α : Type} (generate : RandomStream → α × RandomStream)
    (count : ℕ) (stream : RandomStream) : (take generate count stream).1.length = count := by
  induction count generalizing stream with
  | zero => rfl
  | succ count ih => exact congrArg Nat.succ (ih _)

namespace Sampler

variable (sampler : Sampler)

/-- The draw of a parameter from its own distribution, at its own coordinate. -/
def draw (independent : Vector Float sampler.parameters.length)
    (index : Fin sampler.parameters.length) : Float :=
  (sampler.parameters.get index).2.fromStandardNormal (sampler.factor.coordinate independent index)

/-- The independent draws that a stream gives. -/
def independent (stream : RandomStream) : Vector Float sampler.parameters.length :=
  ⟨(RandomStream.take RandomStream.nextNormal sampler.parameters.length stream).1.toArray, by
    rw [List.size_toArray, RandomStream.length_take]⟩

variable {sampler}

theorem entries_transform (distinct : (sampler.parameters.map Prod.fst).Nodup)
    (independent : Vector Float sampler.parameters.length) :
    (sampler.transform independent.toList).entries =
      List.ofFn fun index =>
        ((sampler.parameters.get index).1, sampler.draw independent index) := by
  have pairs_eq : ((sampler.parameters.zip (sampler.factor.apply independent.toList)).map
      fun drawn => (drawn.1.1, drawn.1.2.fromStandardNormal drawn.2)) =
        List.ofFn fun index =>
          ((sampler.parameters.get index).1, sampler.draw independent index) := by
    rw [CholeskyFactor.apply_toList]
    apply List.ext_getElem <;> simp [draw]
  have names_eq : (List.ofFn fun index =>
      ((sampler.parameters.get index).1, sampler.draw independent index)).map Prod.fst =
        sampler.parameters.map Prod.fst := by
    apply List.ext_getElem <;> simp
  rw [transform_eq, pairs_eq, Bindings.entries_ofList (names_eq ▸ distinct)]

/-- A draw depends on the independent draws up to its own place only. -/
theorem draw_congr {independent other : Vector Float sampler.parameters.length}
    {index : Fin sampler.parameters.length}
    (agree : ∀ earlier ≤ index, independent.get earlier = other.get earlier) :
    sampler.draw independent index = sampler.draw other index :=
  congrArg _ (CholeskyFactor.coordinate_congr agree)

theorem get?_transform_draw (distinct : (sampler.parameters.map Prod.fst).Nodup)
    (independent : Vector Float sampler.parameters.length)
    (index : Fin sampler.parameters.length) :
    (sampler.transform independent.toList).get? (sampler.parameters.get index).1 =
      some (sampler.draw independent index) := by
  rw [Bindings.get?_eq_some_iff, entries_transform distinct]
  exact (List.mem_ofFn' _ _).mpr ⟨index, rfl⟩

end Sampler

namespace Engine

variable {engine : Engine} {sampler : Sampler}

/-- The parameters of a sampled run have the values that are theirs: those that are given keep
them, and those that are drawn have their own draws. -/
structure TakesDraws (engine : Engine) (sampler : Sampler)
    (independent : Vector Float sampler.parameters.length) (parameters : Bindings Value) :
    Prop where
  names_eq : parameters.names = engine.model.parameters.map Parameter.name
  given : ∀ parameter ∈ engine.model.parameters, ∀ value, parameter.value = .literal value →
    parameters.get? parameter.name = some value
  drawn : ∀ index, parameters.get? (sampler.parameters.get index).1 =
    some (.number (sampler.draw independent index))

theorem takesDraws_parametersBy
    (parameters_eq : sampler.parameters = engine.model.stochasticParameters)
    (independent : Vector Float sampler.parameters.length) :
    engine.TakesDraws sampler independent
      (parametersBy engine.model (drawnValue (sampler.transform independent.toList))) := by
  have distinct := engine.nodup_sampled parameters_eq
  refine ⟨?_, fun parameter member value value_eq => ?_, fun index => ?_⟩
  · rw [parametersBy, Bindings.names_ofList (engine.nodup_parametersBy _), List.map_map]
    rfl
  · rw [engine.get?_parametersBy _ member, drawnValue, value_eq]
  · have drawn_only : ∀ entry ∈ sampler.parameters, entry ∈ engine.model.stochasticParameters := by
      rw [parameters_eq]
      exact fun _ => id
    obtain ⟨parameter, member, marginal_eq, name_eq⟩ :=
      mem_stochasticParameters_iff.mp (drawn_only _ (sampler.parameters.get_mem index))
    have kept := Sampler.get?_transform_draw distinct independent index
    rw [← name_eq] at kept ⊢
    rw [engine.get?_parametersBy _ member, drawnValue_of_drawn marginal_eq kept]

/-! ## Runs in which every distribution yields one value -/

/-- Every distribution of a model yields one value, and no estimate takes its place. -/
def AllFixed (model : Model) : Prop :=
  ∀ parameter ∈ model.parameters, ∀ marginal estimate partners,
    parameter.value = .distribution marginal estimate partners →
      estimate = none ∧ ∃ value, marginal = .fixed value

/-- Without interruptions the index of a run is not used. -/
theorem steps_index (environment : Environment) (index other : Option UInt64)
    (remaining timestep : ℕ) (state : SimulationState) (next : Bindings Value) :
    engine.steps environment index .uninterrupted remaining timestep state next =
      engine.steps environment other .uninterrupted remaining timestep state next := by
  induction remaining generalizing timestep state next with
  | zero => rfl
  | succ remaining ih => simp only [steps, Checkpoint.uninterrupted, ih]

theorem run_index (parameters : Bindings Value) (seed index : UInt64) :
    engine.run parameters seed (some index) .uninterrupted =
      (engine.run parameters seed none .uninterrupted).map fun result =>
        { result with metadata :=
          { result.metadata with
            id := RunId.derive engine.fingerprint seed (some index)
            index := some index } } := by
  unfold run
  cases engine.solveScalars parameters with
  | error failure => rfl
  | ok solved =>
      simp only [bind, Except.bind, engine.steps_index _ (some index) none]
      cases engine.steps (engine.environment parameters solved.1) none .uninterrupted
        engine.model.horizon.toNat 0 (.initial engine.model.variableNames) .empty <;> rfl

theorem parametersBy_of_allFixed (fixed : AllFixed engine.model)
    (parameters_eq : sampler.parameters = engine.model.stochasticParameters)
    (independent : Vector Float sampler.parameters.length) :
    parametersBy engine.model (drawnValue (sampler.transform independent.toList)) =
      engine.model.pointValues := by
  have distinct := engine.nodup_sampled parameters_eq
  refine congrArg Bindings.ofList (List.map_congr_left fun parameter member => ?_)
  refine congrArg (Prod.mk parameter.name) ?_
  cases value_eq : parameter.value with
  | literal value => rw [drawnValue, Parameter.pointValue, value_eq]
  | distribution marginal estimate partners =>
      obtain ⟨rfl, value, rfl⟩ := fixed parameter member marginal estimate partners value_eq
      have marginal_eq : parameter.marginal? = some (.fixed value) := by
        rw [Parameter.marginal?, value_eq]
      have entry_mem : (parameter.name, .fixed value) ∈ sampler.parameters := by
        rw [parameters_eq, mem_stochasticParameters_iff]
        exact ⟨parameter, member, marginal_eq, rfl⟩
      obtain ⟨z, drawn⟩ := sampler.exists_mem_zip independent.toList entry_mem
      have kept := sampler.get?_transform independent.toList distinct drawn
      rw [drawnValue_of_drawn marginal_eq kept, Parameter.pointValue, value_eq]
      rfl

/-! ## Sampled runs -/

/-- A sampler gives every parameter of an engine its own draw. -/
structure DrawsOwn (engine : Engine) (sampler : Sampler) : Prop where
  /-- The factor is that of the declared correlations. -/
  factored : ∃ matrix factor, Correlation.ofModel engine.model = .ok matrix ∧
    matrix.cholesky = .ok factor ∧ sampler = ⟨engine.model.stochasticParameters, factor⟩
  names_eq : sampler.names =
    (engine.model.parameters.filter Parameter.isStochastic).map Parameter.name
  lower : ∀ row column, row < column → sampler.factor.entry row column = 0.0
  entries_eq : ∀ independent : Vector Float sampler.parameters.length,
    (sampler.transform independent.toList).entries =
      List.ofFn fun index => ((sampler.parameters.get index).1, sampler.draw independent index)
  draw_eq : ∀ (independent other : Vector Float sampler.parameters.length)
    (index : Fin sampler.parameters.length),
      (∀ earlier ≤ index, independent.get earlier = other.get earlier) →
        sampler.draw independent index = sampler.draw other index
  takes : ∀ independent : Vector Float sampler.parameters.length,
    engine.TakesDraws sampler independent
      (parametersBy engine.model (drawnValue (sampler.transform independent.toList)))
  sampled : ∀ stream,
    (sampler.sample stream).1 = sampler.transform (sampler.independent stream).toList
  run_takes : ∀ baseSeed index checkpoint result,
    engine.runSingle sampler baseSeed index checkpoint = .ok result →
      engine.TakesDraws sampler (sampler.independent (RandomStream.ofRun baseSeed index))
        result.parameters
  /-- A run in which every distribution yields one value differs from the run in which nothing is
  drawn by its index and its identity only. -/
  run_fixed : AllFixed engine.model → ∀ seed index,
    engine.runSingle sampler seed index .uninterrupted =
      (engine.runDeterministic seed).map fun result =>
        { result with metadata :=
          { result.metadata with
            id := RunId.derive engine.fingerprint seed (some index)
            index := some index } }

theorem runSingle_eq (sampler : Sampler) (baseSeed index : UInt64) (checkpoint : Checkpoint) :
    engine.runSingle sampler baseSeed index checkpoint =
      engine.run (parametersBy engine.model (drawnValue
        (sampler.transform (sampler.independent (RandomStream.ofRun baseSeed index)).toList)))
        baseSeed (some index) checkpoint := rfl

theorem drawsOwn_of_prepare (prepared : Sampler.prepare engine.model = .ok sampler) :
    engine.DrawsOwn sampler := by
  have factored := Sampler.exists_factor_of_prepare prepared
  have parameters_eq := Sampler.parameters_of_prepare prepared
  have distinct := engine.nodup_sampled parameters_eq
  have takes := takesDraws_parametersBy parameters_eq
  refine ⟨factored, ?_, ?_, Sampler.entries_transform distinct,
    fun _ _ _ agree => Sampler.draw_congr agree, takes, fun _ => rfl, ?_, ?_⟩
  · rw [Sampler.names, parameters_eq, Correlation.map_fst_stochasticParameters]
  · obtain ⟨matrix, factor, -, found, rfl⟩ := factored
    exact fun row column above => SquareMatrix.entry_eq_zero_of_cholesky found above
  · intro baseSeed index checkpoint result ran
    obtain ⟨_, _, _, _, _, _, _, run_parameters, _⟩ := exists_executes_of_run ran
    rw [run_parameters]
    exact takes _
  · intro fixed seed index
    have same := parametersBy_of_allFixed fixed parameters_eq
      (sampler.independent (RandomStream.ofRun seed index))
    rw [runSingle_eq, same, run_index]
    rfl

/-- A parameter that is given stands between two that are drawn; each of the two has its own draw
in a sampled run. -/
def betweenModel : Model :=
  { Model.blank "between" 1 with
    parameters := [⟨"price", none, .distribution (.normal 10.0 2.0) none []⟩,
      ⟨"tax", none, .literal (.number 0.2)⟩,
      ⟨"demand", none, .distribution (.uniform 0.0 1.0) none [⟨"price", 0.5⟩]⟩] }

def betweenEngine : Engine := .plain betweenModel rfl

theorem drawsOwn_of_prepare_between : ∃ sampler,
    Sampler.prepare betweenEngine.model = .ok sampler ∧ sampler.names = ["price", "demand"] ∧
      ∀ result, betweenEngine.runSingle sampler 1 0 .uninterrupted = .ok result →
        result.parameters.names = ["price", "tax", "demand"] ∧
          result.parameters.get? "tax" = some (.number 0.2) := by
  have isOk : (Sampler.prepare betweenEngine.model).isOk = true := by
    decide +kernel
  cases prepared : Sampler.prepare betweenEngine.model with
  | error defect => simp [prepared, Except.isOk, Except.toBool] at isOk
  | ok sampler =>
      have owns := drawsOwn_of_prepare prepared
      refine ⟨sampler, rfl, owns.names_eq, fun result ran => ?_⟩
      have taken := owns.run_takes 1 0 .uninterrupted result ran
      refine ⟨taken.names_eq, taken.given ⟨"tax", none, .literal (.number 0.2)⟩ ?_ _ rfl⟩
      exact .tail _ (.head _)

end Engine

end EconModel
