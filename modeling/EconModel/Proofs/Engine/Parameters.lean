import EconModel.Proofs.Correlation.Assembly
import EconModel.Proofs.Distribution
import EconModel.Proofs.Engine.Progress
import EconModel.Proofs.Evaluation.Finite
import EconModel.Proofs.RoundTrip.Accepted

/-!
# The parameters that a run starts from

A parameter is no result of an expression, so no check for finite numbers stands in front of it.
What a model gives is finite where the model was read from a text; a mean and a draw are computed,
and they are finite exactly where nothing overflows in them.
-/

namespace EconModel

/-- The means that a model uses fit into the doubles; a point estimate takes the place of a mean. -/
def Model.MeansFit (model : Model) : Prop :=
  ∀ parameter ∈ model.parameters, ∀ marginal partners,
    parameter.value = .distribution marginal none partners → marginal.MeanFits

namespace Sampler

/-- The standard normal draws of a run, one for every stochastic parameter, with their
correlations. -/
def normals (sampler : Sampler) (baseSeed index : UInt64) : List Float :=
  sampler.factor.apply (RandomStream.take RandomStream.nextNormal sampler.dimension
    (RandomStream.ofRun baseSeed index)).1

/-- The draws of a run fit into the doubles. -/
def DrawsFit (sampler : Sampler) (baseSeed index : UInt64) : Prop :=
  ∀ draw ∈ sampler.parameters.zip (sampler.normals baseSeed index), draw.1.2.DrawFits draw.2

theorem exists_factor_of_prepare {model : Model} {sampler : Sampler}
    (prepared : prepare model = .ok sampler) :
    ∃ matrix factor, Correlation.ofModel model = .ok matrix ∧ matrix.cholesky = .ok factor ∧
      sampler = ⟨model.stochasticParameters, factor⟩ := by
  unfold prepare at prepared
  cases matrix_eq : Correlation.ofModel model with
  | error defect => simp [matrix_eq, bind, Except.bind] at prepared
  | ok matrix =>
      cases factor_eq : matrix.cholesky with
      | error defect => simp [matrix_eq, factor_eq, bind, Except.bind] at prepared
      | ok factor =>
          simp only [matrix_eq, factor_eq, bind, Except.bind, pure, Except.pure] at prepared
          cases prepared
          exact ⟨matrix, factor, rfl, factor_eq, rfl⟩

theorem parameters_of_prepare {model : Model} {sampler : Sampler}
    (prepared : prepare model = .ok sampler) : sampler.parameters = model.stochasticParameters := by
  obtain ⟨_, _, _, _, rfl⟩ := exists_factor_of_prepare prepared
  rfl

variable (sampler : Sampler) (independent : List Float)

theorem length_apply : (sampler.factor.apply independent).length = sampler.parameters.length := by
  simp [CholeskyFactor.apply]

theorem map_fst_zip_apply :
    (sampler.parameters.zip (sampler.factor.apply independent)).map Prod.fst =
      sampler.parameters := List.map_fst_zip (sampler.length_apply independent).ge

theorem transform_eq : sampler.transform independent = Bindings.ofList
    ((sampler.parameters.zip (sampler.factor.apply independent)).map fun draw =>
      (draw.1.1, draw.1.2.fromStandardNormal draw.2)) := by
  rw [transform, List.zip, List.map_zipWith]

/-- Every parameter is drawn. -/
theorem exists_mem_zip {entry : String × Distribution Float} (member : entry ∈ sampler.parameters) :
    ∃ z, (entry, z) ∈ sampler.parameters.zip (sampler.factor.apply independent) := by
  rw [← sampler.map_fst_zip_apply independent] at member
  obtain ⟨⟨_, z⟩, drawn, rfl⟩ := List.mem_map.mp member
  exact ⟨z, drawn⟩

/-- Every draw is kept under the name of its parameter. -/
theorem get?_transform (distinct : (sampler.parameters.map Prod.fst).Nodup)
    {draw : (String × Distribution Float) × Float}
    (member : draw ∈ sampler.parameters.zip (sampler.factor.apply independent)) :
    (sampler.transform independent).get? draw.1.1 =
      some (draw.1.2.fromStandardNormal draw.2) := by
  rw [transform_eq, Bindings.get?_ofList_eq_some_iff]
  · exact List.mem_map.mpr ⟨draw, member, rfl⟩
  · rw [← sampler.map_fst_zip_apply independent, List.map_map] at distinct
    rw [List.map_map]
    exact distinct

end Sampler

namespace Engine

variable {engine : Engine}

/-- A parameter is drawn from its distribution. -/
theorem mem_stochasticParameters_iff {model : Model} {entry : String × Distribution Float} :
    entry ∈ model.stochasticParameters ↔ ∃ parameter ∈ model.parameters,
      parameter.marginal? = some entry.2 ∧ parameter.name = entry.1 := by
  simp only [Model.stochasticParameters, List.mem_filterMap, Option.map_eq_some_iff, Prod.ext_iff]
  constructor
  · rintro ⟨parameter, member, marginal, marginal_eq, name_eq, rfl⟩
    exact ⟨parameter, member, marginal_eq, name_eq⟩
  · rintro ⟨parameter, member, marginal_eq, name_eq⟩
    exact ⟨parameter, member, entry.2, marginal_eq, name_eq, rfl⟩

theorem sampler_eq_ok_iff {sampler : Sampler} :
    engine.sampler = .ok sampler ↔ Sampler.prepare engine.model = .ok sampler := by
  cases prepared : Sampler.prepare engine.model <;> simp [Engine.sampler, prepared]

theorem parameters_of_sampler {sampler : Sampler} (prepared : engine.sampler = .ok sampler) :
    sampler.parameters = engine.model.stochasticParameters :=
  Sampler.parameters_of_prepare (sampler_eq_ok_iff.mp prepared)

theorem nodup_stochasticParameters (engine : Engine) :
    (engine.model.stochasticParameters.map Prod.fst).Nodup := by
  rw [Correlation.map_fst_stochasticParameters]
  exact engine.accepted.nodup_parameters.sublist (List.filter_sublist.map _)

theorem nodup_sampled (engine : Engine) {sampler : Sampler}
    (parameters_eq : sampler.parameters = engine.model.stochasticParameters) :
    (sampler.parameters.map Prod.fst).Nodup := by
  rw [parameters_eq]
  exact engine.nodup_stochasticParameters

/-- The distributions of a model that was accepted are valid. -/
theorem validate_marginal (engine : Engine) {parameter : Parameter}
    (member : parameter ∈ engine.model.parameters) {marginal : Distribution Float}
    (marginal_eq : parameter.marginal? = some marginal) : marginal.validate = .ok () := by
  have checked := engine.accepted.marginals parameter member
  rw [Validation.checkParameter, marginal_eq] at checked
  dsimp only at checked
  split at checked
  · assumption
  · cases checked

theorem nodup_parametersBy (engine : Engine) (value : Parameter → Value) :
    ((engine.model.parameters.map fun parameter =>
      (parameter.name, value parameter)).map Prod.fst).Nodup := by
  rw [List.map_map]
  exact engine.accepted.nodup_parameters

theorem get?_parametersBy (engine : Engine) (value : Parameter → Value) {parameter : Parameter}
    (member : parameter ∈ engine.model.parameters) :
    (parametersBy engine.model value).get? parameter.name = some (value parameter) := by
  rw [parametersBy, Bindings.get?_ofList_eq_some_iff (engine.nodup_parametersBy value)]
  exact List.mem_map.mpr ⟨parameter, member, rfl⟩

/-- The parameters of a run are finite where each of them is. -/
theorem allFinite_parametersBy_iff (engine : Engine) (value : Parameter → Value) :
    (parametersBy engine.model value).AllFinite ↔
      ∀ parameter ∈ engine.model.parameters, (value parameter).IsFinite := by
  constructor
  · intro finite parameter member
    exact finite parameter.name (value parameter) (engine.get?_parametersBy value member)
  · intro finite
    refine Bindings.AllFinite.ofList fun pair member => ?_
    obtain ⟨parameter, parameter_member, rfl⟩ := List.mem_map.mp member
    exact finite parameter parameter_member

/-- A value that can be told from its text is finite. -/
theorem isFinite_of_faithful {value : Value} (faithful : value.Faithful) : value.IsFinite := by
  cases value with
  | number x => exact faithful
  | boolean | text | undefined | structured => trivial

/-! ## Without draws -/

/-- The point value of a parameter that was read is finite, unless it is a mean that overflows. -/
theorem isFinite_pointValue_iff {parameter : Parameter} (faithful : parameter.value.Faithful)
    (valid : ∀ marginal, parameter.marginal? = some marginal → marginal.validate = .ok ()) :
    parameter.pointValue.IsFinite ↔ ∀ marginal partners,
      parameter.value = .distribution marginal none partners → marginal.MeanFits := by
  cases value_eq : parameter.value with
  | literal value =>
      rw [value_eq] at faithful
      rw [Parameter.pointValue, value_eq]
      exact iff_of_true (isFinite_of_faithful faithful) nofun
  | distribution marginal pointEstimate partners =>
      rw [value_eq] at faithful
      rw [Parameter.pointValue, value_eq]
      cases pointEstimate with
      | some estimate => exact iff_of_true (faithful.2.1 estimate rfl) nofun
      | none =>
          have marginal_valid := valid marginal (by rw [Parameter.marginal?, value_eq])
          refine (Distribution.isFinite_mean_iff marginal_valid).trans ⟨?_, ?_⟩
          · rintro fits _ _ same
            cases same
            exact fits
          · exact fun fits => fits marginal partners rfl

theorem allFinite_pointValues_iff (faithful : engine.model.Faithful) :
    engine.model.pointValues.AllFinite ↔ engine.model.MeansFit := by
  refine (engine.allFinite_parametersBy_iff Parameter.pointValue).trans ?_
  exact forall₂_congr fun parameter member =>
    isFinite_pointValue_iff (faithful.parameters parameter member) fun _ =>
      engine.validate_marginal member

/-! ## With draws -/

/-- A parameter that is drawn has the value of its draw. -/
theorem drawnValue_of_drawn {draws : Bindings Float} {parameter : Parameter}
    {marginal : Distribution Float} {x : Float} (marginal_eq : parameter.marginal? = some marginal)
    (drawn : draws.get? parameter.name = some x) : drawnValue draws parameter = .number x := by
  cases value_eq : parameter.value with
  | literal value =>
      rw [Parameter.marginal?, value_eq] at marginal_eq
      cases marginal_eq
  | distribution => simp only [drawnValue, value_eq, drawn]

/-- A parameter that is drawn is finite exactly where its draw fits. -/
theorem isFinite_drawnValue_iff (engine : Engine) {sampler : Sampler}
    (parameters_eq : sampler.parameters = engine.model.stochasticParameters)
    (independent : List Float) {parameter : Parameter}
    (member : parameter ∈ engine.model.parameters) {marginal : Distribution Float}
    (marginal_eq : parameter.marginal? = some marginal) {z : Float}
    (drawn : ((parameter.name, marginal), z) ∈
      sampler.parameters.zip (sampler.factor.apply independent)) :
    (drawnValue (sampler.transform independent) parameter).IsFinite ↔ marginal.DrawFits z := by
  have kept := sampler.get?_transform independent (engine.nodup_sampled parameters_eq) drawn
  rw [drawnValue_of_drawn marginal_eq kept]
  exact Distribution.isFinite_draw_iff (engine.validate_marginal member marginal_eq) z

theorem allFinite_drawn_iff (faithful : engine.model.Faithful) {sampler : Sampler}
    (parameters_eq : sampler.parameters = engine.model.stochasticParameters)
    (independent : List Float) :
    (parametersBy engine.model (drawnValue (sampler.transform independent))).AllFinite ↔
      ∀ draw ∈ sampler.parameters.zip (sampler.factor.apply independent),
        draw.1.2.DrawFits draw.2 := by
  rw [allFinite_parametersBy_iff]
  constructor
  · rintro finite ⟨⟨name, marginal⟩, z⟩ drawn
    have entry_mem := (List.of_mem_zip drawn).1
    rw [parameters_eq, mem_stochasticParameters_iff] at entry_mem
    obtain ⟨parameter, member, marginal_eq, rfl⟩ := entry_mem
    exact (engine.isFinite_drawnValue_iff parameters_eq independent member marginal_eq drawn).mp
      (finite parameter member)
  · intro fits parameter member
    cases marginal_eq : parameter.marginal? with
    | none =>
        cases value_eq : parameter.value with
        | literal value =>
            have value_faithful := faithful.parameters parameter member
            rw [value_eq] at value_faithful
            rw [drawnValue, value_eq]
            exact isFinite_of_faithful value_faithful
        | distribution => simp [Parameter.marginal?, value_eq] at marginal_eq
    | some marginal =>
        have entry_mem : (parameter.name, marginal) ∈ sampler.parameters := by
          rw [parameters_eq, mem_stochasticParameters_iff]
          exact ⟨parameter, member, marginal_eq, rfl⟩
        obtain ⟨z, drawn⟩ := sampler.exists_mem_zip independent entry_mem
        exact (engine.isFinite_drawnValue_iff parameters_eq independent member marginal_eq
          drawn).mpr (fits _ drawn)

/-! ## Runs -/

/-- Where a model was read from a text and accepted, the parameters of a run are finite exactly
where nothing overflows in the means that it uses, or in its draws. -/
theorem allFinite_parameters_iff {text : String}
    (read : Model.ofText? text = some engine.model) :
    (∀ marginal : Distribution Float, marginal.validate = .ok () →
      (marginal.mean.isFinite = true ↔ marginal.MeanFits) ∧
        ∀ z, (marginal.fromStandardNormal z).isFinite = true ↔ marginal.DrawFits z) ∧
    (∀ {seed : UInt64} {result : RunResult}, engine.runDeterministic seed = .ok result →
      (result.parameters.AllFinite ↔ engine.model.MeansFit)) ∧
    ∀ {sampler : Sampler}, engine.sampler = .ok sampler →
      ∀ {baseSeed index : UInt64} {checkpoint : Checkpoint} {result : RunResult},
        engine.runSingle sampler baseSeed index checkpoint = .ok result →
          (result.parameters.AllFinite ↔ sampler.DrawsFit baseSeed index) := by
  obtain ⟨tree, -, decoded⟩ := Option.bind_eq_some_iff.mp read
  obtain ⟨faithful, -⟩ := Model.yields (by simp) decoded (by decide)
  refine ⟨fun marginal valid => ⟨Distribution.isFinite_mean_iff valid,
    Distribution.isFinite_draw_iff valid⟩, ?_, ?_⟩
  · intro seed result ran
    obtain ⟨_, _, _, _, _, _, _, parameters_eq, _⟩ := exists_executes_of_run ran
    rw [parameters_eq]
    exact allFinite_pointValues_iff faithful
  · intro sampler prepared baseSeed index checkpoint result ran
    obtain ⟨_, _, _, _, _, _, _, parameters_eq, _⟩ := exists_executes_of_run ran
    rw [parameters_eq]
    exact allFinite_drawn_iff faithful (parameters_of_sampler prepared) _

/-- A model with one parameter, which is drawn. -/
def spreadModel (marginal : Distribution Float) : Model :=
  { Model.blank "spread" 1 with
    parameters := [⟨"spread", none, .distribution marginal none []⟩] }

theorem validate_spreadModel {marginal : Distribution Float} (valid : marginal.validate = .ok ()) :
    (spreadModel marginal).validate .empty EngineConfig.default.blockLimit = .ok () := by
  have named : Text.isBlank "spread" = false := rfl
  have horizon_ne : (1 : UInt64) ≠ 0 := by decide
  have distinct : Validation.checkDistinct .parameter [] ["spread"] = .ok () := rfl
  refine Model.validateBy_eq_ok_iff.mpr ⟨named, horizon_ne, distinct, rfl, rfl, ?_, rfl, nofun,
    nofun, nofun⟩
  intro parameter member
  rw [List.mem_singleton.mp member]
  simp only [Validation.checkParameter, Parameter.marginal?, valid]

def spreadEngine (marginal : Distribution Float) (valid : marginal.validate = .ok ()) : Engine :=
  .plain (spreadModel marginal) (validate_spreadModel valid)

section Spread

variable {marginal : Distribution Float} (valid : marginal.validate = .ok ())

include valid

theorem ofText?_spreadModel :
    Model.ofText? (spreadModel marginal).text = some (spreadModel marginal) := by
  refine ((spreadModel marginal).ofText?_render_eq_some_iff .indented).mpr ⟨⟨?_, nofun, nofun,
    nofun, nofun⟩, ?_⟩
  · intro parameter member
    rw [List.mem_singleton.mp member]
    exact ⟨((Distribution.validate_eq_ok_iff marginal).mp valid).1, nofun, nofun⟩
  · simp [spreadModel, Model.blank, Model.toDocument, Parameter.toDocument,
      ParameterValue.toDocument, Json.Document.depth, Json.Document.depthOfMembers,
      Json.Document.depthOfItems, Json.Document.present, Distribution.depth_toDocument]

theorem exists_runDeterministic_spread : ∃ result,
    (spreadEngine marginal valid).runDeterministic 0 = .ok result ∧ result.status = .completed ∧
      result.parameters.get? "spread" = some (.number marginal.mean) := ⟨_, rfl, rfl, rfl⟩

theorem exists_runSingle_spread (prepared : (Sampler.prepare (spreadModel marginal)).isOk = true) :
    ∃ sampler result, (spreadEngine marginal valid).sampler = .ok sampler ∧
      (spreadEngine marginal valid).runSingle sampler 0 0 .uninterrupted = .ok result := by
  cases sampler_eq : Sampler.prepare (spreadModel marginal) with
  | error defect =>
      rw [sampler_eq] at prepared
      cases prepared
  | ok sampler => exact ⟨sampler, _, sampler_eq_ok_iff.mpr sampler_eq, rfl⟩

end Spread

/-- A moderate mean is finite, and so is a draw that is always the same. -/
theorem allFinite_parameters_moderate :
    (∃ result, (spreadEngine (.uniform 0.0 1.0) rfl).runDeterministic 0 = .ok result ∧
      result.parameters.AllFinite) ∧
    ∃ sampler result, (spreadEngine (.fixed 2.5) rfl).sampler = .ok sampler ∧
      (spreadEngine (.fixed 2.5) rfl).runSingle sampler 0 0 .uninterrupted =
        .ok result ∧ result.parameters.AllFinite := by
  have moderate : (Distribution.uniform (0.0 : Float) 1.0).validate = .ok () := rfl
  have steady : (Distribution.fixed (2.5 : Float)).validate = .ok () := rfl
  constructor
  · obtain ⟨result, ran, _⟩ := exists_runDeterministic_spread moderate
    refine ⟨result, ran, ?_⟩
    refine ((allFinite_parameters_iff (ofText?_spreadModel moderate)).2.1 ran).mpr ?_
    intro parameter member marginal partners value_eq
    cases List.mem_singleton.mp member
    cases value_eq
    unfold Distribution.MeanFits Binary64.Fits
    decide +kernel
  · obtain ⟨sampler, result, prepared, ran⟩ := exists_runSingle_spread steady (by decide +kernel)
    refine ⟨sampler, result, prepared, ran, ?_⟩
    refine ((allFinite_parameters_iff (ofText?_spreadModel steady)).2.2 prepared ran).mpr ?_
    intro draw drawn
    have entry_mem := (List.of_mem_zip drawn).1
    rw [parameters_of_sampler prepared] at entry_mem
    rw [List.mem_singleton.mp entry_mem]
    trivial

/-- A valid distribution whose mean overflows: its model is read from a text and accepted, and the
run completes with an infinite parameter.  The draws of another one overflow, all of them. -/
theorem infinite_parameter_spread :
    (∃ valid : (Distribution.uniform (1e308 : Float) 1.7e308).validate = .ok (),
      Model.ofText? (spreadModel (.uniform 1e308 1.7e308)).text =
          some (spreadModel (.uniform 1e308 1.7e308)) ∧
        create (spreadModel (.uniform 1e308 1.7e308)) .empty .default =
          .ok (spreadEngine _ valid) ∧
        ∃ result, (spreadEngine _ valid).runDeterministic 0 = .ok result ∧
          result.status = .completed ∧
          result.parameters.get? "spread" = some (.number Binary64.infinity)) ∧
    (Distribution.uniform (-1.7e308 : Float) 1.7e308).validate = .ok () ∧
      ∀ z, ((Distribution.uniform (-1.7e308 : Float) 1.7e308).fromStandardNormal z).isFinite =
        false := by
  have wide : (Distribution.uniform (1e308 : Float) 1.7e308).validate = .ok () := by
    refine (Distribution.validate_eq_ok_iff _).mpr ⟨by decide +kernel, ?_⟩
    unfold Distribution.InOrder
    decide +kernel
  have wider : (Distribution.uniform (-1.7e308 : Float) 1.7e308).validate = .ok () := by
    refine (Distribution.validate_eq_ok_iff _).mpr ⟨by decide +kernel, ?_⟩
    unfold Distribution.InOrder
    decide +kernel
  have mean_eq : (Distribution.uniform (1e308 : Float) 1.7e308).mean = Binary64.infinity := by
    decide +kernel
  have overflows :
      ¬Binary64.Fits (Binary64.toRat 1.7e308 - Binary64.toRat (-1.7e308 : Float)) := by
    unfold Binary64.Fits
    decide +kernel
  obtain ⟨result, ran, completed, given⟩ := exists_runDeterministic_spread wide
  rw [mean_eq] at given
  refine ⟨⟨wide, ofText?_spreadModel wide, create_eq_ok _ _, result, ran, completed, given⟩, wider,
    fun z => ?_⟩
  rw [← Bool.not_eq_true, Distribution.isFinite_draw_iff wider]
  rintro ⟨-, fits, -⟩
  exact overflows fits

end Engine

end EconModel
