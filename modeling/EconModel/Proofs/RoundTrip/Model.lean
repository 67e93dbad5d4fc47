import EconModel.Model.Json
import EconModel.Proofs.PolicyRun
import EconModel.Proofs.RoundTrip.Expr
import EconModel.Proofs.RoundTrip.Value
import Mathlib.Data.Set.Function

/-!
# Models read back

A model that is written reads back exactly where its numbers are finite, its given values can be
told from their text, and its text nests no deeper than may be read.
-/

namespace EconModel

open Json (Decoder Document)

/-! ## Parameters -/

namespace Distribution

/-- The numbers of a distribution. -/
def numbers {α : Type} : Distribution α → List α
  | .normal mean deviation => [mean, deviation]
  | .logNormal mu sigma => [mu, sigma]
  | .uniform min max => [min, max]
  | .triangular min mode max => [min, mode, max]
  | .exponential rate => [rate]
  | .fixed value => [value]

theorem reads (marginal : Distribution Float) (nesting : ℕ) :
    Decoder.Reads decode nesting marginal.toDocument marginal
      (∀ number ∈ marginal.numbers, number.isFinite = true) := by
  cases marginal with
  | normal mean deviation =>
      refine Decoder.tagged_record_reads rfl (by decide) (by rfl) fun inner _ ahead fits => ?_
      have mean_reads := Decoder.required_reads "mean" rfl (Decoder.reads_float mean) fits
      have deviation_reads := Decoder.required_reads "std_dev" rfl (Decoder.reads_float deviation)
        fits
      simp [Option.bind_eq_some_iff, mean_reads, deviation_reads, numbers, and_left_comm]
  | logNormal mu sigma =>
      refine Decoder.tagged_record_reads rfl (by decide) (by rfl) fun inner _ ahead fits => ?_
      have mu_reads := Decoder.required_reads "mu" rfl (Decoder.reads_float mu) fits
      have sigma_reads := Decoder.required_reads "sigma" rfl (Decoder.reads_float sigma) fits
      simp [Option.bind_eq_some_iff, mu_reads, sigma_reads, numbers, and_left_comm]
  | uniform min max =>
      refine Decoder.tagged_record_reads rfl (by decide) (by rfl) fun inner _ ahead fits => ?_
      have min_reads := Decoder.required_reads "min" rfl (Decoder.reads_float min) fits
      have max_reads := Decoder.required_reads "max" rfl (Decoder.reads_float max) fits
      simp [Option.bind_eq_some_iff, min_reads, max_reads, numbers, and_left_comm]
  | triangular min mode max =>
      refine Decoder.tagged_record_reads rfl (by decide) (by rfl) fun inner _ ahead fits => ?_
      have min_reads := Decoder.required_reads "min" rfl (Decoder.reads_float min) fits
      have mode_reads := Decoder.required_reads "mode" rfl (Decoder.reads_float mode) fits
      have max_reads := Decoder.required_reads "max" rfl (Decoder.reads_float max) fits
      simp [Option.bind_eq_some_iff, min_reads, mode_reads, max_reads, numbers, and_left_comm]
  | exponential rate =>
      refine Decoder.tagged_record_reads rfl (by decide) (by rfl) fun inner _ ahead fits => ?_
      have rate_reads := Decoder.required_reads "rate" rfl (Decoder.reads_float rate) fits
      simp [Option.bind_eq_some_iff, rate_reads, numbers]
  | fixed value =>
      refine Decoder.tagged_record_reads rfl (by decide) (by rfl) fun inner _ ahead fits => ?_
      have value_reads := Decoder.required_reads "value" rfl (Decoder.reads_float value) fits
      simp [Option.bind_eq_some_iff, value_reads, numbers]

end Distribution

namespace CorrelationPartner

theorem reads (partner : CorrelationPartner) (nesting : ℕ) :
    Decoder.Reads decode nesting partner.toDocument partner
      (partner.coefficient.isFinite = true) := by
  obtain ⟨parameter, coefficient⟩ := partner
  refine Decoder.record_reads (by decide) (by rfl) fun inner _ ahead fits => ?_
  have name_reads := Decoder.required_reads "parameter" rfl (Decoder.reads_text parameter) fits
  have coefficient_reads := Decoder.required_reads "coefficient" rfl
    (Decoder.reads_float coefficient) fits
  simp [Option.bind_eq_some_iff, name_reads, coefficient_reads, and_left_comm]

end CorrelationPartner

namespace ParameterValue

/-- The numbers of how a parameter gets its value are finite, and a given value can be told from its
text. -/
def Faithful : ParameterValue → Prop
  | .literal value => value.Faithful
  | .distribution marginal pointEstimate partners =>
      (∀ number ∈ marginal.numbers, number.isFinite = true) ∧
        (∀ estimate ∈ pointEstimate, estimate.isFinite = true) ∧
        ∀ partner ∈ partners, partner.coefficient.isFinite = true

theorem reads (value : ParameterValue) (nesting : ℕ) :
    Decoder.Reads decode nesting value.toDocument value value.Faithful := by
  cases value with
  | literal value =>
      refine Decoder.tagged_record_reads rfl (by decide) (by rfl) fun inner _ ahead fits => ?_
      have value_reads := Decoder.required_reads "value" rfl (value.reads inner) fits
      simp [Option.bind_eq_some_iff, value_reads, Faithful]
  | distribution marginal pointEstimate partners =>
      have document_eq : toDocument (.distribution marginal pointEstimate partners) =
          .object (("type", .text "distribution") :: ("distribution", marginal.toDocument) ::
            (Document.present "point_estimate" (pointEstimate.map .float) ++
              Document.present "correlated_with" (Decoder.omitIf partners.isEmpty
                (.list (partners.map CorrelationPartner.toDocument))))) := by
        rw [toDocument, Decoder.ite_eq_present]
        rfl
      rw [document_eq]
      refine Decoder.tagged_record_reads rfl (by decide)
        (by exact .cons_cons _ (Decoder.present_append_sublist
          (Decoder.map_fst_present_sublist _ _)))
        fun inner _ ahead fits => ?_
      have marginal_reads := Decoder.required_reads "distribution" rfl (marginal.reads inner) fits
      have estimate_reads := Decoder.present_reads "point_estimate" pointEstimate
        (by simp [Bindings.find?]) Decoder.reads_float
        (fun _ => rfl) fits
      have partners_reads := Decoder.nonempty_reads "correlated_with" partners
        (by simp [Bindings.find?])
        (Decoder.list_reads partners fun deeper _ partner _ => partner.reads deeper) fits
      simp [Option.bind_eq_some_iff, marginal_reads, estimate_reads, partners_reads, Faithful,
        and_assoc, and_left_comm]

end ParameterValue

namespace Parameter

theorem reads (parameter : Parameter) (nesting : ℕ) :
    Decoder.Reads decode nesting parameter.toDocument parameter parameter.value.Faithful := by
  obtain ⟨name, unit, value⟩ := parameter
  change Decoder.Reads decode nesting
    (.object (("name", .text name) ::
      (Document.present "unit" (unit.map .text) ++ [("value", value.toDocument)]))) _ _
  refine Decoder.record_reads (by decide)
    (by exact .cons_cons _ (Decoder.present_append_sublist (.refl _))) fun inner _ ahead fits => ?_
  have name_reads := Decoder.required_reads "name" rfl (Decoder.reads_text name) fits
  have unit_reads := Decoder.present_reads "unit" unit
    (by simp [Bindings.find?]) Decoder.reads_text
    (fun _ => rfl) fits
  have value_reads := Decoder.required_reads "value"
    (by simp [Bindings.find?]) (value.reads inner)
    fits
  simp [Option.bind_eq_some_iff, name_reads, unit_reads, value_reads, and_left_comm]

end Parameter

namespace CorrelationSpec

theorem reads (spec : CorrelationSpec) (nesting : ℕ) :
    Decoder.Reads decode nesting spec.toDocument spec (spec.coefficient.isFinite = true) := by
  obtain ⟨first, second, coefficient⟩ := spec
  refine Decoder.record_reads (by decide) (by rfl) fun inner _ ahead fits => ?_
  have first_reads := Decoder.required_reads "a" rfl (Decoder.reads_text first) fits
  have second_reads := Decoder.required_reads "b" rfl (Decoder.reads_text second) fits
  have coefficient_reads := Decoder.required_reads "coefficient" rfl
    (Decoder.reads_float coefficient) fits
  simp [Option.bind_eq_some_iff, first_reads, second_reads, coefficient_reads, and_left_comm]

end CorrelationSpec

/-! ## Equations and constraints -/

theorem EquationKind.find?_byName (kind : EquationKind) :
    Bindings.find? kind.name EquationKind.byName = some kind := by
  cases kind <;> rfl

namespace Equation

theorem reads (equation : Equation) (nesting : ℕ) :
    Decoder.Reads decode nesting equation.toDocument equation equation.expr.FiniteLiterals := by
  obtain ⟨target, kind, expr, dependencies⟩ := equation
  refine Decoder.record_reads (by decide) (by rfl) fun inner _ ahead fits => ?_
  have target_reads := Decoder.required_reads "variable" rfl (Decoder.reads_text target) fits
  have kind_reads := Decoder.required_reads "kind" rfl (Decoder.reads_choice kind.find?_byName) fits
  have expr_reads := Decoder.required_reads "expr" rfl (expr.reads inner) fits
  have dependencies_reads := Decoder.optional_reads "dependencies" [] rfl
    (Decoder.list_reads dependencies fun deeper _ name _ => Decoder.reads_text name) fits
  simp [Option.bind_eq_some_iff, target_reads, kind_reads, expr_reads, dependencies_reads,
    and_assoc, and_left_comm]

end Equation

namespace Constraint

theorem reads (constraint : Constraint) (nesting : ℕ) :
    Decoder.Reads decode nesting constraint.toDocument constraint
      constraint.condition.FiniteLiterals := by
  obtain ⟨name, condition, severity, message⟩ := constraint
  change Decoder.Reads decode nesting
    (.object (("name", .text name) :: ("condition", condition.toDocument) ::
      ("severity", .text severity.name) :: Document.present "message" (message.map .text))) _ _
  refine Decoder.record_reads (by decide)
    (by exact .cons_cons _ (.cons_cons _ (.cons_cons _ (Decoder.map_fst_present_sublist _ _))))
    fun inner _ ahead fits => ?_
  have name_reads := Decoder.required_reads "name" rfl (Decoder.reads_text name) fits
  have condition_reads := Decoder.required_reads "condition" rfl (condition.reads inner) fits
  have severity_reads := Decoder.optional_reads "severity" .warning rfl
    (Decoder.reads_choice severity.find?_byName) fits
  have message_reads := Decoder.present_reads "message" message
    (by simp [Bindings.find?]) Decoder.reads_text (fun _ => rfl) fits
  simp [Option.bind_eq_some_iff, name_reads, condition_reads, severity_reads, message_reads,
    and_left_comm]

end Constraint

/-! ## Policies -/

namespace Action

/-- The expressions of an action, apart from those of the actions inside it. -/
def exprs : Action → List Expr
  | .assign _ value => [value]
  | .block _ => []
  | .emit _ arguments => arguments.entries.map Prod.snd

/-- Every number that is written out in an action is finite, at any depth. -/
def FiniteLiterals (action : Action) : Prop :=
  ∀ node ∈ action.nodes, ∀ expr ∈ node.exprs, expr.FiniteLiterals

@[simp]
theorem finiteLiterals_assign (target : String) (value : Expr) :
    (assign target value).FiniteLiterals ↔ value.FiniteLiterals := by
  simp [FiniteLiterals, nodes, exprs]

@[simp]
theorem finiteLiterals_emit (name : String) (arguments : Bindings Expr) :
    (emit name arguments).FiniteLiterals ↔
      ∀ entry ∈ arguments.entries, entry.2.FiniteLiterals := by
  simp only [FiniteLiterals, nodes, exprs, List.mem_singleton, forall_eq, List.forall_mem_map]

@[simp]
theorem finiteLiterals_block (actions : List Action) :
    (block actions).FiniteLiterals ↔ ∀ action ∈ actions, action.FiniteLiterals := by
  simp only [FiniteLiterals, nodes, List.forall_mem_cons, exprs, List.not_mem_nil, false_imp_iff,
    implies_true, true_and, mem_nodesOfAll_iff]
  constructor
  · exact fun finite action member node inner => finite node ⟨action, member, inner⟩
  · rintro finite node ⟨action, member, inner⟩
    exact finite action member node inner

theorem toDocuments_eq_map (actions : List Action) :
    toDocuments actions = actions.map toDocument := by
  induction actions with
  | nil => rfl
  | cons action rest ih => rw [toDocuments, ih, List.map_cons]

theorem reads_decodeWithin (action : Action) : ∀ {limit nesting : ℕ}, nesting ≤ limit →
    Decoder.Reads (decodeWithin limit) nesting action.toDocument action action.FiniteLiterals := by
  induction action with
  | assign target value =>
      refine Decoder.within_reads rfl (fun _ => rfl) fun depth nesting _ => ?_
      refine Decoder.tagged_record_reads rfl (by decide) (by rfl) fun inner _ ahead fits => ?_
      have target_reads := Decoder.required_reads "target" rfl (Decoder.reads_text target) fits
      have value_reads := Decoder.required_reads "value" rfl (value.reads inner) fits
      simp [Option.bind_eq_some_iff, target_reads, value_reads, and_left_comm]
  | block actions ih =>
      rw [toDocument, toDocuments_eq_map]
      refine Decoder.within_reads rfl (fun _ => rfl) fun depth nesting enough => ?_
      refine Decoder.tagged_record_reads rfl (by decide) (by rfl) fun inner below ahead fits => ?_
      have actions_reads := Decoder.required_reads "actions" rfl
        (Decoder.list_reads actions fun deeper further action member =>
          ih action member (show deeper ≤ depth by omega)) fits
      simp [Option.bind_eq_some_iff, actions_reads]
  | emit name arguments =>
      refine Decoder.within_reads rfl (fun _ => rfl) fun depth nesting _ => ?_
      refine Decoder.tagged_record_reads rfl (by decide) (by rfl) fun inner _ ahead fits => ?_
      have name_reads := Decoder.required_reads "name" rfl (Decoder.reads_text name) fits
      have arguments_reads := Decoder.optional_reads "args" .empty rfl
        (Decoder.table_reads arguments fun deeper _ argument => argument.reads deeper) fits
      simp [Option.bind_eq_some_iff, name_reads, arguments_reads, and_left_comm]

theorem reads (action : Action) (nesting : ℕ) :
    Decoder.Reads decode nesting action.toDocument action action.FiniteLiterals :=
  action.reads_decodeWithin (le_refl nesting)

end Action

namespace Policy

/-- The numbers in the trigger and in the action of a policy are finite. -/
structure FiniteLiterals (policy : Policy) : Prop where
  trigger : policy.trigger.FiniteLiterals
  action : policy.action.FiniteLiterals

theorem finiteLiterals_iff {policy : Policy} :
    policy.FiniteLiterals ↔ policy.trigger.FiniteLiterals ∧ policy.action.FiniteLiterals :=
  ⟨fun finite => ⟨finite.trigger, finite.action⟩, fun finite => ⟨finite.1, finite.2⟩⟩

theorem reads (policy : Policy) (nesting : ℕ) :
    Decoder.Reads decode nesting policy.toDocument policy policy.FiniteLiterals := by
  obtain ⟨name, trigger, action⟩ := policy
  refine Decoder.record_reads (by decide) (by rfl) fun inner _ ahead fits => ?_
  have name_reads := Decoder.required_reads "name" rfl (Decoder.reads_text name) fits
  have trigger_reads := Decoder.required_reads "trigger" rfl (trigger.reads inner) fits
  have action_reads := Decoder.required_reads "action" rfl (action.reads inner) fits
  simp [Option.bind_eq_some_iff, name_reads, trigger_reads, action_reads, finiteLiterals_iff,
    and_assoc, and_left_comm]

end Policy

/-! ## Bytes of a text -/

theorem toList_loop (bytes : ByteArray) (position : ℕ) (before : List UInt8) :
    ByteArray.toList.loop bytes position before =
      before.reverse ++ bytes.data.toList.drop position := by
  fun_induction ByteArray.toList.loop bytes position before with
  | case1 position before inside ih =>
      have bound : position < bytes.data.toList.length := inside
      rw [ih, List.drop_eq_getElem_cons bound]
      simp [ByteArray.get!, inside]
  | case2 position before outside =>
      have bound : bytes.data.toList.length ≤ position := Nat.le_of_not_lt outside
      rw [List.drop_eq_nil_of_le bound, List.append_nil]

/-- A text is determined by its bytes. -/
theorem eq_of_toUTF8 {left right : String} (same : left.toUTF8.toList = right.toUTF8.toList) :
    left = right := by
  rw [ByteArray.toList, ByteArray.toList, toList_loop, toList_loop] at same
  simp only [List.reverse_nil, List.nil_append, List.drop_zero, Array.toList_inj] at same
  exact String.toByteArray_inj.mp (ByteArray.ext same)

/-! ## Models -/

namespace Model

/-- A model can be told from its text: its numbers are finite, and its given values can be told from
their texts. -/
structure Faithful (model : Model) : Prop where
  parameters : ∀ parameter ∈ model.parameters, parameter.value.Faithful
  equations : ∀ equation ∈ model.equations, equation.expr.FiniteLiterals
  constraints : ∀ constraint ∈ model.constraints, constraint.condition.FiniteLiterals
  policies : ∀ policy ∈ model.policies, policy.FiniteLiterals
  correlations : ∀ spec ∈ model.correlations, spec.coefficient.isFinite = true

theorem faithful_iff {model : Model} :
    model.Faithful ↔ (∀ parameter ∈ model.parameters, parameter.value.Faithful) ∧
      (∀ equation ∈ model.equations, equation.expr.FiniteLiterals) ∧
      (∀ constraint ∈ model.constraints, constraint.condition.FiniteLiterals) ∧
      (∀ policy ∈ model.policies, policy.FiniteLiterals) ∧
      ∀ spec ∈ model.correlations, spec.coefficient.isFinite = true :=
  ⟨fun faithful => ⟨faithful.parameters, faithful.equations, faithful.constraints,
    faithful.policies, faithful.correlations⟩,
    fun faithful => ⟨faithful.1, faithful.2.1, faithful.2.2.1, faithful.2.2.2.1,
      faithful.2.2.2.2⟩⟩

theorem reads (model : Model) (nesting : ℕ) :
    Decoder.Reads decode nesting model.toDocument model model.Faithful := by
  obtain ⟨version, name, horizon, parameters, equations, constraints, policies, correlations⟩ :=
    model
  have document_eq : toDocument
      ⟨version, name, horizon, parameters, equations, constraints, policies, correlations⟩ =
      .object (("version", .text version) :: ("name", .text name) :: ("horizon", .word horizon) ::
        ("parameters", .list (parameters.map Parameter.toDocument)) ::
        ("equations", .list (equations.map Equation.toDocument)) ::
        ("constraints", .list (constraints.map Constraint.toDocument)) ::
        ("policies", .list (policies.map Policy.toDocument)) ::
        Document.present "correlations" (Decoder.omitIf correlations.isEmpty
          (.list (correlations.map CorrelationSpec.toDocument)))) := by
    rw [toDocument, Decoder.ite_eq_present]
    rfl
  rw [document_eq]
  refine Decoder.record_reads (by decide) (by
    exact .cons_cons _ (.cons_cons _ (.cons_cons _ (.cons_cons _ (.cons_cons _ (.cons_cons _
      (.cons_cons _ (Decoder.map_fst_present_sublist _ _)))))))) fun inner _ ahead fits => ?_
  have version_reads := Decoder.optional_reads "version" currentVersion rfl
    (Decoder.reads_text version) fits
  have name_reads := Decoder.required_reads "name" rfl (Decoder.reads_text name) fits
  have horizon_reads := Decoder.required_reads "horizon" rfl (Decoder.reads_word horizon) fits
  have parameters_reads := Decoder.optional_reads "parameters" [] rfl
    (Decoder.list_reads parameters fun deeper _ parameter _ => parameter.reads deeper) fits
  have equations_reads := Decoder.optional_reads "equations" [] rfl
    (Decoder.list_reads equations fun deeper _ equation _ => equation.reads deeper) fits
  have constraints_reads := Decoder.optional_reads "constraints" [] rfl
    (Decoder.list_reads constraints fun deeper _ constraint _ => constraint.reads deeper) fits
  have policies_reads := Decoder.optional_reads "policies" [] rfl
    (Decoder.list_reads policies fun deeper _ policy _ => policy.reads deeper) fits
  have correlations_reads := Decoder.nonempty_reads "correlations" correlations
    (by simp [Bindings.find?])
    (Decoder.list_reads correlations fun deeper _ spec _ => spec.reads deeper) fits
  simp [Option.bind_eq_some_iff, version_reads, name_reads, horizon_reads, parameters_reads,
    equations_reads, constraints_reads, policies_reads, correlations_reads, faithful_iff]
  grind

/-- A model that is written reads back, in either style, exactly where it can be told from its text
and its text does not nest too deep. -/
theorem ofText?_render_eq_some_iff (model : Model) (style : Document.Style) :
    ofText? (model.toDocument.render style) = some model ↔
      model.Faithful ∧ model.toDocument.depth ≤ 127 :=
  Json.decode_render_eq_some_iff (model.reads Json.nestingLimit) style

theorem injOn_render (style : Document.Style) :
    Set.InjOn (fun model : Model => model.toDocument.render style)
      {model | model.Faithful ∧ model.toDocument.depth ≤ 127} := by
  intro left left_fits right right_fits same
  have left_read := (left.ofText?_render_eq_some_iff style).mpr left_fits
  have right_read := (right.ofText?_render_eq_some_iff style).mpr right_fits
  dsimp only at same
  rw [same] at left_read
  exact Option.some.inj (left_read.symm.trans right_read)

/-- A model that is written reads back exactly where it can be told from its text and its text does
not nest too deep.  No two such models have the same text, nor the same bytes under the hash that
gives their fingerprints. -/
theorem ofText?_text_iff_and_injOn :
    (∀ model : Model, ofText? model.text = some model ↔
      model.Faithful ∧ model.toDocument.depth ≤ 127) ∧
    Set.InjOn text {model | model.Faithful ∧ model.toDocument.depth ≤ 127} ∧
    Set.InjOn (fun model : Model => model.compactText.toUTF8.toList)
      {model | model.Faithful ∧ model.toDocument.depth ≤ 127} := by
  refine ⟨fun model => model.ofText?_render_eq_some_iff .indented, injOn_render .indented, ?_⟩
  intro left left_fits right right_fits same
  exact injOn_render .compact left_fits right_fits (eq_of_toUTF8 same)

end Model

end EconModel
