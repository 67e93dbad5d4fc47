import EconModel.Aggregate
import EconModel.Proofs.RoundTrip.Value
import EconModel.Proofs.RunId

/-!
# Results read back

The result of a run and the result of a batch are written with every record in them.  They read back
exactly where their values can be told from their text, their numbers are finite, and their text
nests no deeper than may be read.
-/

namespace EconModel

open Json (Decoder Document)

/-! ## Records of the log -/

namespace Shortfall

/-- The numbers of a shortfall that are known. -/
def numbers (shortfall : Shortfall) : List Float :=
  shortfall.actual.toList ++ shortfall.expected.toList ++ shortfall.amount.toList

theorem forall_numbers {shortfall : Shortfall} {p : Float → Prop} :
    (∀ number ∈ shortfall.numbers, p number) ↔
      (∀ number, shortfall.actual = some number → p number) ∧
        (∀ number, shortfall.expected = some number → p number) ∧
        ∀ number, shortfall.amount = some number → p number := by
  simp [numbers, or_imp, forall_and]

end Shortfall

namespace Violation

theorem reads (violation : Violation) (nesting : ℕ) :
    Decoder.Reads decode nesting violation.toDocument violation
      (∀ number ∈ violation.shortfall.numbers, number.isFinite = true) := by
  obtain ⟨timestep, constraint, severity, message, actual, expected, operator, amount⟩ := violation
  have document_eq : toDocument
      ⟨timestep, constraint, severity, message, actual, expected, operator, amount⟩ =
      .object (("timestep", .word timestep) :: ("constraint", .text constraint) ::
        ("severity", .text severity.name) ::
        (Document.present "message" (message.map .text) ++
          (Document.present "actual_value" (actual.map .float) ++
            (Document.present "expected_value" (expected.map .float) ++
              (Document.present "operator" (operator.map .text) ++
                Document.present "violation_amount" (amount.map .float)))))) := by
    simp [toDocument]
  rw [document_eq]
  refine Decoder.record_reads (by decide) (by
    exact .cons_cons _ (.cons_cons _ (.cons_cons _ (Decoder.present_append_sublist
      (Decoder.present_append_sublist (Decoder.present_append_sublist
        (Decoder.present_append_sublist (Decoder.map_fst_present_sublist _ _))))))))
    fun inner _ ahead fits => ?_
  have timestep_reads := Decoder.required_reads "timestep" rfl (Decoder.reads_word timestep) fits
  have constraint_reads := Decoder.required_reads "constraint" rfl (Decoder.reads_text constraint)
    fits
  have severity_reads := Decoder.required_reads "severity" rfl
    (Decoder.reads_choice severity.find?_byName) fits
  have message_reads := Decoder.present_reads "message" message
    (by simp [Bindings.find?]) Decoder.reads_text
    (fun _ => rfl) fits
  have actual_reads := Decoder.present_reads "actual_value" actual
    (by simp [Bindings.find?]) Decoder.reads_float
    (fun _ => rfl) fits
  have expected_reads := Decoder.present_reads "expected_value" expected
    (by simp [Bindings.find?]) Decoder.reads_float
    (fun _ => rfl) fits
  have operator_reads := Decoder.present_reads "operator" operator
    (by simp [Bindings.find?]) Decoder.reads_text
    (fun _ => rfl) fits
  have amount_reads := Decoder.present_reads "violation_amount" amount
    (by simp [Bindings.find?]) Decoder.reads_float
    (fun _ => rfl) fits
  simp [Option.bind_eq_some_iff, timestep_reads, constraint_reads, severity_reads, message_reads,
    actual_reads, expected_reads, operator_reads, amount_reads, Shortfall.forall_numbers]

end Violation

namespace EmittedEvent

theorem reads (event : EmittedEvent) (nesting : ℕ) :
    Decoder.Reads decode nesting event.toDocument event
      (∀ entry ∈ event.arguments.entries, entry.2.Faithful) := by
  obtain ⟨name, arguments, timestep, policy⟩ := event
  refine Decoder.record_reads (by decide) (by rfl) fun inner _ ahead fits => ?_
  have name_reads := Decoder.required_reads "name" rfl (Decoder.reads_text name) fits
  have arguments_reads := Decoder.required_reads "args" rfl
    (Decoder.table_reads arguments fun deeper _ argument => argument.reads deeper) fits
  have timestep_reads := Decoder.required_reads "timestep" rfl (Decoder.reads_word timestep) fits
  have policy_reads := Decoder.required_reads "policy" rfl (Decoder.reads_text policy) fits
  simp [Option.bind_eq_some_iff, name_reads, arguments_reads, timestep_reads, policy_reads,
    and_left_comm]

end EmittedEvent

namespace PolicyFiring

theorem reads (firing : PolicyFiring) (nesting : ℕ) :
    Decoder.Reads decode nesting firing.toDocument firing True := by
  obtain ⟨policy, timestep⟩ := firing
  refine Decoder.record_reads (by decide) (by rfl) fun inner _ ahead fits => ?_
  have policy_reads := Decoder.required_reads "policy" rfl (Decoder.reads_text policy) fits
  have timestep_reads := Decoder.required_reads "timestep" rfl (Decoder.reads_word timestep) fits
  simp [Option.bind_eq_some_iff, policy_reads, timestep_reads]

end PolicyFiring

namespace Diagnostic

/-- A diagnostic with a reason is read by the variant of its tag, whatever it calls what failed. -/
theorem reads_failure {tag subject : String} {variants : List (String × Decoder Diagnostic)}
    {build : UInt64 → String → String → Diagnostic}
    (selected : Bindings.find? tag variants = some (decodeFailure subject build))
    (injective : ∀ {timestep timestep' : UInt64} {failed failed' reason reason' : String},
      build timestep failed reason = build timestep' failed' reason' ↔
        timestep = timestep' ∧ failed = failed' ∧ reason = reason')
    (distinct : ["type", "timestep", subject, "reason"].Nodup) (timestep : UInt64)
    (failed reason : String) (nesting : ℕ) :
    Decoder.Reads (Decoder.tagged "type" variants) nesting
      (tagged tag timestep [(subject, failed), ("reason", reason)])
      (build timestep failed reason) True := by
  change Decoder.Reads _ _ (.object (("type", .text tag) :: ("timestep", .word timestep) ::
    [(subject, .text failed), ("reason", .text reason)])) _ _
  refine Decoder.tagged_record_reads selected distinct (by rfl) fun inner _ ahead fits => ?_
  have different : "timestep" ≠ subject ∧ subject ≠ "reason" := by
    constructor
    · rintro rfl
      simp at distinct
    · rintro rfl
      simp at distinct
  have timestep_reads := Decoder.required_reads "timestep" rfl (Decoder.reads_word timestep) fits
  have failed_reads := Decoder.required_reads subject (by simp [Bindings.find?, different.1])
    (Decoder.reads_text failed) fits
  have reason_reads := Decoder.required_reads "reason" (by simp [Bindings.find?, different.2])
    (Decoder.reads_text reason) fits
  simp [Option.bind_eq_some_iff, timestep_reads, failed_reads, reason_reads, injective]

theorem reads (diagnostic : Diagnostic) (nesting : ℕ) :
    Decoder.Reads decode nesting diagnostic.toDocument diagnostic True := by
  cases diagnostic with
  | convergence warning =>
      obtain ⟨timestep, iterations, unresolved⟩ := warning
      refine Decoder.tagged_record_reads rfl (by decide) (by rfl) fun inner _ ahead fits => ?_
      have timestep_reads := Decoder.required_reads "timestep" rfl (Decoder.reads_word timestep)
        fits
      have iterations_reads := Decoder.required_reads "iterations" rfl
        (Decoder.reads_word iterations) fits
      have unresolved_reads := Decoder.required_reads "unresolved" rfl
        (Decoder.table_reads unresolved fun deeper _ failure => Decoder.reads_text failure) fits
      simp [Option.bind_eq_some_iff, timestep_reads, iterations_reads, unresolved_reads]
  | divisionByZero timestep location =>
      change Decoder.Reads _ _ (.object (("type", .text "division_by_zero") ::
        ("timestep", .word timestep) :: [("context", .text location)])) _ _
      refine Decoder.tagged_record_reads rfl (by decide) (by rfl) fun inner _ ahead fits => ?_
      have timestep_reads := Decoder.required_reads "timestep" rfl (Decoder.reads_word timestep)
        fits
      have location_reads := Decoder.required_reads "context" rfl (Decoder.reads_text location) fits
      simp [Option.bind_eq_some_iff, timestep_reads, location_reads]
  | recurrenceFailed timestep target reason =>
      exact reads_failure rfl (by simp) (by decide) timestep target reason nesting
  | constraintSkipped timestep constraint reason =>
      exact reads_failure rfl (by simp) (by decide) timestep constraint reason nesting
  | policyFailed timestep policy reason =>
      exact reads_failure rfl (by simp) (by decide) timestep policy reason nesting

end Diagnostic

/-! ## The result of a run -/

namespace RunMetadata

theorem reads (metadata : RunMetadata) (nesting : ℕ) :
    Decoder.Reads decode nesting metadata.toDocument metadata True := by
  obtain ⟨id, modelName, fingerprint, seed, index, horizon⟩ := metadata
  change Decoder.Reads decode nesting (.object
    (("run_id", id.toDocument) :: ("model_name", .text modelName) ::
      ("model_fingerprint", .text fingerprint) :: ("seed", .word seed) ::
      (Document.present "run_index" (index.map .word) ++ [("horizon", .word horizon)]))) _ _
  refine Decoder.record_reads (by decide) (by
    exact .cons_cons _ (.cons_cons _ (.cons_cons _ (.cons_cons _
      (Decoder.present_append_sublist (.refl _)))))) fun inner _ ahead fits => ?_
  have id_reads := Decoder.required_reads "run_id" rfl (id.reads inner) fits
  have name_reads := Decoder.required_reads "model_name" rfl (Decoder.reads_text modelName) fits
  have fingerprint_reads := Decoder.required_reads "model_fingerprint" rfl
    (Decoder.reads_text fingerprint) fits
  have seed_reads := Decoder.required_reads "seed" rfl (Decoder.reads_word seed) fits
  have index_reads := Decoder.present_reads "run_index" index
    (by simp [Bindings.find?]) Decoder.reads_word
    (fun _ => rfl) fits
  have horizon_reads := Decoder.required_reads "horizon"
    (by simp [Bindings.find?])
    (Decoder.reads_word horizon) fits
  simp [Option.bind_eq_some_iff, id_reads, name_reads, fingerprint_reads, seed_reads, index_reads,
    horizon_reads]

end RunMetadata

namespace RunStatus

theorem reads (status : RunStatus) (nesting : ℕ) :
    Decoder.Reads decode nesting status.toDocument status True := by
  cases status with
  | completed =>
      exact Decoder.tagged_reads rfl (by simp) (Decoder.unit_reads completed)
  | halted timestep =>
      refine Decoder.tagged_record_reads rfl (by decide) (by rfl) fun inner _ ahead fits => ?_
      have timestep_reads := Decoder.required_reads "timestep" rfl (Decoder.reads_word timestep)
        fits
      simp [Option.bind_eq_some_iff, timestep_reads]

end RunStatus

namespace RunResult

/-- The result of a run can be told from its text: so can its values, and the numbers of its
violations are finite. -/
structure Faithful (result : RunResult) : Prop where
  parameters : ∀ entry ∈ result.parameters.entries, entry.2.Faithful
  scalars : ∀ entry ∈ result.scalars.entries, entry.2.Faithful
  series : ∀ entry ∈ result.series.entries, ∀ value ∈ entry.2, value.Faithful
  violations : ∀ violation ∈ result.log.violations, ∀ number ∈ violation.shortfall.numbers,
    number.isFinite = true
  events : ∀ event ∈ result.log.events, ∀ entry ∈ event.arguments.entries, entry.2.Faithful

theorem faithful_iff {result : RunResult} :
    result.Faithful ↔ (∀ entry ∈ result.parameters.entries, entry.2.Faithful) ∧
      (∀ entry ∈ result.scalars.entries, entry.2.Faithful) ∧
      (∀ entry ∈ result.series.entries, ∀ value ∈ entry.2, value.Faithful) ∧
      (∀ violation ∈ result.log.violations, ∀ number ∈ violation.shortfall.numbers,
        number.isFinite = true) ∧
      ∀ event ∈ result.log.events, ∀ entry ∈ event.arguments.entries, entry.2.Faithful :=
  ⟨fun faithful => ⟨faithful.parameters, faithful.scalars, faithful.series, faithful.violations,
    faithful.events⟩,
    fun faithful => ⟨faithful.1, faithful.2.1, faithful.2.2.1, faithful.2.2.2.1,
      faithful.2.2.2.2⟩⟩

theorem reads (result : RunResult) (nesting : ℕ) :
    Decoder.Reads decode nesting result.toDocument result result.Faithful := by
  obtain ⟨metadata, status, parameters, scalars, series, violations, events, firings,
    diagnostics⟩ := result
  have document_eq : toDocument
      ⟨metadata, status, parameters, scalars, series, violations, events, firings, diagnostics⟩ =
      .object (("metadata", metadata.toDocument) :: ("status", status.toDocument) ::
        ("parameters", .table Value.toDocument parameters) ::
        (Document.present "scalars" (Decoder.omitIf scalars.isEmpty
            (.table Value.toDocument scalars)) ++
          [("series", .table (fun values => .list (values.map Value.toDocument)) series),
            ("violations", .list (violations.map Violation.toDocument)),
            ("events", .list (events.map EmittedEvent.toDocument)),
            ("firings", .list (firings.map PolicyFiring.toDocument)),
            ("diagnostics", .list (diagnostics.map Diagnostic.toDocument))])) := by
    rw [toDocument, Decoder.ite_eq_present]
    rfl
  rw [document_eq]
  refine Decoder.record_reads (by decide) (by
    exact .cons_cons _ (.cons_cons _ (.cons_cons _ (Decoder.present_append_sublist (.refl _)))))
    fun inner _ ahead fits => ?_
  have metadata_reads := Decoder.required_reads "metadata" rfl (metadata.reads inner) fits
  have status_reads := Decoder.required_reads "status" rfl (status.reads inner) fits
  have parameters_reads := Decoder.required_reads "parameters" rfl
    (Decoder.table_reads parameters fun deeper _ value => value.reads deeper) fits
  have scalars_reads := Decoder.nonempty_table_reads "scalars" scalars
    (by simp [Bindings.find?])
    (Decoder.table_reads scalars fun deeper _ value => value.reads deeper) fits
  have series_reads := Decoder.required_reads "series"
    (by simp [Bindings.find?])
    (Decoder.table_reads series fun deeper _ values =>
      Decoder.list_reads values fun deepest _ value _ => value.reads deepest) fits
  have violations_reads := Decoder.required_reads "violations"
    (by simp [Bindings.find?])
    (Decoder.list_reads violations fun deeper _ violation _ => violation.reads deeper) fits
  have events_reads := Decoder.required_reads "events"
    (by simp [Bindings.find?])
    (Decoder.list_reads events fun deeper _ event _ => event.reads deeper) fits
  have firings_reads := Decoder.required_reads "firings"
    (by simp [Bindings.find?])
    (Decoder.list_reads firings fun deeper _ firing _ => firing.reads deeper) fits
  have diagnostics_reads := Decoder.required_reads "diagnostics"
    (by simp [Bindings.find?])
    (Decoder.list_reads diagnostics fun deeper _ diagnostic _ => diagnostic.reads deeper) fits
  simp [Option.bind_eq_some_iff, metadata_reads, status_reads, parameters_reads, scalars_reads,
    series_reads, violations_reads, events_reads, firings_reads, diagnostics_reads, faithful_iff]
  grind

end RunResult

/-! ## The result of a batch -/

theorem Column.reads (column : Column) (nesting : ℕ) :
    Decoder.Reads (Decoder.list (Decoder.nullable Decoder.float)) nesting
      (AggregateResult.columnDocument column) column
      (∀ entry ∈ column, ∀ number ∈ entry, number.isFinite = true) :=
  Decoder.list_reads column fun _ _ entry _ =>
    Decoder.nullable_reads entry Decoder.reads_float fun _ => rfl

namespace AggregateResult

/-- The result of a batch can be told from its text: so can those of its runs, and the numbers in
its columns are finite. -/
structure Faithful (aggregate : AggregateResult) : Prop where
  runs : ∀ run ∈ aggregate.runs, run.Faithful
  series : ∀ entry ∈ aggregate.series.entries, ∀ column ∈ entry.2, ∀ cell ∈ column,
    ∀ number ∈ cell, number.isFinite = true

theorem faithful_iff {aggregate : AggregateResult} :
    aggregate.Faithful ↔ (∀ run ∈ aggregate.runs, run.Faithful) ∧
      ∀ entry ∈ aggregate.series.entries, ∀ column ∈ entry.2, ∀ cell ∈ column,
        ∀ number ∈ cell, number.isFinite = true :=
  ⟨fun faithful => ⟨faithful.runs, faithful.series⟩, fun faithful => ⟨faithful.1, faithful.2⟩⟩

theorem reads (aggregate : AggregateResult) (nesting : ℕ) :
    Decoder.Reads decode nesting aggregate.toDocument aggregate aggregate.Faithful := by
  obtain ⟨modelName, fingerprint, baseSeed, requested, runs, cancelled, series⟩ := aggregate
  have document_eq : toDocument
      ⟨modelName, fingerprint, baseSeed, requested, runs, cancelled, series⟩ =
      .object (("model_name", .text modelName) :: ("model_fingerprint", .text fingerprint) ::
        ("base_seed", .word baseSeed) :: ("requested_runs", .word requested) ::
        ("runs", .list (runs.map RunResult.toDocument)) ::
        (Document.present "cancelled_runs" (Decoder.omitIf cancelled.isEmpty
            (.list (cancelled.map .word))) ++
          [("series", .table (fun columns => .list (columns.map columnDocument)) series)])) := by
    rw [toDocument, Decoder.ite_eq_present]
    rfl
  rw [document_eq]
  refine Decoder.record_reads (by decide) (by
    exact .cons_cons _ (.cons_cons _ (.cons_cons _ (.cons_cons _ (.cons_cons _
      (Decoder.present_append_sublist (.refl _))))))) fun inner _ ahead fits => ?_
  have name_reads := Decoder.required_reads "model_name" rfl (Decoder.reads_text modelName) fits
  have fingerprint_reads := Decoder.required_reads "model_fingerprint" rfl
    (Decoder.reads_text fingerprint) fits
  have seed_reads := Decoder.required_reads "base_seed" rfl (Decoder.reads_word baseSeed) fits
  have requested_reads := Decoder.required_reads "requested_runs" rfl
    (Decoder.reads_word requested) fits
  have runs_reads := Decoder.required_reads "runs" rfl
    (Decoder.list_reads runs fun deeper _ run _ => run.reads deeper) fits
  have cancelled_reads := Decoder.nonempty_reads "cancelled_runs" cancelled
    (by simp [Bindings.find?])
    (Decoder.list_reads cancelled fun deeper _ index _ => Decoder.reads_word index) fits
  have series_reads := Decoder.required_reads "series"
    (by simp [Bindings.find?])
    (Decoder.table_reads series fun deeper _ columns =>
      Decoder.list_reads columns fun deepest _ column _ => Column.reads column deepest) fits
  simp [Option.bind_eq_some_iff, name_reads, fingerprint_reads, seed_reads, requested_reads,
    runs_reads, cancelled_reads, series_reads, faithful_iff]
  constructor
  · rintro ⟨⟨runs_faithful, runs_fit⟩, cancelled_fit, series_finite, series_fit⟩
    exact ⟨⟨runs_faithful, series_finite⟩, runs_fit, cancelled_fit, series_fit⟩
  · rintro ⟨⟨runs_faithful, series_finite⟩, runs_fit, cancelled_fit, series_fit⟩
    exact ⟨⟨runs_faithful, runs_fit⟩, cancelled_fit, series_finite, series_fit⟩

end AggregateResult

/-- The result of a run, and likewise the result of a batch, reads back exactly where it can be told
from its text and its text does not nest too deep. -/
theorem decode_text_eq_some_iff :
    (∀ result : RunResult,
      (Json.read? result.text).bind (Json.decodeTree? RunResult.decode) = some result ↔
        result.Faithful ∧ result.toDocument.depth ≤ 127) ∧
    ∀ aggregate : AggregateResult,
      (Json.read? aggregate.text).bind (Json.decodeTree? AggregateResult.decode) =
          some aggregate ↔
        aggregate.Faithful ∧ aggregate.toDocument.depth ≤ 127 :=
  ⟨fun result => Json.decode_render_eq_some_iff (result.reads Json.nestingLimit) .indented,
    fun aggregate => Json.decode_render_eq_some_iff (aggregate.reads Json.nestingLimit) .indented⟩

end EconModel
