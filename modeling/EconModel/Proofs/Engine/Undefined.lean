import EconModel.Proofs.Engine.Progress
import EconModel.Proofs.Evaluation.Defined

/-!
# Undefined slots and their diagnostics

A slot of a run is undefined because an equation stayed unresolved or because a recurrence had no
value, and either is reported.  Policies write values that are defined, so what has been reported
stays undefined unless a policy that fired assigned the variable.
-/

namespace EconModel

namespace Log

/-- A warning says that a variable stayed unresolved at a timestep. -/
def ReportsUnresolved (log : Log) (timestep : Nat) (name : String) : Prop :=
  ∃ warning, .convergence warning ∈ log.diagnostics ∧ warning.timestep.toNat = timestep ∧
    name ∈ warning.unresolved.names

/-- A diagnostic says that the recurrence of a variable failed at a timestep. -/
def ReportsRecurrence (log : Log) (timestep : Nat) (name : String) : Prop :=
  ∃ stamp reason, .recurrenceFailed stamp name reason ∈ log.diagnostics ∧ stamp.toNat = timestep

variable {marks : List Diagnostic} {log : Log}
  (marked : ∀ mark ∈ marks, ∃ location, mark = .divisionByZero 0 location)

include marked

theorem reportsUnresolved_append_marks (timestep : Nat) (name : String) :
    (ofDiagnostics marks ++ log).ReportsUnresolved timestep name ↔
      log.ReportsUnresolved timestep name :=
  exists_congr fun _ => and_congr_left' (mem_append_marks_iff marked (by nofun))

theorem reportsRecurrence_append_marks (timestep : Nat) (name : String) :
    (ofDiagnostics marks ++ log).ReportsRecurrence timestep name ↔
      log.ReportsRecurrence timestep name :=
  exists_congr fun _ => exists_congr fun _ =>
    and_congr_left' (mem_append_marks_iff marked (by nofun))

end Log

namespace Engine

variable {engine : Engine} {environment : Environment} {checkpoint : Checkpoint}
  {position : Position} {outcome : StepOutcome} {name : String}

/-! ## Scalars -/

/-- Every resolved scalar leaves an environment without undefined values. -/
theorem steady_defined (engine : Engine) (parameters : Bindings Value) :
    Solver.Steady (engine.scalarStep parameters) (engine.model.equationsOf .scalar)
      fun _ entry => (engine.environment parameters entry.1).Defined where
  success := by
    rintro done ⟨kept, found⟩ next equation defined _ _ attempt
    cases evaluated : ((engine.scalarView parameters kept).evalFinite equation.expr).result with
    | error error =>
        rw [(engine.keeps_scalarStep parameters).failure found evaluated] at attempt
        cases attempt
    | ok value =>
        rw [scalarView] at evaluated
        simp only [scalarStep, evaluated] at attempt
        cases attempt
        refine ⟨defined.parameters, ?_, defined.functions⟩
        intro name present
        change (kept.insert equation.target value).get? name = _ at present
        rw [Bindings.get?_insert] at present
        split at present
        · cases present
          exact Context.evalFinite_ne_undefined defined equation.expr evaluated
        · exact defined.scalars name present
  failure := by
    rintro done ⟨kept, found⟩ next equation error _ _ _ attempt
    cases evaluated : ((engine.scalarView parameters kept).evalFinite equation.expr).result with
    | error error =>
        rw [(engine.keeps_scalarStep parameters).failure found evaluated] at attempt
        cases attempt
        rfl
    | ok value =>
        rw [scalarView] at evaluated
        simp only [scalarStep, evaluated] at attempt
        cases attempt

/-- Resolved scalars are defined where parameters and functions are. -/
theorem defined_of_solveScalars {parameters scalars : Bindings Value} {marks : List Diagnostic}
    (solved : engine.solveScalars parameters = .ok (scalars, marks))
    (parameters_defined : ∀ name, parameters.get? name ≠ some .undefined)
    (functions_defined : ∀ function arguments,
      engine.functions.call function arguments ≠ .ok .undefined) :
    (engine.environment parameters scalars).Defined := by
  have start : (engine.environment parameters .empty).Defined :=
    ⟨parameters_defined, nofun, functions_defined⟩
  have distinct : (engine.model.equationsOf .scalar).Nodup :=
    List.Nodup.of_map _ (engine.accepted.nodup_targets_equationsOf .scalar)
  obtain ⟨_, _, defined, _⟩ : ∃ done failed,
      (engine.environment parameters (engine.resolveScalars parameters).2.1).Defined ∧
        Solver.Divides (engine.scalarStep parameters) _ (engine.model.equationsOf .scalar)
          (.empty, []) done failed :=
    Solver.exists_divides (engine.steady_defined parameters) (engine.startingLimit_pos _) start
      distinct
  rw [(solveScalars_eq_ok_iff.mp solved).2] at defined
  exact defined

/-! ## Slots of a timestep -/

/-- The policies of a timestep, whose firings are given, assign to a variable. -/
abbrev AssignedAt (engine : Engine) (environment : Environment) (timestep : Nat)
    (firings : List PolicyFiring) (name : String) : Prop :=
  (engine.policySetting environment timestep).Assigned engine.model.policies firings name

section Slots

variable (unhidden : engine.Unhidden environment.scalars) (defined : environment.Defined)
  (does : engine.Does environment checkpoint position outcome)
  (rests : engine.Rests position.state position.timestep)

include unhidden does rests

/-- After the resolution a slot changes only by an assignment, which writes a value. -/
theorem slot_cases (name : String) :
    outcome.state.valueAt? name position.timestep =
        (engine.settledContext environment position).state.valueAt? name position.timestep ∨
      engine.AssignedAt environment position.timestep outcome.log.firings name ∧
        ∃ state expr value, ((environment.view position.timestep state).evalFinite expr).result =
            .ok value ∧
          outcome.state.valueAt? name position.timestep = some value := by
  obtain ⟨done, failed, ends⟩ := exists_endsAt unhidden rests
  rw [does.outcome_eq]
  rcases fatal : (engine.reportAt environment position.timestep
      (engine.openedAt position)).isFatal with _ | _
  · rw [finish_of_not_isFatal fatal]
    have effected := effected_effectAt ends (openAt_opened rests position.next)
    refine (effected.slot name).imp_right fun ⟨assigned, written⟩ => ⟨?_, written⟩
    refine assigned.mono fun firing member => ?_
    exact List.mem_append_left _ (List.mem_append_right _ member)
  · rw [finish_of_isFatal fatal]
    exact .inl rfl

include defined in
theorem undefined_settled_of_undefined
    (undefined : outcome.state.valueAt? name position.timestep = some .undefined) :
    (engine.settledContext environment position).state.valueAt? name position.timestep =
      some .undefined := by
  rcases slot_cases unhidden does rests name with
    unchanged | ⟨_, state, expr, value, found, written⟩
  · rw [← unchanged, undefined]
  · rw [undefined] at written
    cases written
    exact (Context.evalFinite_ne_undefined defined expr found).elim

theorem undefined_or_assigned
    (undefined : (engine.settledContext environment position).state.valueAt? name
      position.timestep = some .undefined) :
    outcome.state.valueAt? name position.timestep = some .undefined ∨
      engine.AssignedAt environment position.timestep outcome.log.firings name := by
  rcases slot_cases unhidden does rests name with unchanged | ⟨assigned, _⟩
  · exact .inl (unchanged.trans undefined)
  · exact .inr assigned

/-! ## Unresolved equations -/

/-- The warnings of a timestep come from its resolution. -/
theorem mem_convergence_iff (warning : ConvergenceWarning) :
    .convergence warning ∈ outcome.log.diagnostics ↔
      .convergence warning ∈ convergenceDiagnostics position.timestep
        (engine.resolveAt environment position.timestep (engine.openedAt position)).1 := by
  obtain ⟨done, failed, ends⟩ := exists_endsAt unhidden rests
  rw [does.outcome_eq]
  constructor
  · intro member
    cases recorded_of_mem_finish ends (openAt_opened rests position.next) member with
    | unresolved stuck => exact stuck
  · exact mem_finish_of_unresolved

/-- The unresolved variables of a timestep are reported. -/
theorem reportsUnresolved_iff (name : String) :
    outcome.log.ReportsUnresolved position.timestep name ↔
      name ∈ (engine.resolveAt environment position.timestep
        (engine.openedAt position)).1.unresolved.names := by
  constructor
  · rintro ⟨warning, member, _, listed⟩
    rw [mem_convergence_iff unhidden does rests] at member
    cases (mem_convergenceDiagnostics_iff.mp member).2
    rw [Bindings.names_map] at listed
    exact listed
  · intro listed
    refine ⟨_, (mem_convergence_iff unhidden does rests _).mpr
      (mem_convergenceDiagnostics_iff.mpr ⟨List.ne_nil_of_mem listed, rfl⟩),
      does.begins.toNat_stamp, ?_⟩
    rw [Bindings.names_map]
    exact listed

include defined in
/-- A slot with a pending equation is undefined exactly if it is reported. -/
theorem undefined_settled_iff {equation : Equation}
    (member : equation ∈ engine.pendingAt position.timestep) :
    (engine.settledContext environment position).state.valueAt? equation.target
        position.timestep = some .undefined ↔
      outcome.log.ReportsUnresolved position.timestep equation.target := by
  obtain ⟨done, failed, ends⟩ := exists_endsAt unhidden rests
  rw [reportsUnresolved_iff unhidden does rests, ends.mem_names_unresolved_iff]
  constructor
  · intro undefined
    refine ⟨equation, member, ?_, rfl⟩
    intro resolved
    obtain ⟨value, found, kept⟩ := ends.exists_value resolved
    cases undefined.symm.trans kept
    exact Context.evalFinite_ne_undefined defined equation.expr found
  · rintro ⟨other, other_mem, fresh, target_eq⟩
    rw [← target_eq]
    exact ends.valueAt?_of_not_mem other_mem fresh

/-! ## Failed recurrences -/

/-- A recurrence is reported where the run goes on and its expression has no value. -/
theorem exists_error_of_recurrenceFailed {stamp : UInt64} {target reason : String}
    (member : .recurrenceFailed stamp target reason ∈ outcome.log.diagnostics) :
    outcome.halted = false ∧ engine.isLastAt position.timestep = false ∧
      ∃ equation ∈ engine.model.equationsOf .recurrence, equation.target = target ∧
        ∃ error, ((environment.view position.timestep (engine.effectAt environment
          position.timestep (engine.openedAt position)).state).evalFinite equation.expr).result =
            .error error := by
  obtain ⟨done, failed, ends⟩ := exists_endsAt unhidden rests
  rw [does.outcome_eq] at member ⊢
  rw [halted_finish]
  cases recorded_of_mem_finish ends (openAt_opened rests position.next) member with
  | unresolved stuck => cases (mem_convergenceDiagnostics_iff.mp stuck).2
  | recurrence passed isLast_eq equation_mem found =>
      exact ⟨passed, isLast_eq, _, equation_mem, rfl, _, found⟩

omit unhidden rests in
theorem state_of_proceeding (proceeding : outcome.halted = false) :
    outcome.state =
      (engine.effectAt environment position.timestep (engine.openedAt position)).state.commit := by
  rw [does.outcome_eq_of_proceeding proceeding]

omit unhidden rests in
theorem log_of_proceeding (proceeding : outcome.halted = false) :
    outcome.log = engine.settledLog environment position.timestep (engine.openedAt position) ++
      (engine.effectAt environment position.timestep (engine.openedAt position)).log ++
      .ofDiagnostics (engine.recurrencesAt environment position.timestep
        (engine.isLastAt position.timestep) (engine.openedAt position)).2 := by
  rw [does.outcome_eq_of_proceeding proceeding]

omit unhidden rests in
/-- Where the run goes on, the recurrences give the values for the next timestep. -/
theorem next_eq (proceeding : outcome.halted = false) :
    outcome.next = (engine.recurrencesAt environment position.timestep
      (engine.isLastAt position.timestep) (engine.openedAt position)).1 := by
  rw [does.outcome_eq_of_proceeding proceeding]

end Slots

theorem recurrence_eq_undefined_iff {context : Context} (defined : context.environment.Defined)
    (equation : Equation) : (recurrence context equation).1 = .undefined ↔
      ∃ error, (context.evalFinite equation.expr).result = .error error := by
  cases evaluated : (context.evalFinite equation.expr).result with
  | ok value =>
      rw [recurrence_of_ok evaluated]
      constructor
      · rintro rfl
        exact (Context.evalFinite_ne_undefined defined equation.expr evaluated).elim
      · rintro ⟨error, equal⟩
        cases equal
  | error error =>
      rw [recurrence_of_error evaluated]
      exact ⟨fun _ => ⟨error, rfl⟩, fun _ => rfl⟩

theorem get?_recurrences (engine : Engine) (context : Context) (name : String) (value : Value) :
    (recurrences context (engine.model.equationsOf .recurrence)).1.get? name = some value ↔
      ∃ equation ∈ engine.model.equationsOf .recurrence,
        equation.target = name ∧ (recurrence context equation).1 = value := by
  have distinct := engine.accepted.nodup_targets_equationsOf .recurrence
  unfold recurrences
  dsimp only
  rw [List.map_map, Bindings.get?_ofList_eq_some_iff (by simpa [Function.comp_def] using distinct)]
  simp

/-- Where the run goes on, every variable with a recurrence is given a value. -/
theorem exists_next_iff (does : engine.Does environment checkpoint position outcome)
    (proceeding : outcome.halted = false)
    (within : position.timestep + 1 < engine.model.horizon.toNat) (name : String) :
    (∃ value, outcome.next.get? name = some value) ↔
      engine.model.hasEquation name .recurrence = true := by
  have isLast_eq : engine.isLastAt position.timestep = false := by
    rw [isLastAt, beq_eq_false_iff_ne]
    omega
  rw [next_eq does proceeding, recurrencesAt, isLast_eq, Model.hasEquation_iff]
  constructor
  · rintro ⟨value, found⟩
    obtain ⟨equation, member, target_eq, _⟩ := (get?_recurrences engine _ _ _).mp found
    obtain ⟨equation_mem, kind_eq⟩ := (Model.mem_equationsOf_iff _ _ _).mp member
    exact ⟨equation, equation_mem, kind_eq, target_eq⟩
  · rintro ⟨equation, equation_mem, kind_eq, target_eq⟩
    have member := (Model.mem_equationsOf_iff _ _ _).mpr ⟨equation_mem, kind_eq⟩
    exact ⟨_, (get?_recurrences engine _ _ _).mpr ⟨equation, member, target_eq, rfl⟩⟩

/-- At the last timestep no variable is given a value. -/
theorem within_of_given (does : engine.Does environment checkpoint position outcome)
    (proceeding : outcome.halted = false) {value : Value}
    (given : outcome.next.get? name = some value) :
    position.timestep + 1 < engine.model.horizon.toNat := by
  rcases isLast_eq : engine.isLastAt position.timestep with _ | _
  · rw [isLastAt, beq_eq_false_iff_ne] at isLast_eq
    have bound := does.begins.within
    omega
  · rw [next_eq does proceeding, recurrencesAt, isLast_eq] at given
    cases given

/-- A failed recurrence is reported, and its value for the next timestep is undefined. -/
theorem reportsRecurrence_iff (unhidden : engine.Unhidden environment.scalars)
    (defined : environment.Defined) (does : engine.Does environment checkpoint position outcome)
    (rests : engine.Rests position.state position.timestep) (name : String) :
    outcome.log.ReportsRecurrence position.timestep name ↔
      outcome.halted = false ∧ outcome.next.get? name = some .undefined := by
  constructor
  · rintro ⟨stamp, reason, member, _⟩
    obtain ⟨proceeding, isLast_eq, equation, equation_mem, target_eq, failed⟩ :=
      exists_error_of_recurrenceFailed unhidden does rests member
    refine ⟨proceeding, ?_⟩
    rw [next_eq does proceeding, recurrencesAt, isLast_eq]
    exact (get?_recurrences engine _ _ _).mpr ⟨equation, equation_mem, target_eq,
      (recurrence_eq_undefined_iff defined equation).mpr failed⟩
  · rintro ⟨proceeding, found⟩
    rw [next_eq does proceeding] at found
    rcases isLast_eq : engine.isLastAt position.timestep with _ | _
    · rw [recurrencesAt, isLast_eq] at found
      obtain ⟨equation, equation_mem, rfl, undefined⟩ := (get?_recurrences engine _ _ _).mp found
      obtain ⟨error, failed⟩ := (recurrence_eq_undefined_iff defined equation).mp undefined
      refine ⟨UInt64.ofNat position.timestep, error.message, ?_, does.begins.toNat_stamp⟩
      rw [log_of_proceeding does proceeding]
      apply List.mem_append_right
      rw [recurrencesAt, isLast_eq]
      refine mem_diagnostics_recurrences_iff.mpr ⟨equation, equation_mem, ?_⟩
      rw [recurrence_of_error failed]
      exact List.mem_cons_self
    · rw [recurrencesAt, isLast_eq] at found
      cases found

/-! ## Slots without a pending equation -/

theorem exists_pending_start (engine : Engine) {name : String}
    (declared : name ∈ engine.model.variableNames) :
    ∃ equation ∈ engine.pendingAt 0, equation.target = name := by
  have of_initial (started : engine.model.hasEquation name .initial = true) :
      ∃ equation ∈ engine.pendingAt 0, equation.target = name := by
    obtain ⟨equation, member, kind_eq, target_eq⟩ := (Model.hasEquation_iff _ _ _).mp started
    exact ⟨equation, mem_pendingAt_iff.mpr ⟨member, .inl ⟨rfl, kind_eq⟩⟩, target_eq⟩
  have of_current (current : engine.model.hasEquation name .current = true) :
      ∃ equation ∈ engine.pendingAt 0, equation.target = name := by
    rcases started : engine.model.hasEquation name .initial with _ | _
    · obtain ⟨equation, member, kind_eq, rfl⟩ := (Model.hasEquation_iff _ _ _).mp current
      exact ⟨equation, mem_pendingAt_iff.mpr ⟨member, .inr ⟨kind_eq, fun _ => started⟩⟩, rfl⟩
    · exact of_initial started
  obtain ⟨equation, member, indexed, rfl⟩ := (Model.mem_variableNames_iff _ _).mp declared
  cases kind_eq : equation.kind with
  | initial => exact of_initial ((Model.hasEquation_iff _ _ _).mpr ⟨_, member, kind_eq, rfl⟩)
  | current => exact of_current ((Model.hasEquation_iff _ _ _).mpr ⟨_, member, kind_eq, rfl⟩)
  | recurrence =>
      exact (engine.accepted.hasEquation_of_recurrence member kind_eq).elim of_initial of_current
  | scalar =>
      rw [kind_eq] at indexed
      cases indexed

theorem exists_pending_iff (engine : Engine) (timestep : Nat) (name : String) :
    (∃ equation ∈ engine.pendingAt (timestep + 1), equation.target = name) ↔
      engine.model.hasEquation name .current = true := by
  rw [Model.hasEquation_iff]
  constructor
  · rintro ⟨equation, member, target_eq⟩
    obtain ⟨equation_mem, kind_eq⟩ := (Model.mem_equationsOf_iff _ _ _).mp member
    exact ⟨equation, equation_mem, kind_eq, target_eq⟩
  · rintro ⟨equation, equation_mem, kind_eq, target_eq⟩
    exact ⟨equation, (Model.mem_equationsOf_iff _ _ _).mpr ⟨equation_mem, kind_eq⟩, target_eq⟩

/-- Every variable has a last value after the first timestep. -/
theorem exists_valueAt? {timestep : Nat} {state : SimulationState}
    (rests : engine.Rests state (timestep + 1)) (declared : name ∈ engine.model.variableNames) :
    ∃ value, state.valueAt? name timestep = some value := by
  have series_mem : name ∈ state.series.names := by
    rw [rests.names_eq]
    exact declared
  obtain ⟨values, found⟩ := (Bindings.mem_names_iff _ _).mp series_mem
  have size_eq := rests.closed.size_eq found
  refine ⟨values[timestep], ?_⟩
  rw [SimulationState.valueAt?, found, Option.bind_some, Array.getElem?_eq_getElem]

/-- A variable without a current equation has the value of its recurrence, or else its last one. -/
theorem valueAt?_settled_of_not_current (unhidden : engine.Unhidden environment.scalars)
    {timestep : Nat} {state : SimulationState} {next : Bindings Value}
    (rests : engine.Rests state (timestep + 1)) (declared : name ∈ engine.model.variableNames)
    (not_current : engine.model.hasEquation name .current = false) :
    (engine.settledContext environment ⟨timestep + 1, state, next⟩).state.valueAt? name
        (timestep + 1) =
      some ((next.get? name).getD ((state.valueAt? name timestep).getD .undefined)) := by
  obtain ⟨done, failed, ends⟩ := exists_timestepEnds unhidden rests next
  have absent : ∀ equation ∈ engine.pendingAt (timestep + 1), equation.target ≠ name := by
    intro equation member target_eq
    rw [(exists_pending_iff engine timestep name).mp ⟨equation, member, target_eq⟩] at not_current
    cases not_current
  have series_mem : name ∈ state.series.names := by
    rw [rests.names_eq]
    exact declared
  obtain ⟨values, found⟩ := (Bindings.mem_names_iff _ _).mp series_mem
  change (engine.resolveAt environment (timestep + 1) (engine.opened (timestep + 1) state
    next)).2.1.valueAt? name (timestep + 1) = _
  rw [ends.valueAt?_of_not_pending absent, opened, SimulationState.valueAt?_openNext rests.closed,
    if_pos rfl, found, Option.map_some, SimulationState.back?_eq_valueAt? rests.closed found]
  simp [seed, not_current]

/-- Where a variable has no new value, its last one is carried on. -/
theorem undefined_of_carried (unhidden : engine.Unhidden environment.scalars) {timestep : Nat}
    {state : SimulationState} {next : Bindings Value} (rests : engine.Rests state (timestep + 1))
    (declared : name ∈ engine.model.variableNames)
    (not_current : engine.model.hasEquation name .current = false)
    (not_given : next.get? name = none)
    (undefined : (engine.settledContext environment ⟨timestep + 1, state, next⟩).state.valueAt?
      name (timestep + 1) = some .undefined) :
    state.valueAt? name timestep = some .undefined := by
  obtain ⟨value, found⟩ := exists_valueAt? rests declared
  rw [valueAt?_settled_of_not_current unhidden rests declared not_current, not_given,
    Option.getD_none, found, Option.getD_some] at undefined
  rw [found, undefined]

/-! ## Causes of undefined slots -/

/-- Why a slot of a timestep is undefined. -/
inductive Cause (engine : Engine) (environment : Environment) (checkpoint : Checkpoint)
    (position : Position) (outcome : StepOutcome) (name : String) : Prop where
  /-- A current equation stayed unresolved. -/
  | unresolved {equation : Equation} : equation ∈ engine.pendingAt position.timestep →
      equation.kind = .current → equation.target = name →
        outcome.log.ReportsUnresolved position.timestep name →
          Cause engine environment checkpoint position outcome name
  /-- The recurrence failed at the timestep before. -/
  | recurrence {earlier : Position} {before : StepOutcome} :
      Relation.ReflTransGen (engine.Advances environment checkpoint) engine.start earlier →
        engine.Does environment checkpoint earlier before →
          earlier.timestep + 1 = position.timestep →
            before.log.ReportsRecurrence earlier.timestep name →
              engine.model.hasEquation name .recurrence = true →
                engine.model.hasEquation name .current = false →
                  Cause engine environment checkpoint position outcome name

/-- What has a cause has a current equation or a recurrence. -/
theorem Cause.hasEquation (cause : engine.Cause environment checkpoint position outcome name) :
    engine.model.hasEquation name .current = true ∨
      engine.model.hasEquation name .recurrence = true := by
  cases cause with
  | unresolved member kind_eq target_eq _ =>
      exact .inl ((Model.hasEquation_iff _ _ _).mpr
        ⟨_, (mem_pendingAt_iff.mp member).1, kind_eq, target_eq⟩)
  | recurrence _ _ _ _ given _ => exact .inr given

/-- An equation that stays unresolved without ending the run is a current one. -/
theorem kind_eq_current_of_unresolved
    (does : engine.Does environment checkpoint position outcome) {equation : Equation}
    (member : equation ∈ engine.pendingAt position.timestep)
    (listed : equation.target ∈ (engine.resolveAt environment position.timestep
      (engine.openedAt position)).1.unresolved.names) : equation.kind = .current := by
  obtain ⟨equation_mem, ⟨first, initial⟩ | ⟨current, _⟩⟩ := mem_pendingAt_iff.mp member
  · have missing_eq := does.missing_eq
    rw [missingInitials, if_pos first, List.filter_eq_nil_iff] at missing_eq
    exact (missing_eq _ listed ((Model.hasEquation_iff _ _ _).mpr
      ⟨equation, equation_mem, initial, rfl⟩)).elim
  · exact current

section Causes

variable (unhidden : engine.Unhidden environment.scalars) (defined : environment.Defined)

include unhidden defined

theorem cause_of_pending (does : engine.Does environment checkpoint position outcome)
    (rests : engine.Rests position.state position.timestep) {equation : Equation}
    (member : equation ∈ engine.pendingAt position.timestep)
    (undefined : outcome.state.valueAt? equation.target position.timestep = some .undefined) :
    engine.Cause environment checkpoint position outcome equation.target := by
  have undefined_settled := undefined_settled_of_undefined unhidden defined does rests undefined
  have reported :=
    (undefined_settled_iff unhidden defined does rests member).mp undefined_settled
  have listed := (reportsUnresolved_iff unhidden does rests _).mp reported
  exact .unresolved member (kind_eq_current_of_unresolved does member listed) rfl reported

/-- Every undefined slot of a timestep has a cause. -/
theorem exists_cause
    (path : Relation.ReflTransGen (engine.Advances environment checkpoint) engine.start position)
    (does : engine.Does environment checkpoint position outcome)
    (undefined : outcome.state.valueAt? name position.timestep = some .undefined) :
    engine.Cause environment checkpoint position outcome name := by
  have rests := rests_of_path unhidden path
  have declared : name ∈ engine.model.variableNames := by
    rw [← (does.rests unhidden rests).names_eq, ← SimulationState.hasVariable_iff]
    exact SimulationState.hasVariable_of_valueAt? undefined
  induction path generalizing outcome with
  | refl =>
      obtain ⟨equation, member, rfl⟩ := engine.exists_pending_start declared
      exact cause_of_pending unhidden defined does rests member undefined
  | @tail earlier _ path_earlier advances ih =>
      obtain ⟨before, does_before, proceeding, rfl⟩ := advances
      have rests_earlier := rests_of_path unhidden path_earlier
      rcases current : engine.model.hasEquation name .current with _ | _
      · have settled := undefined_settled_of_undefined unhidden defined does rests undefined
        have given_iff := exists_next_iff does_before proceeding does.begins.within name
        cases given : before.next.get? name with
        | some value =>
            rw [valueAt?_settled_of_not_current unhidden rests declared current, given,
              Option.getD_some, Option.some.injEq] at settled
            have reported := (reportsRecurrence_iff unhidden defined does_before rests_earlier
              name).mpr ⟨proceeding, settled ▸ given⟩
            exact .recurrence path_earlier does_before rfl reported
              (given_iff.mp ⟨value, given⟩) current
        | none =>
            have carried := undefined_of_carried unhidden rests declared current given settled
            rcases (ih does_before carried rests_earlier).hasEquation with impossible | recurrence
            · rw [current] at impossible
              cases impossible
            · obtain ⟨value, found⟩ := given_iff.mpr recurrence
              rw [given] at found
              cases found
      · obtain ⟨equation, member, rfl⟩ :=
          (exists_pending_iff engine earlier.timestep name).mpr current
        exact cause_of_pending unhidden defined does rests member undefined

end Causes

/-! ## A whole run -/

/-- Some policy that fired at a timestep assigns to a variable. -/
def FiredAssignment (engine : Engine) (log : Log) (timestep : Nat) (name : String) : Prop :=
  ∃ policy ∈ engine.model.policies,
    (∃ firing ∈ log.firings, firing.policy = policy.name ∧ firing.timestep.toNat = timestep) ∧
      ∃ value, .assign name value ∈ policy.action.nodes

section Run

variable {final : SimulationState} {log : Log}

namespace Stage

variable (stage : engine.Stage environment checkpoint final log position outcome)

include stage

theorem firedAssignment
    (assigned : engine.AssignedAt environment position.timestep outcome.log.firings name) :
    engine.FiredAssignment log position.timestep name := by
  obtain ⟨policy, member, fired, node⟩ := assigned
  obtain ⟨fired_log, timestep_eq⟩ := (stage.mem_firings_iff _).mp fired
  exact ⟨policy, member, ⟨_, fired_log, rfl, timestep_eq⟩, node⟩

theorem reportsUnresolved_iff (name : String) :
    outcome.log.ReportsUnresolved position.timestep name ↔
      log.ReportsUnresolved position.timestep name := by
  constructor
  · rintro ⟨warning, member, timestep_eq, listed⟩
    exact ⟨warning, ((stage.mem_diagnostics_iff _).mp member).1, timestep_eq, listed⟩
  · rintro ⟨warning, member, timestep_eq, listed⟩
    exact ⟨warning, (stage.mem_diagnostics_iff _).mpr ⟨member, timestep_eq⟩, timestep_eq, listed⟩

theorem reportsRecurrence_iff (name : String) :
    outcome.log.ReportsRecurrence position.timestep name ↔
      log.ReportsRecurrence position.timestep name := by
  constructor
  · rintro ⟨stamp, reason, member, timestep_eq⟩
    exact ⟨stamp, reason, ((stage.mem_diagnostics_iff _).mp member).1, timestep_eq⟩
  · rintro ⟨stamp, reason, member, timestep_eq⟩
    exact ⟨stamp, reason, (stage.mem_diagnostics_iff _).mpr ⟨member, timestep_eq⟩, timestep_eq⟩

/-- A slot that is undefined after the resolution stays so unless a policy assigns to it. -/
theorem undefined_or_fired (unhidden : engine.Unhidden environment.scalars)
    (undefined : (engine.settledContext environment position).state.valueAt? name
      position.timestep = some .undefined) :
    final.valueAt? name position.timestep = some .undefined ∨
      engine.FiredAssignment log position.timestep name := by
  have rests := rests_of_path unhidden stage.path
  rw [stage.valueAt?_eq name]
  exact (undefined_or_assigned unhidden stage.does rests undefined).imp_right stage.firedAssignment

end Stage

section Executed

variable (unhidden : engine.Unhidden environment.scalars) (defined : environment.Defined)
  {status : RunStatus}
  (executes : engine.Executes environment checkpoint engine.start status final log)

include unhidden executes

theorem exists_stage_at {timestep : Nat}
    (committed : timestep < status.committed engine.model.horizon) :
    ∃ position outcome, engine.Stage environment checkpoint final log position outcome ∧
      position.timestep = timestep :=
  executes.exists_stage unhidden .refl (Nat.zero_le timestep) committed

include defined

theorem undefined_of_reportsUnresolved {timestep : Nat}
    (reported : log.ReportsUnresolved timestep name) :
    final.valueAt? name timestep = some .undefined ∨
      engine.FiredAssignment log timestep name := by
  have committed : timestep < status.committed engine.model.horizon := by
    obtain ⟨warning, member, rfl, _⟩ := reported
    exact executes.timestep_lt_of_mem unhidden engine.rests_initial member
  obtain ⟨position, outcome, stage, rfl⟩ := exists_stage_at unhidden executes committed
  have rests := rests_of_path unhidden stage.path
  have reported_here := (stage.reportsUnresolved_iff name).mpr reported
  obtain ⟨done, failed, ends⟩ := exists_endsAt unhidden rests
  obtain ⟨equation, member, _, rfl⟩ := (ends.mem_names_unresolved_iff name).mp
    ((reportsUnresolved_iff unhidden stage.does rests name).mp reported_here)
  exact stage.undefined_or_fired unhidden
    ((undefined_settled_iff unhidden defined stage.does rests member).mpr reported_here)

theorem undefined_of_reportsRecurrence {timestep : Nat}
    (reported : log.ReportsRecurrence timestep name)
    (not_current : engine.model.hasEquation name .current = false) :
    final.valueAt? name (timestep + 1) = some .undefined ∨
      engine.FiredAssignment log (timestep + 1) name := by
  have committed : timestep < status.committed engine.model.horizon := by
    obtain ⟨stamp, reason, member, rfl⟩ := reported
    exact executes.timestep_lt_of_mem unhidden engine.rests_initial member
  obtain ⟨earlier, before, stage, rfl⟩ := exists_stage_at unhidden executes committed
  have rests := rests_of_path unhidden stage.path
  obtain ⟨proceeding, given⟩ := (reportsRecurrence_iff unhidden defined stage.does rests name).mp
    ((stage.reportsRecurrence_iff name).mpr reported)
  have path_after := stage.path.tail ⟨before, stage.does, proceeding, rfl⟩
  have within := within_of_given stage.does proceeding given
  obtain ⟨rest, executes_after⟩ := executes.of_path path_after
  obtain ⟨position, outcome, stage_after, timestep_eq⟩ :=
    exists_stage_at unhidden executes (executes_after.timestep_lt within)
  obtain rfl := position_unique stage_after.path path_after timestep_eq
  have declared := Model.mem_variableNames_of_hasEquation
    ((exists_next_iff stage.does proceeding within name).mp ⟨_, given⟩) rfl
  apply stage_after.undefined_or_fired unhidden
  rw [valueAt?_settled_of_not_current unhidden (rests_of_path unhidden path_after) declared
    not_current, given]
  rfl

theorem reports_of_undefined {timestep : Nat}
    (undefined : final.valueAt? name timestep = some .undefined) :
    (∃ equation ∈ engine.pendingAt timestep, equation.kind = .current ∧ equation.target = name ∧
        log.ReportsUnresolved timestep name) ∨
      ∃ earlier, timestep = earlier + 1 ∧ log.ReportsRecurrence earlier name ∧
        engine.model.hasEquation name .recurrence = true ∧
        engine.model.hasEquation name .current = false := by
  have committed := SimulationState.lt_of_valueAt?
    (executes.rests unhidden engine.rests_initial).closed undefined
  obtain ⟨position, outcome, stage, rfl⟩ := exists_stage_at unhidden executes committed
  rw [stage.valueAt?_eq name] at undefined
  cases exists_cause unhidden defined stage.path stage.does undefined with
  | @unresolved equation member kind_eq target_eq reported =>
      exact .inl ⟨equation, member, kind_eq, target_eq,
        (stage.reportsUnresolved_iff name).mp reported⟩
  | @recurrence earlier before path does timestep_eq reported recurrence not_current =>
      obtain ⟨position', outcome', stage', timestep_eq'⟩ := exists_stage_at unhidden executes
        (Nat.lt_trans (Nat.lt_of_succ_le (Nat.le_of_eq timestep_eq)) committed)
      obtain rfl := position_unique stage'.path path timestep_eq'
      rw [does.outcome_unique stage'.does] at reported
      exact .inr ⟨_, timestep_eq.symm, (stage'.reportsRecurrence_iff name).mp reported, recurrence,
        not_current⟩

end Executed

/-- Where neither parameters nor functions yield undefined values, an undefined slot of a successful
run is reported: as unresolved at its timestep, or as a failed recurrence at the timestep before.
What is reported in this way is undefined, unless a policy that fired at the timestep assigns to
the variable. -/
theorem undefined_diagnosed {parameters : Bindings Value} {seed : UInt64} {index : Option UInt64}
    {result : RunResult} (ran : engine.run parameters seed index checkpoint = .ok result)
    (parameters_defined : ∀ name, parameters.get? name ≠ some .undefined)
    (functions_defined : ∀ function arguments,
      engine.functions.call function arguments ≠ .ok .undefined) :
    (∀ name timestep, result.value? name timestep = some .undefined →
      (∃ equation ∈ engine.pendingAt timestep, equation.kind = .current ∧
          equation.target = name ∧ result.log.ReportsUnresolved timestep name) ∨
        ∃ earlier, timestep = earlier + 1 ∧ result.log.ReportsRecurrence earlier name ∧
          engine.model.hasEquation name .recurrence = true ∧
          engine.model.hasEquation name .current = false) ∧
    (∀ name timestep, result.log.ReportsUnresolved timestep name →
      result.value? name timestep = some .undefined ∨
        engine.FiredAssignment result.log timestep name) ∧
    ∀ name timestep, result.log.ReportsRecurrence timestep name →
      engine.model.hasEquation name .current = false →
        result.value? name (timestep + 1) = some .undefined ∨
          engine.FiredAssignment result.log (timestep + 1) name := by
  obtain ⟨scalars, marks, final, log, solved, executes, rfl, rfl, series_eq, log_eq⟩ :=
    exists_executes_of_run ran
  have defined := defined_of_solveScalars solved parameters_defined functions_defined
  have unhidden : engine.Unhidden
      (engine.environment result.parameters result.scalars).scalars :=
    unhidden_of_solveScalars solved
  have rests := executes.rests unhidden engine.rests_initial
  have marked (diagnostic : Diagnostic) (member : diagnostic ∈ marks) :=
    exists_mark_of_solveScalars solved member
  simp only [RunResult.value?_eq rests.closed series_eq, log_eq,
    Log.reportsUnresolved_append_marks marked, Log.reportsRecurrence_append_marks marked]
  refine ⟨?_, ?_, ?_⟩
  · intro name timestep undefined
    exact reports_of_undefined unhidden defined executes undefined
  · intro name timestep reported
    exact undefined_of_reportsUnresolved unhidden defined executes reported
  · intro name timestep reported not_current
    exact undefined_of_reportsRecurrence unhidden defined executes reported not_current

end Run

/-- A model of a variable that has no value and of one that takes over its value. -/
def inheritingModel : Model :=
  { Model.blank "inheriting" 2 with
    equations :=
      [⟨"loop", .current, .ident "loop", []⟩, ⟨"heir", .initial, .boolean true, []⟩,
        ⟨"heir", .recurrence, .ident "loop", []⟩] }

def inheritingEngine : Engine := .plain inheritingModel rfl

theorem undefined_diagnosed_inheriting :
    ∃ result, inheritingEngine.run .empty 0 none .uninterrupted = .ok result ∧
      result.log.ReportsUnresolved 1 "loop" ∧ result.log.ReportsRecurrence 0 "heir" ∧
      result.value? "heir" 1 = some .undefined := by
  obtain ⟨result, ran, firings_eq, loop_undefined, heir_undefined⟩ : ∃ result,
      inheritingEngine.run .empty 0 none .uninterrupted = .ok result ∧ result.log.firings = [] ∧
        result.value? "loop" 1 = some .undefined ∧ result.value? "heir" 1 = some .undefined :=
    ⟨_, rfl, rfl, rfl, rfl⟩
  obtain ⟨reported, _, of_recurrence⟩ := undefined_diagnosed ran nofun nofun
  have loop_reported : result.log.ReportsUnresolved 1 "loop" := by
    rcases reported "loop" 1 loop_undefined with ⟨_, _, _, _, warned⟩ | ⟨_, _, _, given, _⟩
    · exact warned
    · cases given
  have heir_reported : result.log.ReportsRecurrence 0 "heir" := by
    rcases reported "heir" 1 heir_undefined with
      ⟨_, member, _, target_eq, _⟩ | ⟨earlier, timestep_eq, failed, _⟩
    · rw [List.mem_singleton.mp member] at target_eq
      exact absurd target_eq (by decide)
    · obtain rfl : earlier = 0 := by omega
      exact failed
  refine ⟨result, ran, loop_reported, heir_reported, ?_⟩
  rcases of_recurrence "heir" 0 heir_reported rfl with undefined | ⟨_, _, ⟨firing, fired, _⟩, _⟩
  · exact undefined
  · rw [firings_eq] at fired
    exact (List.not_mem_nil fired).elim

end Engine

end EconModel
