import EconModel.Proofs.ConstraintCheck
import EconModel.Proofs.Engine.Resolution
import EconModel.Proofs.PolicyRun

/-!
# One timestep

A timestep fails only if initial values are missing.  Otherwise it comes to the outcome that
`Engine.finish` names: the resolution, the constraints, and unless one of them halts the run the
policies and the recurrences.  The outcome leaves earlier timesteps alone, and every record it makes
belongs to the timestep.
-/

namespace EconModel

namespace Engine

/-! ## The outcome -/

section Outcome

variable (engine : Engine) (environment : Environment) (timestep : Nat) (isLast : Bool)
  (before : SimulationState)

/-- The state right after the resolution of an open timestep. -/
def settledAt : SimulationState := (engine.resolveAt environment timestep before).2.1

/-- The report on the constraints of a timestep. -/
def reportAt : ConstraintReport :=
  (environment.view timestep (engine.settledAt environment timestep before)).check
    engine.model.constraints

/-- What is recorded up to the constraints of a timestep. -/
def settledLog : Log :=
  .ofDiagnostics ((engine.resolveAt environment timestep before).2.2 ++
      convergenceDiagnostics timestep (engine.resolveAt environment timestep before).1) ++
    constraintLog (environment.view timestep (engine.settledAt environment timestep before))
      (engine.reportAt environment timestep before)

/-- The policies of a timestep. -/
def policySetting : PolicySetting := ⟨environment, timestep, engine.config.blockLimit⟩

/-- What the policies of a timestep do. -/
def effectAt : PolicyEffect :=
  (engine.policySetting environment timestep).run engine.model.policies
    (engine.settledAt environment timestep before)

/-- The values of the recurrences of a timestep, and what is recorded about them. -/
def recurrencesAt : Bindings Value × List Diagnostic :=
  if isLast then (.empty, [])
  else
    recurrences
      (environment.view timestep (engine.effectAt environment timestep before).state)
      (engine.model.equationsOf .recurrence)

/-- The outcome of a timestep whose initial values are not missing. -/
def finish : StepOutcome :=
  if (engine.reportAt environment timestep before).isFatal then
    ⟨(engine.settledAt environment timestep before).commit, .empty,
      engine.settledLog environment timestep before, true⟩
  else
    ⟨(engine.effectAt environment timestep before).state.commit,
      (engine.recurrencesAt environment timestep isLast before).1,
      engine.settledLog environment timestep before ++
        (engine.effectAt environment timestep before).log ++
        .ofDiagnostics (engine.recurrencesAt environment timestep isLast before).2, false⟩

theorem step_eq (state : SimulationState) (next : Bindings Value) :
    engine.step environment timestep isLast state next =
      match engine.missingInitials timestep
          (engine.resolveAt environment timestep (engine.opened timestep state next)).1 with
      | [] => .ok (engine.finish environment timestep isLast (engine.opened timestep state next))
      | targets => .error (.invalidModel (.unresolvedInitialValues targets)) := by
  rw [step, ← opened]
  dsimp only
  rw [solveAt_eq]
  cases engine.missingInitials timestep
      (engine.resolveAt environment timestep (engine.opened timestep state next)).1 with
  | cons target targets => rfl
  | nil =>
      change (if (engine.reportAt environment timestep (engine.opened timestep state next)).isFatal
        then _ else _) = _
      dsimp only
      rw [finish]
      split
      · rfl
      · cases isLast <;> rfl

end Outcome

section Finish

variable {engine : Engine} {environment : Environment} {timestep : Nat} {isLast : Bool}
  {before : SimulationState}

theorem step_eq_ok_iff {state : SimulationState} {next : Bindings Value} {outcome : StepOutcome} :
    engine.step environment timestep isLast state next = .ok outcome ↔
      engine.missingInitials timestep
          (engine.resolveAt environment timestep (engine.opened timestep state next)).1 = [] ∧
        outcome =
          engine.finish environment timestep isLast (engine.opened timestep state next) := by
  rw [step_eq]
  split
  · next none_missing => simp [none_missing, eq_comm]
  · next targets some_missing =>
      constructor
      · intro stuck
        cases stuck
      · rintro ⟨none_missing, _⟩
        exact (some_missing none_missing).elim

theorem halted_finish : (engine.finish environment timestep isLast before).halted =
    (engine.reportAt environment timestep before).isFatal := by
  unfold finish
  split
  · next fatal => exact fatal.symm
  · next passed => exact (Bool.eq_false_iff.mpr passed).symm

theorem finish_of_isFatal
    (fatal : (engine.reportAt environment timestep before).isFatal = true) :
    engine.finish environment timestep isLast before =
      ⟨(engine.settledAt environment timestep before).commit, .empty,
        engine.settledLog environment timestep before, true⟩ := by
  rw [finish, if_pos fatal]

theorem finish_of_not_isFatal
    (passed : (engine.reportAt environment timestep before).isFatal = false) :
    engine.finish environment timestep isLast before =
      ⟨(engine.effectAt environment timestep before).state.commit,
        (engine.recurrencesAt environment timestep isLast before).1,
        engine.settledLog environment timestep before ++
          (engine.effectAt environment timestep before).log ++
          .ofDiagnostics (engine.recurrencesAt environment timestep isLast before).2, false⟩ := by
  rw [finish, if_neg (by rw [passed]; exact Bool.false_ne_true)]

/-! ## States -/

variable {done : List Equation} {failed : List (Equation × EvalError)}

theorem openAt_settledAt (ends : engine.TimestepEnds environment timestep before done failed)
    (opened : before.OpenAt timestep) :
    (engine.settledAt environment timestep before).OpenAt timestep :=
  ends.overwrites.openAt opened

theorem effected_effectAt (ends : engine.TimestepEnds environment timestep before done failed)
    (opened : before.OpenAt timestep) :
    (engine.policySetting environment timestep).Effected engine.model.policies
      (engine.settledAt environment timestep before)
      (engine.effectAt environment timestep before) :=
  PolicySetting.effected_run (openAt_settledAt ends opened)

/-- The outcome is a commitment of a state that differs from the open one in open slots. -/
theorem exists_commit_finish (isLast : Bool)
    (ends : engine.TimestepEnds environment timestep before done failed)
    (opened : before.OpenAt timestep) :
    ∃ after, before.Overwrites after timestep ∧
      (engine.finish environment timestep isLast before).state = after.commit := by
  unfold finish
  split
  · exact ⟨_, ends.overwrites, rfl⟩
  · exact ⟨_, ends.overwrites.trans (effected_effectAt ends opened).overwrites, rfl⟩

/-- A timestep adds one value to every series. -/
theorem rests_of_step {state : SimulationState} {next : Bindings Value} {outcome : StepOutcome}
    (unhidden : engine.Unhidden environment.scalars) (rests : engine.Rests state timestep)
    (stepped : engine.step environment timestep isLast state next = .ok outcome) :
    engine.Rests outcome.state (timestep + 1) := by
  obtain ⟨done, failed, ends⟩ := exists_timestepEnds unhidden rests next
  have opened_open := openAt_opened rests next
  obtain ⟨after, overwrites, state_eq⟩ := exists_commit_finish isLast ends opened_open
  rw [(step_eq_ok_iff.mp stepped).2, state_eq]
  refine ⟨SimulationState.closedAt_commit (overwrites.openAt opened_open), ?_⟩
  rw [SimulationState.names_commit, overwrites.names_eq, opened, SimulationState.names_openNext,
    rests.names_eq]

/-- Earlier timesteps keep their values. -/
theorem valueAt?_finish_of_ne (ends : engine.TimestepEnds environment timestep before done failed)
    (opened : before.OpenAt timestep) (name : String) {index : Nat} (elsewhere : index ≠ timestep) :
    (engine.finish environment timestep isLast before).state.valueAt? name index =
      before.valueAt? name index := by
  obtain ⟨after, overwrites, state_eq⟩ := exists_commit_finish isLast ends opened
  rw [state_eq, SimulationState.valueAt?_commit, overwrites.valueAt?_eq name elsewhere]

/-! ## Records -/

theorem mem_convergenceDiagnostics_iff {resolution : Resolution} {diagnostic : Diagnostic} :
    diagnostic ∈ convergenceDiagnostics timestep resolution ↔
      resolution.unresolved.names ≠ [] ∧
        diagnostic = .convergence ⟨UInt64.ofNat timestep, UInt64.ofNat resolution.iterations,
          resolution.unresolved.map fun _ error => error.message⟩ := by
  rw [Ne, ← Bindings.isEmpty_iff]
  unfold convergenceDiagnostics Resolution.isConverged
  split
  · next converged => simp [converged]
  · next stuck => simp [stuck]

theorem recurrence_of_ok {context : Context} {equation : Equation} {value : Value}
    (found : (context.evalFinite equation.expr).result = .ok value) :
    recurrence context equation = (value, context.mark equation) := by
  simp only [recurrence, found]
  rfl

theorem recurrence_of_error {context : Context} {equation : Equation} {error : EvalError}
    (failed : (context.evalFinite equation.expr).result = .error error) :
    recurrence context equation = (.undefined,
      .recurrenceFailed context.stamp equation.target error.message :: context.mark equation) := by
  simp only [recurrence, failed]
  rfl

/-- Contexts with the same past give a recurrence the same value and the same diagnostics. -/
theorem recurrence_eq_of_samePast {left right : Context} (same : left.SamePast right) :
    recurrence left = recurrence right := by
  funext equation
  rw [recurrence, recurrence, same.evalFinite_eq, Context.stamp, Context.stamp, same.timestep_eq]

theorem mem_diagnostics_recurrence {context : Context} {equation : Equation}
    {diagnostic : Diagnostic} (member : diagnostic ∈ (recurrence context equation).2) :
    (∃ location, diagnostic = .divisionByZero context.stamp location) ∨
      ∃ error, (context.evalFinite equation.expr).result = .error error ∧
        diagnostic = .recurrenceFailed context.stamp equation.target error.message := by
  cases evaluated : (context.evalFinite equation.expr).result with
  | ok value =>
      rw [recurrence_of_ok evaluated] at member
      exact .inl ⟨_, ((Diagnostic.mem_ofMark_iff _ _ _ _).mp member).2⟩
  | error error =>
      rw [recurrence_of_error evaluated] at member
      rcases List.mem_cons.mp member with rfl | marked
      · exact .inr ⟨error, rfl, rfl⟩
      · exact .inl ⟨_, ((Diagnostic.mem_ofMark_iff _ _ _ _).mp marked).2⟩

theorem mem_diagnostics_recurrences_iff {context : Context} {equations : List Equation}
    {diagnostic : Diagnostic} : diagnostic ∈ (recurrences context equations).2 ↔
      ∃ equation ∈ equations, diagnostic ∈ (recurrence context equation).2 := by
  simp [recurrences]

/-- The diagnostics of recurrences are marks of the timestep or failures of its recurrences. -/
theorem mem_diagnostics_recurrencesAt {diagnostic : Diagnostic}
    (member : diagnostic ∈ (engine.recurrencesAt environment timestep isLast before).2) :
    (∃ location, diagnostic = .divisionByZero (UInt64.ofNat timestep) location) ∨
      ∃ equation ∈ engine.model.equationsOf .recurrence, ∃ error, isLast = false ∧
        ((environment.view timestep (engine.effectAt environment timestep before).state).evalFinite
          equation.expr).result = .error error ∧
        diagnostic = .recurrenceFailed (UInt64.ofNat timestep) equation.target error.message := by
  unfold recurrencesAt at member
  split at member
  · exact (List.not_mem_nil member).elim
  · next proceeding =>
    obtain ⟨equation, equation_mem, recorded⟩ := mem_diagnostics_recurrences_iff.mp member
    refine (mem_diagnostics_recurrence recorded).imp_right ?_
    rintro ⟨error, failed, rfl⟩
    exact ⟨equation, equation_mem, error, Bool.eq_false_iff.mpr proceeding, failed, rfl⟩

/-- What a diagnostic of a timestep is about.  Policies and recurrences come in only where no fatal
constraint is violated. -/
inductive Recorded (engine : Engine) (environment : Environment) (timestep : Nat) (isLast : Bool)
    (before : SimulationState) : Diagnostic → Prop where
  /-- A divisor was zero. -/
  | divided (location : String) : Recorded engine environment timestep isLast before
      (.divisionByZero (UInt64.ofNat timestep) location)
  /-- Equations stayed unresolved. -/
  | unresolved {diagnostic : Diagnostic} : diagnostic ∈ convergenceDiagnostics timestep
        (engine.resolveAt environment timestep before).1 →
      Recorded engine environment timestep isLast before diagnostic
  /-- A constraint was not checked. -/
  | skipped (constraint reason : String) : Recorded engine environment timestep isLast before
      (.constraintSkipped (UInt64.ofNat timestep) constraint reason)
  /-- A policy failed. -/
  | policy (policy reason : String) :
      (engine.reportAt environment timestep before).isFatal = false →
        Recorded engine environment timestep isLast before
          (.policyFailed (UInt64.ofNat timestep) policy reason)
  /-- A recurrence failed. -/
  | recurrence {equation : Equation} {error : EvalError} :
      (engine.reportAt environment timestep before).isFatal = false → isLast = false →
        equation ∈ engine.model.equationsOf .recurrence →
          ((environment.view timestep
            (engine.effectAt environment timestep before).state).evalFinite
              equation.expr).result = .error error →
            Recorded engine environment timestep isLast before
              (.recurrenceFailed (UInt64.ofNat timestep) equation.target error.message)

theorem Recorded.timestep_eq {diagnostic : Diagnostic}
    (recorded : engine.Recorded environment timestep isLast before diagnostic) :
    diagnostic.timestep = UInt64.ofNat timestep := by
  cases recorded with
  | unresolved stuck => rw [(mem_convergenceDiagnostics_iff.mp stuck).2]; rfl
  | _ => rfl

theorem recorded_of_mem_settledLog
    (ends : engine.TimestepEnds environment timestep before done failed) {diagnostic : Diagnostic}
    (member : diagnostic ∈ (engine.settledLog environment timestep before).diagnostics) :
    engine.Recorded environment timestep isLast before diagnostic := by
  rw [settledLog, Log.diagnostics_append, List.mem_append, Log.diagnostics_ofDiagnostics,
    List.mem_append] at member
  rcases member with (marked | stuck) | checked
  · rw [ends.marks_eq, List.mem_flatMap] at marked
    obtain ⟨equation, _, marked⟩ := marked
    obtain ⟨_, rfl⟩ := (Diagnostic.mem_ofMark_iff _ _ _ _).mp marked
    exact .divided _
  · exact .unresolved stuck
  · rcases List.mem_append.mp checked with marked | skipped
    · obtain ⟨_, rfl⟩ := (Diagnostic.mem_ofMark_iff _ _ _ _).mp marked
      exact .divided _
    · obtain ⟨constraint, reason, rfl⟩ := Context.exists_of_mem_skipped _ skipped
      exact .skipped constraint reason

/-- Every diagnostic of a timestep is accounted for. -/
theorem recorded_of_mem_finish
    (ends : engine.TimestepEnds environment timestep before done failed)
    (opened : before.OpenAt timestep) {diagnostic : Diagnostic}
    (member : diagnostic ∈ (engine.finish environment timestep isLast before).log.diagnostics) :
    engine.Recorded environment timestep isLast before diagnostic := by
  rcases fatal : (engine.reportAt environment timestep before).isFatal with _ | _
  · rw [finish_of_not_isFatal fatal] at member
    rcases List.mem_append.mp member with member | member
    · rcases List.mem_append.mp member with member | member
      · exact recorded_of_mem_settledLog ends member
      · rcases (effected_effectAt ends opened).diagnostics diagnostic member with
          ⟨location, rfl⟩ | ⟨policy, reason, rfl⟩
        · exact .divided location
        · exact .policy policy reason fatal
    · rcases mem_diagnostics_recurrencesAt member with
        ⟨location, rfl⟩ | ⟨equation, equation_mem, error, proceeding, found, rfl⟩
      · exact .divided location
      · exact .recurrence fatal proceeding equation_mem found
  · rw [finish_of_isFatal fatal] at member
    exact recorded_of_mem_settledLog ends member

/-- What is recorded up to the constraints stays recorded, whatever follows. -/
theorem settledLog_subset_finish : (engine.settledLog environment timestep before).diagnostics ⊆
    (engine.finish environment timestep isLast before).log.diagnostics := by
  intro diagnostic member
  unfold finish
  split
  · exact member
  · exact List.mem_append_left _ (List.mem_append_left _ member)

theorem mem_finish_of_unresolved {diagnostic : Diagnostic}
    (stuck : diagnostic ∈ convergenceDiagnostics timestep
      (engine.resolveAt environment timestep before).1) :
    diagnostic ∈ (engine.finish environment timestep isLast before).log.diagnostics :=
  settledLog_subset_finish (List.mem_append_left _ (List.mem_append_right _ stuck))

theorem violations_finish (ends : engine.TimestepEnds environment timestep before done failed)
    (opened : before.OpenAt timestep) :
    (engine.finish environment timestep isLast before).log.violations =
      (engine.reportAt environment timestep before).violations := by
  have settled : (engine.settledLog environment timestep before).violations =
      (engine.reportAt environment timestep before).violations := rfl
  have effected := effected_effectAt ends opened
  unfold finish
  split
  · exact settled
  · simp [settled, effected.violations_eq]

/-- Events are emitted by policies, where no fatal constraint is violated. -/
theorem mem_events_finish_iff {event : EmittedEvent} :
    event ∈ (engine.finish environment timestep isLast before).log.events ↔
      (engine.reportAt environment timestep before).isFatal = false ∧
        event ∈ (engine.effectAt environment timestep before).log.events := by
  have settled : (engine.settledLog environment timestep before).events = [] := rfl
  unfold finish
  split
  · next fatal => simp [settled, fatal]
  · next passed => simp [settled, passed]

/-- Policies fire where no fatal constraint is violated. -/
theorem mem_firings_finish_iff {firing : PolicyFiring} :
    firing ∈ (engine.finish environment timestep isLast before).log.firings ↔
      (engine.reportAt environment timestep before).isFatal = false ∧
        firing ∈ (engine.effectAt environment timestep before).log.firings := by
  have settled : (engine.settledLog environment timestep before).firings = [] := rfl
  unfold finish
  split
  · next fatal => simp [settled, fatal]
  · next passed => simp [settled, passed]

/-- Every record of a timestep belongs to it. -/
theorem belongsTo_finish (ends : engine.TimestepEnds environment timestep before done failed)
    (opened : before.OpenAt timestep) :
    (engine.finish environment timestep isLast before).log.BelongsTo (UInt64.ofNat timestep) where
  violations violation member := by
    rw [violations_finish ends opened] at member
    exact Context.timestep_of_mem_check _ member
  events event member :=
    (effected_effectAt ends opened).events event (mem_events_finish_iff.mp member).2
  firings firing member :=
    (effected_effectAt ends opened).firings firing (mem_firings_finish_iff.mp member).2
  diagnostics diagnostic member := (recorded_of_mem_finish ends opened member).timestep_eq

end Finish

end Engine

end EconModel
