import EconModel.Proofs.Engine.Progress
import EconModel.Proofs.Log.Policies

/-!
# The log of a run is in order

The constraints and the policies of a model have distinct names and are gone through in order, and
so are the targets of recurrences; so what a timestep records is in order.  A run puts the logs of
its timesteps together, one after the other.
-/

namespace EconModel

/-! ## Constraints -/

namespace Context

variable (context : Context)

/-- Violations name constraints in their order. -/
theorem sublist_violations_check (constraints : List Constraint) :
    ((context.check constraints).violations.map Violation.constraint).Sublist
      (constraints.map Constraint.name) := by
  induction constraints with
  | nil => exact .slnil
  | cons constraint rest ih =>
      rw [violations_check_cons]
      split
      · exact ih.cons _
      · exact ih.cons _
      · split
        · exact (List.nil_sublist _).cons_cons _
        · exact ih.cons_cons _

/-- A constraint is violated, skipped or passed over: its violation and its skipping are not both
reported, and none of them twice. -/
theorem subperm_subjects_check (constraints : List Constraint) :
    ((context.check constraints).violations.map Violation.subject ++
        (context.check constraints).skipped.filterMap Diagnostic.subject?).Subperm
      (constraints.map fun constraint => .constraint context.stamp constraint.name) := by
  induction constraints with
  | nil => exact .refl _
  | cons constraint rest ih =>
      rw [check, List.map_cons]
      dsimp only
      split
      · exact List.perm_middle.subperm.trans ((List.subperm_cons _).mpr ih)
      · exact ih.cons_right _
      · split
        · exact (List.subperm_cons _).mpr List.nil_subperm
        · exact (List.subperm_cons _).mpr ih

theorem within_constraintLog (constraints : List Constraint) :
    (Engine.constraintLog context (context.check constraints)).Within (· = context.stamp) where
  violations violation member := context.timestep_of_mem_check member
  events _ member := (List.not_mem_nil member).elim
  firings _ member := (List.not_mem_nil member).elim
  diagnostics diagnostic member := by
    rcases List.mem_append.mp member with marked | skipped
    · rw [((Diagnostic.mem_ofMark_iff _ _ _ _).mp marked).2]
      rfl
    · obtain ⟨_, _, rfl⟩ := context.exists_of_mem_skipped skipped
      rfl

theorem subjects_constraintLog (constraints : List Constraint) :
    (Engine.constraintLog context (context.check constraints)).subjects =
      (context.check constraints).violations.map Violation.subject ++
        (context.check constraints).skipped.filterMap Diagnostic.subject? := by
  rw [Engine.constraintLog, Log.subjects, List.filterMap_append,
    Diagnostic.filterMap_subject?_ofMark, List.nil_append]

theorem exists_of_mem_subjects_constraintLog {constraints : List Constraint} {subject : Subject}
    (member : subject ∈ (Engine.constraintLog context (context.check constraints)).subjects) :
    ∃ name, subject = .constraint context.stamp name := by
  rw [subjects_constraintLog] at member
  obtain ⟨constraint, _, rfl⟩ :=
    List.mem_map.mp ((context.subperm_subjects_check constraints).subset member)
  exact ⟨_, rfl⟩

/-- A check of constraints with distinct names is recorded in order. -/
theorem wellOrdered_constraintLog {model : Model} (distinct : model.constraintNames.Nodup) :
    (Engine.constraintLog context (context.check model.constraints)).WellOrdered model where
  firings := .nil
  firing_declared _ member := (List.not_mem_nil member).elim
  events := .nil
  event_fired _ member := (List.not_mem_nil member).elim
  violations := by
    have places := List.pairwise_map.mp <|
      pairwise_recordPlace distinct (context.sublist_violations_check _) context.stamp
    refine places.imp_of_mem ?_
    intro violation other member other_mem ahead
    rw [Model.violationPlace, Model.violationPlace, context.timestep_of_mem_check member,
      context.timestep_of_mem_check other_mem]
    exact ahead
  violation_declared violation member :=
    (context.sublist_violations_check _).subset (List.mem_map_of_mem member)
  diagnostics := (context.within_constraintLog _).pairwise_diagnostics
  subjects := by
    obtain ⟨chosen, perm, sublist⟩ := context.subperm_subjects_check model.constraints
    rw [subjects_constraintLog, ← perm.nodup_iff]
    refine List.Nodup.sublist sublist ?_
    have injective : Function.Injective (Subject.constraint context.stamp) := by
      intro name other equal
      cases equal
      rfl
    have distinct_subjects := distinct.map injective
    rwa [Model.constraintNames, List.map_map] at distinct_subjects

end Context

/-! ## Timesteps -/

namespace Engine

section Timestep

variable {engine : Engine} {environment : Environment} {timestep : Nat} {isLast : Bool}
  {before : SimulationState} {done : List Equation} {failed : List (Equation × EvalError)}

theorem nodup_policyNames (engine : Engine) : engine.model.policyNames.Nodup :=
  (Validation.checkDistinct_eq_ok_iff.mp engine.accepted.policies).2

theorem nodup_constraintNames (engine : Engine) : engine.model.constraintNames.Nodup :=
  (Validation.checkDistinct_eq_ok_iff.mp engine.accepted.constraints).2

/-- A resolution is about nothing, or about equations that stay unresolved. -/
theorem sublist_subjects_resolution
    (ends : engine.TimestepEnds environment timestep before done failed) :
    (((engine.resolveAt environment timestep before).2.2 ++
      convergenceDiagnostics timestep
        (engine.resolveAt environment timestep before).1).filterMap Diagnostic.subject?).Sublist
      [.convergence (UInt64.ofNat timestep)] := by
  have no_subject :
      (engine.resolveAt environment timestep before).2.2.filterMap Diagnostic.subject? = [] := by
    rw [List.filterMap_eq_nil_iff, ends.marks_eq]
    intro mark member
    obtain ⟨equation, _, marked⟩ := List.mem_flatMap.mp member
    exact Diagnostic.subject?_of_mem_ofMark marked
  rw [List.filterMap_append, no_subject, List.nil_append, convergenceDiagnostics]
  split
  · exact List.nil_sublist _
  · exact .refl _

theorem within_resolution (ends : engine.TimestepEnds environment timestep before done failed) :
    (Log.ofDiagnostics ((engine.resolveAt environment timestep before).2.2 ++
      convergenceDiagnostics timestep
        (engine.resolveAt environment timestep before).1)).Within (· = UInt64.ofNat timestep) := by
  refine Log.within_ofDiagnostics fun diagnostic member => ?_
  have recorded : engine.Recorded environment timestep true before diagnostic :=
    recorded_of_mem_settledLog ends (List.mem_append_left _ member)
  exact recorded.timestep_eq

theorem within_settledLog (ends : engine.TimestepEnds environment timestep before done failed) :
    (engine.settledLog environment timestep before).Within (· = UInt64.ofNat timestep) :=
  (within_resolution ends).append (Context.within_constraintLog _ _)

theorem of_mem_subjects_settledLog
    (ends : engine.TimestepEnds environment timestep before done failed) {subject : Subject}
    (member : subject ∈ (engine.settledLog environment timestep before).subjects) :
    subject = .convergence (UInt64.ofNat timestep) ∨
      ∃ name, subject = .constraint (UInt64.ofNat timestep) name := by
  rcases Log.mem_subjects_append_iff.mp member with unresolved | constraint
  · exact .inl (List.mem_singleton.mp ((sublist_subjects_resolution ends).subset unresolved))
  · exact .inr (Context.exists_of_mem_subjects_constraintLog _ constraint)

/-- What is recorded up to the constraints is in order. -/
theorem wellOrdered_settledLog
    (ends : engine.TimestepEnds environment timestep before done failed) :
    (engine.settledLog environment timestep before).WellOrdered engine.model := by
  have sublist := sublist_subjects_resolution ends
  have within := within_resolution ends
  have resolved : (Log.ofDiagnostics _).WellOrdered engine.model :=
    Log.wellOrdered_ofDiagnostics within.diagnostics ((List.nodup_singleton _).sublist sublist)
  have checked := Context.wellOrdered_constraintLog
    (environment.view timestep (engine.settledAt environment timestep before))
    engine.nodup_constraintNames
  refine resolved.append checked ?_
  refine within.precedes_of_apart (Context.within_constraintLog _ _) (.inl rfl) (.inl rfl)
    (.inl rfl) ?_
  intro subject unresolved constraint
  obtain ⟨name, rfl⟩ := Context.exists_of_mem_subjects_constraintLog _ constraint
  cases List.mem_singleton.mp (sublist.subset unresolved)

/-- The failures of recurrences are reported in their order. -/
theorem sublist_subjects_recurrences (context : Context) (equations : List Equation) :
    ((recurrences context equations).2.filterMap Diagnostic.subject?).Sublist
      (equations.map fun equation => .recurrence context.stamp equation.target) := by
  have no_subject (equation : Equation) :
      (context.mark equation).filterMap Diagnostic.subject? = [] :=
    Diagnostic.filterMap_subject?_ofMark _ _ _
  have one (equation : Equation) :
      ((recurrence context equation).2.filterMap Diagnostic.subject?).Sublist
        [.recurrence context.stamp equation.target] := by
    cases evaluated : (context.evalFinite equation.expr).result with
    | ok value =>
        rw [recurrence_of_ok evaluated, no_subject]
        exact List.nil_sublist _
    | error error =>
        have about : (Diagnostic.recurrenceFailed context.stamp equation.target
            error.message).subject? = some (.recurrence context.stamp equation.target) := rfl
        rw [recurrence_of_error evaluated]
        dsimp only
        rw [List.filterMap_cons_some about, no_subject]
  induction equations with
  | nil => exact .slnil
  | cons equation rest ih =>
      change (((recurrence context equation).2 ++ (recurrences context rest).2).filterMap _).Sublist
        ([_] ++ rest.map _)
      rw [List.filterMap_append]
      exact (one equation).append ih

theorem within_recurrencesAt : (Log.ofDiagnostics
    (engine.recurrencesAt environment timestep isLast before).2).Within
      (· = UInt64.ofNat timestep) := by
  refine Log.within_ofDiagnostics fun diagnostic member => ?_
  rcases mem_diagnostics_recurrencesAt member with ⟨_, rfl⟩ | ⟨_, _, _, _, _, rfl⟩ <;> rfl

theorem sublist_subjects_recurrencesAt :
    ((engine.recurrencesAt environment timestep isLast before).2.filterMap
      Diagnostic.subject?).Sublist
        ((engine.model.equationsOf .recurrence).map fun equation =>
          .recurrence (UInt64.ofNat timestep) equation.target) := by
  unfold recurrencesAt
  split
  · exact List.nil_sublist _
  · exact sublist_subjects_recurrences _ _

/-- What is recorded about recurrences is in order. -/
theorem wellOrdered_recurrencesAt : (Log.ofDiagnostics
    (engine.recurrencesAt environment timestep isLast before).2).WellOrdered engine.model := by
  apply Log.wellOrdered_ofDiagnostics within_recurrencesAt.diagnostics
  refine List.Nodup.sublist sublist_subjects_recurrencesAt ?_
  have injective : Function.Injective (Subject.recurrence (UInt64.ofNat timestep)) := by
    intro name other equal
    cases equal
    rfl
  have distinct := (engine.accepted.nodup_targets_equationsOf .recurrence).map injective
  rwa [List.map_map] at distinct

/-- What a timestep records is in order. -/
theorem wellOrdered_finish
    (ends : engine.TimestepEnds environment timestep before done failed) :
    (engine.finish environment timestep isLast before).log.WellOrdered engine.model := by
  have settled := wellOrdered_settledLog ends
  obtain ⟨performed, names⟩ := (engine.policySetting environment timestep).wellOrdered_run
    engine.nodup_policyNames (engine.settledAt environment timestep before)
  have recurred : (Log.ofDiagnostics
      (engine.recurrencesAt environment timestep isLast before).2).WellOrdered engine.model :=
    wellOrdered_recurrencesAt
  unfold finish
  split
  · exact settled
  · have policies_follow : Log.Precedes engine.model
        (engine.settledLog environment timestep before)
        (engine.effectAt environment timestep before).log := by
      refine (within_settledLog ends).precedes_of_apart names.within (.inl rfl) (.inl rfl)
        (.inr names.violations_eq) ?_
      intro subject here there
      obtain ⟨_, _, rfl⟩ := names.subjects subject there
      rcases of_mem_subjects_settledLog ends here with equal | ⟨_, equal⟩ <;> cases equal
    refine (settled.append performed policies_follow).append recurred ?_
    refine ((within_settledLog ends).append names.within).precedes_of_apart within_recurrencesAt
      (.inr rfl) (.inr rfl) (.inr rfl) ?_
    intro subject here there
    obtain ⟨_, _, rfl⟩ := List.mem_map.mp (sublist_subjects_recurrencesAt.subset there)
    rcases Log.mem_subjects_append_iff.mp here with settled | performed
    · rcases of_mem_subjects_settledLog ends settled with equal | ⟨_, equal⟩ <;> cases equal
    · obtain ⟨_, _, equal⟩ := names.subjects _ performed
      cases equal

end Timestep

/-! ## Runs -/

section Run

variable {engine : Engine} {environment : Environment} {checkpoint : Checkpoint}
  {position : Position} {status : RunStatus} {final : SimulationState} {log : Log}

section Unhidden

variable (unhidden : engine.Unhidden environment.scalars)

include unhidden

theorem Does.wellOrdered {outcome : StepOutcome}
    (does : engine.Does environment checkpoint position outcome)
    (rests : engine.Rests position.state position.timestep) :
    outcome.log.WellOrdered engine.model := by
  obtain ⟨done, failed, ends⟩ := exists_endsAt unhidden rests
  rw [does.outcome_eq]
  exact wellOrdered_finish ends

theorem Does.within {outcome : StepOutcome}
    (does : engine.Does environment checkpoint position outcome)
    (rests : engine.Rests position.state position.timestep) :
    outcome.log.Within fun stamp => stamp.toNat = position.timestep := by
  refine (does.belongsTo unhidden rests).within.imp ?_
  rintro stamp rfl
  exact does.begins.toNat_stamp

/-- From a position on, nothing is recorded for earlier timesteps. -/
theorem Executes.within (executes : engine.Executes environment checkpoint position status final log)
    (rests : engine.Rests position.state position.timestep) :
    log.Within fun stamp => position.timestep ≤ stamp.toNat := by
  induction executes with
  | completed _ => exact Log.within_empty _
  | halted does _ => exact (does.within unhidden rests).imp fun _ equal => equal.ge
  | advanced does _ _ ih =>
      have later := ih (does.rests unhidden rests)
      exact ((does.within unhidden rests).imp fun _ equal => equal.ge).append
        (later.imp fun _ after => Nat.le_of_succ_le after)

/-- The timesteps of a run are recorded one after the other. -/
theorem Executes.wellOrdered
    (executes : engine.Executes environment checkpoint position status final log)
    (rests : engine.Rests position.state position.timestep) : log.WellOrdered engine.model := by
  induction executes with
  | completed _ => exact Log.wellOrdered_empty _
  | halted does _ => exact does.wellOrdered unhidden rests
  | advanced does _ executes_after ih =>
      have rests_after := does.rests unhidden rests
      refine (does.wellOrdered unhidden rests).append (ih rests_after) ?_
      refine Log.Within.precedes ?_ (executes_after.within unhidden rests_after)
      exact (does.within unhidden rests).imp fun _ equal => Nat.lt_succ_of_le equal.le

end Unhidden

/-- The log of a run is in order, and no policy fires twice in a timestep. -/
theorem log_wellOrdered {parameters : Bindings Value} {seed : UInt64} {index : Option UInt64}
    {result : RunResult} (ran : engine.run parameters seed index checkpoint = .ok result) :
    result.log.WellOrdered engine.model ∧ result.log.firings.Nodup := by
  obtain ⟨scalars, marks, final, log, solved, executes, _, _, _, log_eq⟩ :=
    exists_executes_of_run ran
  have unhidden : engine.Unhidden (engine.environment parameters scalars).scalars :=
    unhidden_of_solveScalars solved
  have marked : ∀ mark ∈ marks, ∃ location, mark = Diagnostic.divisionByZero 0 location :=
    fun _ member => exists_mark_of_solveScalars solved member
  have ordered : result.log.WellOrdered engine.model := by
    rw [log_eq]
    exact (Log.wellOrdered_of_marks marked).append
      (executes.wellOrdered unhidden engine.rests_initial) (Log.precedes_of_marks marked log)
  exact ⟨ordered, ordered.nodup_firings⟩

end Run

/-- A model of a variable that flips.  One of its constraints is violated every other timestep and
the other one cannot be checked; two of its policies emit events and one fails. -/
def recordingModel : Model :=
  { Model.blank "recording" 2 with
    equations :=
      [⟨"flag", .initial, .boolean true, []⟩,
        ⟨"flag", .recurrence, .unary .not (.ident "flag"), []⟩]
    constraints :=
      [⟨"upright", .ident "flag", .warning, none⟩, ⟨"unclear", .text "flag", .fatal, none⟩]
    policies :=
      [⟨"watch", .ident "flag", .block [.emit "seen" .empty, .emit "noted" .empty]⟩,
        ⟨"stumble", .text "flag", .emit "lost" .empty⟩,
        ⟨"record", .boolean true, .emit "kept" .empty⟩] }

def recordingEngine : Engine := .plain recordingModel rfl

theorem log_wellOrdered_recording : ∃ result,
    recordingEngine.run .empty 0 none .uninterrupted = .ok result ∧
      result.log.firings = [⟨"watch", 0⟩, ⟨"record", 0⟩, ⟨"record", 1⟩] ∧
      result.log.events.map EmittedEvent.name = ["seen", "noted", "kept", "kept"] ∧
      result.log.subjects =
        [.constraint 1 "upright", .constraint 0 "unclear", .policy 0 "stumble",
          .constraint 1 "unclear", .policy 1 "stumble"] ∧
      result.log.WellOrdered recordingModel ∧ result.log.firings.Nodup := by
  obtain ⟨result, ran, firings_eq, events_eq, subjects_eq⟩ : ∃ result,
      recordingEngine.run .empty 0 none .uninterrupted = .ok result ∧
        result.log.firings = [⟨"watch", 0⟩, ⟨"record", 0⟩, ⟨"record", 1⟩] ∧
        result.log.events.map EmittedEvent.name = ["seen", "noted", "kept", "kept"] ∧
        result.log.subjects =
          [.constraint 1 "upright", .constraint 0 "unclear", .policy 0 "stumble",
            .constraint 1 "unclear", .policy 1 "stumble"] :=
    ⟨_, rfl, rfl, rfl, rfl⟩
  exact ⟨result, ran, firings_eq, events_eq, subjects_eq, log_wellOrdered ran⟩

end Engine

end EconModel
