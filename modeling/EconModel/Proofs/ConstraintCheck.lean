import EconModel.ConstraintCheck
import EconModel.Proofs.Evaluation.Extension

/-!
# What a check of constraints reports

A check ends at the first fatal constraint that is violated.  So a fatal violation is the last one
of its report, and it is there exactly if some fatal constraint is violated.
-/

namespace EconModel

/-- Every violation is a warning, except that the last one may be fatal. -/
def FatalLast (violations : List Violation) : Prop :=
  ∀ violation ∈ violations.dropLast, violation.severity.isFatal = false

namespace ConstraintReport

theorem isFatal_iff {report : ConstraintReport} : report.isFatal = true ↔
    ∃ earlier last, report.violations = earlier ++ [last] ∧ last.severity.isFatal = true := by
  unfold isFatal
  cases found : report.violations.getLast? with
  | none =>
      rw [List.getLast?_eq_none_iff.mp found]
      simp
  | some last =>
      obtain ⟨earlier, violations_eq⟩ := List.getLast?_eq_some_iff.mp found
      rw [violations_eq]
      constructor
      · intro fatal
        exact ⟨earlier, last, rfl, fatal⟩
      · rintro ⟨earlier', last', equal, fatal⟩
        obtain ⟨_, last_eq⟩ := List.append_inj' equal rfl
        cases last_eq
        exact fatal

end ConstraintReport

namespace Context

variable (context : Context)

theorem violations_check_cons (constraint : Constraint) (rest : List Constraint) :
    (context.check (constraint :: rest)).violations =
      match (context.evalBoolean constraint.condition).result with
      | .error _ | .ok true => (context.check rest).violations
      | .ok false =>
          if constraint.severity.isFatal then [context.violation constraint]
          else context.violation constraint :: (context.check rest).violations := by
  rw [check]
  cases (context.evalBoolean constraint.condition).result with
  | error error => rfl
  | ok truth =>
      cases truth with
      | true => rfl
      | false => cases constraint.severity <;> rfl

theorem fatalLast_check (constraints : List Constraint) :
    FatalLast (context.check constraints).violations := by
  induction constraints with
  | nil => exact fun violation member => (List.not_mem_nil member).elim
  | cons constraint rest ih =>
      rw [violations_check_cons]
      cases (context.evalBoolean constraint.condition).result with
      | error error => exact ih
      | ok truth =>
          cases truth with
          | true => exact ih
          | false =>
              cases severity : constraint.severity with
              | fatal => exact fun violation member => (List.not_mem_nil member).elim
              | warning =>
                  change FatalLast (context.violation constraint :: _)
                  intro violation member
                  cases later : (context.check rest).violations with
                  | nil =>
                      rw [later] at member
                      exact (List.not_mem_nil member).elim
                  | cons first others =>
                      rw [later, List.dropLast_cons_cons, List.mem_cons, ← later] at member
                      rcases member with rfl | member
                      · change constraint.severity.isFatal = false
                        rw [severity]
                        rfl
                      · exact ih violation member

/-- A check that ends at a fatal constraint reports it last, and no other violation is fatal. -/
theorem exists_last_of_isFatal_check {constraints : List Constraint}
    (fatal : (context.check constraints).isFatal = true) :
    ∃ earlier last, (context.check constraints).violations = earlier ++ [last] ∧
      last.severity.isFatal = true ∧
        ∀ violation ∈ earlier, violation.severity.isFatal = false := by
  obtain ⟨earlier, last, violations_eq, last_fatal⟩ := ConstraintReport.isFatal_iff.mp fatal
  refine ⟨earlier, last, violations_eq, last_fatal, ?_⟩
  have harmless := context.fatalLast_check constraints
  rw [FatalLast, violations_eq, List.dropLast_concat] at harmless
  exact harmless

/-- If the check does not end at a fatal constraint, no violation is fatal. -/
theorem not_isFatal_of_mem_check {constraints : List Constraint} {violation : Violation}
    (passed : (context.check constraints).isFatal = false)
    (member : violation ∈ (context.check constraints).violations) :
    violation.severity.isFatal = false := by
  have nonempty : (context.check constraints).violations ≠ [] := List.ne_nil_of_mem member
  have split := List.dropLast_concat_getLast nonempty
  rw [← split, List.mem_append, List.mem_singleton] at member
  rcases member with earlier | rfl
  · exact context.fatalLast_check constraints violation earlier
  · apply Bool.eq_false_iff.mpr
    intro fatal
    have halted := ConstraintReport.isFatal_iff.mpr ⟨_, _, split.symm, fatal⟩
    rw [passed] at halted
    cases halted

/-- A violated fatal constraint ends the check. -/
theorem isFatal_check_of_mem {constraints : List Constraint} {constraint : Constraint}
    (member : constraint ∈ constraints) (fatal : constraint.severity.isFatal = true)
    (violated : (context.evalBoolean constraint.condition).result = .ok false) :
    (context.check constraints).isFatal = true := by
  induction constraints with
  | nil => exact (List.not_mem_nil member).elim
  | cons first rest ih =>
      have rest_suffices (rest_fatal : (context.check rest).isFatal = true) :
          (context.check (first :: rest)).isFatal = true := by
        obtain ⟨earlier, last, violations_eq, last_fatal⟩ :=
          ConstraintReport.isFatal_iff.mp rest_fatal
        rw [ConstraintReport.isFatal_iff, violations_check_cons, violations_eq]
        cases (context.evalBoolean first.condition).result with
        | error error => exact ⟨earlier, last, rfl, last_fatal⟩
        | ok truth =>
            cases truth with
            | true => exact ⟨earlier, last, rfl, last_fatal⟩
            | false =>
                cases severity : first.severity with
                | fatal =>
                    refine ⟨[], context.violation first, rfl, ?_⟩
                    change first.severity.isFatal = true
                    rw [severity]
                    rfl
                | warning => exact ⟨context.violation first :: earlier, last, rfl, last_fatal⟩
      rcases List.mem_cons.mp member with rfl | member
      · rw [ConstraintReport.isFatal_iff, violations_check_cons, violated]
        exact ⟨[], context.violation constraint, by simp [fatal], fatal⟩
      · exact rest_suffices (ih member)

/-- What a check reports is a violation of a constraint whose condition is false. -/
theorem exists_of_mem_check {constraints : List Constraint} {violation : Violation}
    (member : violation ∈ (context.check constraints).violations) :
    ∃ constraint ∈ constraints, violation = context.violation constraint ∧
      (context.evalBoolean constraint.condition).result = .ok false := by
  induction constraints with
  | nil => exact (List.not_mem_nil member).elim
  | cons first rest ih =>
      have later (member : violation ∈ (context.check rest).violations) :
          ∃ constraint ∈ first :: rest, violation = context.violation constraint ∧
            (context.evalBoolean constraint.condition).result = .ok false := by
        obtain ⟨constraint, constraint_mem, reported⟩ := ih member
        exact ⟨constraint, List.mem_cons_of_mem first constraint_mem, reported⟩
      rw [violations_check_cons] at member
      split at member
      · exact later member
      · exact later member
      · next violated =>
        split at member
        · exact ⟨first, List.mem_cons_self, List.mem_singleton.mp member, violated⟩
        · rcases List.mem_cons.mp member with rfl | member
          · exact ⟨first, List.mem_cons_self, rfl, violated⟩
          · exact later member

theorem timestep_of_mem_check {constraints : List Constraint} {violation : Violation}
    (member : violation ∈ (context.check constraints).violations) :
    violation.timestep = context.stamp := by
  obtain ⟨constraint, _, rfl, _⟩ := context.exists_of_mem_check member
  rfl

/-- What a check skips, it records for the timestep. -/
theorem exists_of_mem_skipped {constraints : List Constraint} {diagnostic : Diagnostic}
    (member : diagnostic ∈ (context.check constraints).skipped) :
    ∃ constraint reason, diagnostic = .constraintSkipped context.stamp constraint reason := by
  induction constraints with
  | nil => exact (List.not_mem_nil member).elim
  | cons first rest ih =>
      rw [check] at member
      dsimp only at member
      split at member
      · next error _ =>
        rcases List.mem_cons.mp member with rfl | member
        · exact ⟨first.name, error.message, rfl⟩
        · exact ih member
      · exact ih member
      · split at member
        · exact (List.not_mem_nil member).elim
        · exact ih member

/-! ## Contexts that read alike -/

namespace SameReading

variable {left right : Context}

theorem stamp_eq (same : left.SameReading right) : left.stamp = right.stamp := by
  rw [stamp, stamp, same.timestep_eq]

theorem render_eq (same : left.SameReading right) (template : String) :
    left.render template = right.render template := by
  have value_eq : left.templateValue? = right.templateValue? := by
    funext name
    rw [templateValue?, templateValue?, same.resolve_eq, same.timestep_eq]
  rw [render, render, value_eq]

theorem violation_eq (same : left.SameReading right) (constraint : Constraint) :
    left.violation constraint = right.violation constraint := by
  have shortfall_eq (condition : Expr) : left.shortfall condition = right.shortfall condition := by
    cases condition with
    | binary op first second =>
        simp only [shortfall, same.evalNumber_eq]
    | number | boolean | text | ident | lagged | time | unary | conditional | call => rfl
  have render_eq : left.render = right.render := funext same.render_eq
  rw [violation, violation, same.stamp_eq, shortfall_eq, render_eq]

/-- The reports on constraints are the same. -/
theorem check_eq (same : left.SameReading right) (constraints : List Constraint) :
    left.check constraints = right.check constraints := by
  induction constraints with
  | nil => rfl
  | cons constraint rest ih =>
      rw [check, check, same.evalBoolean_eq, same.stamp_eq, same.violation_eq, ih]

end SameReading

end Context

end EconModel
