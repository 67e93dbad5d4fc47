import EconModel.Proofs.Log
import EconModel.Proofs.ZeroDivision.Treatment
import EconModel.RunResult

/-!
# Records under treatments of zero divisors

What a run records under a treatment follows what it records where zero divisors are marked: without
the marks if they are dropped, and up to the reasons of failures if they are failures, because an
evaluation that fails anyway may meet the zero divisor first.
-/

namespace EconModel

namespace Diagnostic

/-- Whether a diagnostic records a zero divisor. -/
def isDivision : Diagnostic → Bool
  | .divisionByZero _ _ => true
  | .convergence _ | .recurrenceFailed _ _ _ | .constraintSkipped _ _ _ | .policyFailed _ _ _ =>
      false

/-- A diagnostic with its reasons rewritten. -/
def mapReason (rewrite : String → String) : Diagnostic → Diagnostic
  | .convergence warning =>
      .convergence { warning with unresolved := warning.unresolved.map fun _ => rewrite }
  | .divisionByZero timestep location => .divisionByZero timestep location
  | .recurrenceFailed timestep target reason => .recurrenceFailed timestep target (rewrite reason)
  | .constraintSkipped timestep constraint reason =>
      .constraintSkipped timestep constraint (rewrite reason)
  | .policyFailed timestep policy reason => .policyFailed timestep policy (rewrite reason)

@[simp]
theorem mapReason_id : mapReason id = id := by
  funext diagnostic
  cases diagnostic with
  | convergence warning => simp [mapReason, Bindings.map]
  | divisionByZero | recurrenceFailed | constraintSkipped | policyFailed => rfl

end Diagnostic

namespace ZeroDivision

/-- How a failure looks under a treatment: where a zero divisor is a failure too, one cannot tell
which failure comes first. -/
def look (treatment : ZeroDivision) (error : EvalError) : EvalError :=
  match treatment with
  | .zero | .warn => error
  | .error => .divisionByZero

/-- How the text of a failure looks under a treatment. -/
def blur (treatment : ZeroDivision) (reason : String) : String :=
  match treatment with
  | .zero | .warn => reason
  | .error => ""

/-- Whether a diagnostic is recorded under a treatment. -/
def keeps (treatment : ZeroDivision) (diagnostic : Diagnostic) : Bool :=
  match treatment with
  | .zero => !diagnostic.isDivision
  | .warn | .error => true

theorem blur_eq_of_look_eq {treatment : ZeroDivision} {error error' : EvalError}
    (look_eq : treatment.look error = treatment.look error') :
    treatment.blur error.message = treatment.blur error'.message := by
  cases treatment with
  | zero | warn => exact congrArg EvalError.message look_eq
  | error => rfl

theorem blur_message_look (treatment : ZeroDivision) (error : EvalError) :
    treatment.blur (treatment.look error).message = treatment.blur error.message := by
  cases treatment <;> rfl

theorem keeps_of_not_isDivision (treatment : ZeroDivision) {diagnostic : Diagnostic}
    (other : diagnostic.isDivision = false) : treatment.keeps diagnostic = true := by
  cases treatment with
  | zero => rw [keeps, other]; rfl
  | warn | error => rfl

/-- Among some diagnostics there is a mark that a treatment refuses. -/
def Forbids (treatment : ZeroDivision) (diagnostics : List Diagnostic) : Prop :=
  treatment = .error ∧ ∃ diagnostic ∈ diagnostics, diagnostic.isDivision = true

theorem Forbids.mono {treatment : ZeroDivision} {part whole : List Diagnostic}
    (forbidden : treatment.Forbids part) (subset : part ⊆ whole) : treatment.Forbids whole := by
  obtain ⟨treatment_eq, diagnostic, member, division⟩ := forbidden
  exact ⟨treatment_eq, diagnostic, subset member, division⟩

theorem Forbids.append_right {treatment : ZeroDivision} {first : List Diagnostic}
    (forbidden : treatment.Forbids first) (second : List Diagnostic) :
    treatment.Forbids (first ++ second) :=
  forbidden.mono (List.subset_append_left first second)

theorem Forbids.append_left {treatment : ZeroDivision} {second : List Diagnostic}
    (first : List Diagnostic) (forbidden : treatment.Forbids second) :
    treatment.Forbids (first ++ second) :=
  forbidden.mono (List.subset_append_right first second)

theorem Refuses.forbids {treatment : ZeroDivision} {divided : Bool}
    (refused : treatment.Refuses divided) (timestep : UInt64) (location : String) :
    treatment.Forbids (Diagnostic.ofMark divided timestep location) := by
  obtain ⟨treatment_eq, rfl⟩ := refused
  exact ⟨treatment_eq, .divisionByZero timestep location, List.mem_singleton_self _, rfl⟩

end ZeroDivision

namespace Diagnostic

variable {treatment : ZeroDivision}

/-- The right diagnostics are what a treatment makes of the left ones. -/
def Follow (treatment : ZeroDivision) (left right : List Diagnostic) : Prop :=
  right.map (mapReason treatment.blur) =
    (left.filter treatment.keeps).map (mapReason treatment.blur)

theorem Follow.append {left right left' right' : List Diagnostic}
    (first : Follow treatment left right) (second : Follow treatment left' right') :
    Follow treatment (left ++ left') (right ++ right') := by
  unfold Follow at first second ⊢
  rw [List.map_append, List.filter_append, List.map_append, first, second]

/-- Dropping the marks leaves the other diagnostics as they are. -/
theorem Follow.eq_filter {left right : List Diagnostic} (follow : Follow .zero left right) :
    right = left.filter fun diagnostic => !diagnostic.isDivision := by
  have blur_eq : ZeroDivision.zero.blur = id := rfl
  rwa [Follow, blur_eq, mapReason_id, List.map_id, List.map_id] at follow

/-- Keeping the marks changes nothing. -/
theorem Follow.eq {left right : List Diagnostic} (follow : Follow .warn left right) :
    right = left := by
  have blur_eq : ZeroDivision.warn.blur = id := rfl
  have keeps_eq : ZeroDivision.warn.keeps = fun _ => true := rfl
  rwa [Follow, blur_eq, keeps_eq, mapReason_id, List.map_id, List.map_id, List.filter_true]
    at follow

/-- Where zero divisors are failures, the diagnostics are the same up to their reasons. -/
theorem Follow.map_eq {left right : List Diagnostic} (follow : Follow .error left right) :
    right.map (mapReason fun _ => "") = left.map (mapReason fun _ => "") := by
  have keeps_eq : ZeroDivision.error.keeps = fun _ => true := rfl
  rwa [Follow, keeps_eq, List.filter_true] at follow

theorem follow_nil (treatment : ZeroDivision) : Follow treatment [] [] := rfl

theorem follow_singleton {left right : Diagnostic} (other : left.isDivision = false)
    (blurred_eq : left.mapReason treatment.blur = right.mapReason treatment.blur) :
    Follow treatment [left] [right] := by
  unfold Follow
  rw [List.filter_cons_of_pos (treatment.keeps_of_not_isDivision other), List.map_singleton,
    List.filter_nil, List.map_singleton, blurred_eq]

theorem follow_ofMark (treatment : ZeroDivision) (divided : Bool) (timestep : UInt64)
    (location : String) :
    Follow treatment (ofMark divided timestep location)
      (ofMark (treatment.mark divided) timestep location) := by
  cases treatment <;> cases divided <;> rfl

/-- Diagnostics without marks are kept as they are. -/
theorem follow_of_not_isDivision (treatment : ZeroDivision) {diagnostics : List Diagnostic}
    (others : ∀ diagnostic ∈ diagnostics, diagnostic.isDivision = false) :
    Follow treatment diagnostics diagnostics := by
  have filtered : diagnostics.filter treatment.keeps = diagnostics :=
    List.filter_eq_self.mpr fun diagnostic member =>
      treatment.keeps_of_not_isDivision (others diagnostic member)
  rw [Follow, filtered]

end Diagnostic

/-- The right log is what a treatment makes of the left one. -/
structure Log.Follows (treatment : ZeroDivision) (left right : Log) : Prop where
  violations_eq : right.violations = left.violations
  events_eq : right.events = left.events
  firings_eq : right.firings = left.firings
  diagnostics : Diagnostic.Follow treatment left.diagnostics right.diagnostics

namespace Log.Follows

variable {treatment : ZeroDivision}

theorem append {left right left' right' : Log} (first : Follows treatment left right)
    (second : Follows treatment left' right') :
    Follows treatment (left ++ left') (right ++ right') where
  violations_eq := congrArg₂ List.append first.violations_eq second.violations_eq
  events_eq := congrArg₂ List.append first.events_eq second.events_eq
  firings_eq := congrArg₂ List.append first.firings_eq second.firings_eq
  diagnostics := first.diagnostics.append second.diagnostics

theorem of_diagnostics {left right : List Diagnostic}
    (follow : Diagnostic.Follow treatment left right) :
    Follows treatment (ofDiagnostics left) (ofDiagnostics right) :=
  ⟨rfl, rfl, rfl, follow⟩

theorem empty (treatment : ZeroDivision) : Follows treatment .empty .empty :=
  ⟨rfl, rfl, rfl, rfl⟩

end Log.Follows

namespace RunResult

/-- A result without the records of zero divisors. -/
def withoutDivisions (result : RunResult) : RunResult :=
  { result with log := { result.log with
    diagnostics := result.log.diagnostics.filter fun diagnostic => !diagnostic.isDivision } }

/-- A result with the reasons of failures blanked out. -/
def withoutReasons (result : RunResult) : RunResult :=
  { result with log := { result.log with
    diagnostics := result.log.diagnostics.map (Diagnostic.mapReason fun _ => "") } }

end RunResult

end EconModel
