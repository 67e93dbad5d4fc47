import EconModel.Log
import EconModel.Proofs.Bindings
import Mathlib.Data.List.Forall2

/-!
# Logs as collections of records

The records of a log are those of its parts, one kind at a time.  A record belongs to a timestep, so
a log can be restricted to one.  `Log.Agree` compares logs up to the order of their diagnostics.
-/

namespace EconModel

theorem Diagnostic.mem_ofMark_iff (divided : Bool) (timestep : UInt64) (location : String)
    (diagnostic : Diagnostic) : diagnostic ∈ ofMark divided timestep location ↔
      divided = true ∧ diagnostic = .divisionByZero timestep location := by
  cases divided <;> simp [ofMark]

namespace Log

@[simp]
theorem violations_append (earlier later : Log) :
    (earlier ++ later).violations = earlier.violations ++ later.violations := rfl

@[simp]
theorem events_append (earlier later : Log) :
    (earlier ++ later).events = earlier.events ++ later.events := rfl

@[simp]
theorem firings_append (earlier later : Log) :
    (earlier ++ later).firings = earlier.firings ++ later.firings := rfl

@[simp]
theorem diagnostics_append (earlier later : Log) :
    (earlier ++ later).diagnostics = earlier.diagnostics ++ later.diagnostics := rfl

@[simp]
theorem violations_ofDiagnostics (diagnostics : List Diagnostic) :
    (ofDiagnostics diagnostics).violations = [] := rfl

@[simp]
theorem events_ofDiagnostics (diagnostics : List Diagnostic) :
    (ofDiagnostics diagnostics).events = [] := rfl

@[simp]
theorem firings_ofDiagnostics (diagnostics : List Diagnostic) :
    (ofDiagnostics diagnostics).firings = [] := rfl

@[simp]
theorem diagnostics_ofDiagnostics (diagnostics : List Diagnostic) :
    (ofDiagnostics diagnostics).diagnostics = diagnostics := rfl

/-- Marks of zero divisors in front of a log do not add to its other diagnostics. -/
theorem mem_append_marks_iff {marks : List Diagnostic} {log : Log} {diagnostic : Diagnostic}
    (marked : ∀ mark ∈ marks, ∃ location, mark = .divisionByZero 0 location)
    (unmarked : ∀ location, diagnostic ≠ .divisionByZero 0 location) :
    diagnostic ∈ (ofDiagnostics marks ++ log).diagnostics ↔ diagnostic ∈ log.diagnostics := by
  rw [diagnostics_append, diagnostics_ofDiagnostics, List.mem_append]
  refine or_iff_right fun mark => ?_
  obtain ⟨location, equal⟩ := marked diagnostic mark
  exact unmarked location equal

/-! ## Records of a timestep -/

/-- Every record of a log belongs to a timestep. -/
structure BelongsTo (log : Log) (timestep : UInt64) : Prop where
  violations : ∀ violation ∈ log.violations, violation.timestep = timestep
  events : ∀ event ∈ log.events, event.timestep = timestep
  firings : ∀ firing ∈ log.firings, firing.timestep = timestep
  diagnostics : ∀ diagnostic ∈ log.diagnostics, diagnostic.timestep = timestep

/-- The records of a log whose timesteps are chosen. -/
def select (log : Log) (chosen : UInt64 → Bool) : Log where
  violations := log.violations.filter fun violation => chosen violation.timestep
  events := log.events.filter fun event => chosen event.timestep
  firings := log.firings.filter fun firing => chosen firing.timestep
  diagnostics := log.diagnostics.filter fun diagnostic => chosen diagnostic.timestep

theorem select_append (earlier later : Log) (chosen : UInt64 → Bool) :
    (earlier ++ later).select chosen = earlier.select chosen ++ later.select chosen := by
  change select (append _ _) _ = append _ _
  simp [select, append]

theorem BelongsTo.select_eq {log : Log} {timestep : UInt64} (belongs : log.BelongsTo timestep)
    {chosen : UInt64 → Bool} (inside : chosen timestep = true) : log.select chosen = log := by
  have violations_eq := List.filter_eq_self.mpr fun violation member =>
    (congrArg chosen (belongs.violations violation member)).trans inside
  have events_eq := List.filter_eq_self.mpr fun event member =>
    (congrArg chosen (belongs.events event member)).trans inside
  have firings_eq := List.filter_eq_self.mpr fun firing member =>
    (congrArg chosen (belongs.firings firing member)).trans inside
  have diagnostics_eq := List.filter_eq_self.mpr fun diagnostic member =>
    (congrArg chosen (belongs.diagnostics diagnostic member)).trans inside
  rw [select, violations_eq, events_eq, firings_eq, diagnostics_eq]

theorem BelongsTo.select_eq_empty {log : Log} {timestep : UInt64}
    (belongs : log.BelongsTo timestep) {chosen : UInt64 → Bool}
    (outside : chosen timestep = false) : log.select chosen = empty := by
  have violations_eq := List.filter_eq_nil_iff.mpr fun violation member =>
    Bool.eq_false_iff.mp ((congrArg chosen (belongs.violations violation member)).trans outside)
  have events_eq := List.filter_eq_nil_iff.mpr fun event member =>
    Bool.eq_false_iff.mp ((congrArg chosen (belongs.events event member)).trans outside)
  have firings_eq := List.filter_eq_nil_iff.mpr fun firing member =>
    Bool.eq_false_iff.mp ((congrArg chosen (belongs.firings firing member)).trans outside)
  have diagnostics_eq := List.filter_eq_nil_iff.mpr fun diagnostic member =>
    Bool.eq_false_iff.mp ((congrArg chosen (belongs.diagnostics diagnostic member)).trans outside)
  rw [select, violations_eq, events_eq, firings_eq, diagnostics_eq, empty]

/-- The records of a log that belong to a timestep. -/
def restrict (log : Log) (timestep : UInt64) : Log where
  violations := log.violations.filter fun violation => violation.timestep = timestep
  events := log.events.filter fun event => event.timestep = timestep
  firings := log.firings.filter fun firing => firing.timestep = timestep
  diagnostics := log.diagnostics.filter fun diagnostic => diagnostic.timestep = timestep

theorem restrict_eq_select (log : Log) (timestep : UInt64) :
    log.restrict timestep = log.select fun stamp => decide (stamp = timestep) := rfl

theorem restrict_append (earlier later : Log) (timestep : UInt64) :
    (earlier ++ later).restrict timestep =
      earlier.restrict timestep ++ later.restrict timestep := by
  simp only [restrict_eq_select, select_append]

theorem BelongsTo.restrict_eq {log : Log} {timestep : UInt64} (belongs : log.BelongsTo timestep) :
    log.restrict timestep = log := by
  rw [restrict_eq_select, belongs.select_eq (decide_eq_true rfl)]

theorem BelongsTo.restrict_eq_empty {log : Log} {timestep other : UInt64}
    (belongs : log.BelongsTo timestep) (different : timestep ≠ other) :
    log.restrict other = empty := by
  rw [restrict_eq_select, belongs.select_eq_empty (decide_eq_false different)]

/-- The records of a log that belong to the timesteps before one. -/
def before (log : Log) (timestep : UInt64) : Log := log.select fun stamp => decide (stamp < timestep)

theorem before_append (earlier later : Log) (timestep : UInt64) :
    (earlier ++ later).before timestep = earlier.before timestep ++ later.before timestep :=
  select_append earlier later _

theorem BelongsTo.before_eq {log : Log} {timestep bound : UInt64} (belongs : log.BelongsTo timestep)
    (earlier : timestep < bound) : log.before bound = log :=
  belongs.select_eq (decide_eq_true earlier)

theorem BelongsTo.before_eq_empty {log : Log} {timestep bound : UInt64}
    (belongs : log.BelongsTo timestep) (later : ¬ timestep < bound) : log.before bound = empty :=
  belongs.select_eq_empty (decide_eq_false later)

end Log

/-! ## Logs up to the order of diagnostics -/

/-- Two warnings are of one timestep and list the same variables with the same messages. -/
structure ConvergenceWarning.Agree (left right : ConvergenceWarning) : Prop where
  timestep_eq : left.timestep = right.timestep
  unresolved : left.unresolved.SameMap right.unresolved

/-- The diagnostics that are no warnings about unresolved equations. -/
def Diagnostic.others (diagnostics : List Diagnostic) : List Diagnostic :=
  diagnostics.filter fun diagnostic => diagnostic.convergenceWarning?.isNone

/-- The warnings about unresolved equations agree, and the other diagnostics differ in their order
at most. -/
structure Diagnostic.ListsAgree (left right : List Diagnostic) : Prop where
  warnings : List.Forall₂ ConvergenceWarning.Agree (left.filterMap Diagnostic.convergenceWarning?)
    (right.filterMap Diagnostic.convergenceWarning?)
  others : (Diagnostic.others left).Perm (Diagnostic.others right)

namespace Diagnostic.ListsAgree

variable {left right left' right' : List Diagnostic}

theorem append (first : ListsAgree left right) (second : ListsAgree left' right') :
    ListsAgree (left ++ left') (right ++ right') where
  warnings := by
    rw [List.filterMap_append, List.filterMap_append]
    exact List.rel_append first.warnings second.warnings
  others := by
    rw [Diagnostic.others, Diagnostic.others, List.filter_append, List.filter_append]
    exact first.others.append second.others

theorem of_perm (perm : left.Perm right)
    (plain : ∀ diagnostic ∈ left, diagnostic.convergenceWarning? = none) :
    ListsAgree left right where
  warnings := by
    have plain' : ∀ diagnostic ∈ right, diagnostic.convergenceWarning? = none :=
      fun diagnostic member => plain diagnostic (perm.mem_iff.mpr member)
    rw [List.filterMap_eq_nil_iff.mpr plain, List.filterMap_eq_nil_iff.mpr plain']
    exact .nil
  others := perm.filter _

theorem refl (diagnostics : List Diagnostic) : ListsAgree diagnostics diagnostics where
  warnings := List.forall₂_same.mpr fun _ _ => ⟨rfl, .refl _⟩
  others := .refl _

end Diagnostic.ListsAgree

/-- Two logs agree up to the order of their diagnostics. -/
structure Log.Agree (left right : Log) : Prop where
  violations_eq : left.violations = right.violations
  events_eq : left.events = right.events
  firings_eq : left.firings = right.firings
  diagnostics : Diagnostic.ListsAgree left.diagnostics right.diagnostics

namespace Log.Agree

theorem append {left right left' right' : Log} (first : Agree left right)
    (second : Agree left' right') : Agree (left ++ left') (right ++ right') where
  violations_eq := congrArg₂ List.append first.violations_eq second.violations_eq
  events_eq := congrArg₂ List.append first.events_eq second.events_eq
  firings_eq := congrArg₂ List.append first.firings_eq second.firings_eq
  diagnostics := first.diagnostics.append second.diagnostics

theorem refl (log : Log) : Agree log log := ⟨rfl, rfl, rfl, .refl _⟩

theorem of_diagnostics {left right : List Diagnostic} (agree : Diagnostic.ListsAgree left right) :
    Agree (ofDiagnostics left) (ofDiagnostics right) :=
  ⟨rfl, rfl, rfl, agree⟩

end Log.Agree

end EconModel
