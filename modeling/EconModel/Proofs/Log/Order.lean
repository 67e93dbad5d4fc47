import EconModel.Proofs.Log
import Mathlib.Data.List.Nodup
import Mathlib.Data.Prod.Lex

/-!
# The order of a log

A record has a place: its timestep, and then the place of the declaration that it names.  In a
well-ordered log the records of every kind stand in the order of their places, and there is one
record at most about each subject.  Logs that are well ordered can be put together if every record of
the first one may stand before those of the second one.
-/

namespace EconModel

/-! ## Places -/

namespace Model

def policyNames (model : Model) : List String := model.policies.map Policy.name

def constraintNames (model : Model) : List String := model.constraints.map Constraint.name

end Model

/-- The place of a record that bears one of some declared names. -/
def recordPlace (names : List String) (timestep : UInt64) (name : String) : Nat ×ₗ Nat :=
  toLex (timestep.toNat, names.idxOf name)

section Places

variable {names : List String} {timestep later : UInt64} {name other : String}

theorem recordPlace_lt_of_timestep (ahead : timestep.toNat < later.toNat) :
    recordPlace names timestep name < recordPlace names later other :=
  Prod.Lex.toLex_lt_toLex.mpr (.inl ahead)

theorem recordPlace_lt_of_idxOf (ahead : names.idxOf name < names.idxOf other) :
    recordPlace names timestep name < recordPlace names timestep other :=
  Prod.Lex.toLex_lt_toLex.mpr (.inr ⟨rfl, ahead⟩)

/-- Distinct names are in the order of their places. -/
theorem pairwise_idxOf (distinct : names.Nodup) :
    names.Pairwise fun name other => names.idxOf name < names.idxOf other := by
  rw [List.pairwise_iff_getElem]
  intro index index' within within' ahead
  rw [distinct.idxOf_getElem index within, distinct.idxOf_getElem index' within']
  exact ahead

/-- Records that name declarations in their order are in order. -/
theorem pairwise_recordPlace (distinct : names.Nodup) {chosen : List String}
    (sublist : chosen.Sublist names) (timestep : UInt64) :
    chosen.Pairwise fun name other =>
      recordPlace names timestep name < recordPlace names timestep other :=
  ((pairwise_idxOf distinct).sublist sublist).imp recordPlace_lt_of_idxOf

end Places

namespace Model

def firingPlace (model : Model) (firing : PolicyFiring) : Nat ×ₗ Nat :=
  recordPlace model.policyNames firing.timestep firing.policy

def eventPlace (model : Model) (event : EmittedEvent) : Nat ×ₗ Nat :=
  recordPlace model.policyNames event.timestep event.policy

def violationPlace (model : Model) (violation : Violation) : Nat ×ₗ Nat :=
  recordPlace model.constraintNames violation.timestep violation.constraint

end Model

/-! ## Subjects -/

/-- What is reported once at most in a timestep. -/
inductive Subject where
  /-- That equations stay unresolved. -/
  | convergence (timestep : UInt64)
  /-- That the recurrence of a variable fails. -/
  | recurrence (timestep : UInt64) (target : String)
  /-- That a constraint is violated or cannot be checked. -/
  | constraint (timestep : UInt64) (name : String)
  /-- That a policy fails. -/
  | policy (timestep : UInt64) (name : String)

def Subject.timestep : Subject → UInt64
  | .convergence timestep => timestep
  | .recurrence timestep _ => timestep
  | .constraint timestep _ => timestep
  | .policy timestep _ => timestep

def Violation.subject (violation : Violation) : Subject :=
  .constraint violation.timestep violation.constraint

/-- What a diagnostic is about.  Zero divisors may be reported any number of times. -/
def Diagnostic.subject? : Diagnostic → Option Subject
  | .convergence warning => some (.convergence warning.timestep)
  | .divisionByZero _ _ => none
  | .recurrenceFailed timestep target _ => some (.recurrence timestep target)
  | .constraintSkipped timestep constraint _ => some (.constraint timestep constraint)
  | .policyFailed timestep policy _ => some (.policy timestep policy)

theorem Diagnostic.timestep_of_subject? {diagnostic : Diagnostic} {subject : Subject}
    (about : diagnostic.subject? = some subject) : diagnostic.timestep = subject.timestep := by
  cases diagnostic <;> cases about <;> rfl

theorem Diagnostic.subject?_of_mem_ofMark {divided : Bool} {timestep : UInt64} {location : String}
    {diagnostic : Diagnostic} (member : diagnostic ∈ ofMark divided timestep location) :
    diagnostic.subject? = none := by
  obtain ⟨_, rfl⟩ := (mem_ofMark_iff _ _ _ _).mp member
  rfl

theorem Diagnostic.filterMap_subject?_ofMark (divided : Bool) (timestep : UInt64)
    (location : String) : (ofMark divided timestep location).filterMap subject? = [] :=
  List.filterMap_eq_nil_iff.mpr fun _ member => subject?_of_mem_ofMark member

namespace Log

/-- What the violations and the diagnostics of a log are about. -/
def subjects (log : Log) : List Subject :=
  log.violations.map Violation.subject ++ log.diagnostics.filterMap Diagnostic.subject?

theorem perm_subjects_append (earlier later : Log) :
    (earlier ++ later).subjects.Perm (earlier.subjects ++ later.subjects) := by
  simp only [subjects, violations_append, diagnostics_append, List.map_append,
    List.filterMap_append, List.append_assoc]
  exact (List.perm_append_comm_assoc _ _ _).append_left _

theorem mem_subjects_append_iff {earlier later : Log} {subject : Subject} :
    subject ∈ (earlier ++ later).subjects ↔
      subject ∈ earlier.subjects ∨ subject ∈ later.subjects := by
  rw [(perm_subjects_append earlier later).mem_iff, List.mem_append]

theorem subjects_ofDiagnostics (diagnostics : List Diagnostic) :
    (ofDiagnostics diagnostics).subjects = diagnostics.filterMap Diagnostic.subject? := rfl

/-! ## Order -/

/-- The records of a log are in order. -/
structure WellOrdered (model : Model) (log : Log) : Prop where
  firings : log.firings.Pairwise fun earlier later =>
    model.firingPlace earlier < model.firingPlace later
  firing_declared : ∀ firing ∈ log.firings, firing.policy ∈ model.policyNames
  events : log.events.Pairwise fun earlier later =>
    model.eventPlace earlier ≤ model.eventPlace later
  /-- Events come from policies that fire. -/
  event_fired : ∀ event ∈ log.events, ⟨event.policy, event.timestep⟩ ∈ log.firings
  violations : log.violations.Pairwise fun earlier later =>
    model.violationPlace earlier < model.violationPlace later
  violation_declared : ∀ violation ∈ log.violations, violation.constraint ∈ model.constraintNames
  diagnostics : log.diagnostics.Pairwise fun earlier later =>
    earlier.timestep.toNat ≤ later.timestep.toNat
  /-- No two warnings about a timestep, and no two failures of a recurrence, a policy or the check
  of a constraint in a timestep; and where a constraint is violated, its check has not failed. -/
  subjects : log.subjects.Nodup

/-- A policy fires once at most in a timestep. -/
theorem WellOrdered.nodup_firings {model : Model} {log : Log} (ordered : log.WellOrdered model) :
    log.firings.Nodup := by
  refine ordered.firings.imp ?_
  rintro earlier later ahead rfl
  exact lt_irrefl _ ahead

/-- The records of a log may stand before those of another one. -/
structure Precedes (model : Model) (earlier later : Log) : Prop where
  firings : ∀ firing ∈ earlier.firings, ∀ other ∈ later.firings,
    model.firingPlace firing < model.firingPlace other
  events : ∀ event ∈ earlier.events, ∀ other ∈ later.events,
    model.eventPlace event ≤ model.eventPlace other
  violations : ∀ violation ∈ earlier.violations, ∀ other ∈ later.violations,
    model.violationPlace violation < model.violationPlace other
  diagnostics : ∀ diagnostic ∈ earlier.diagnostics, ∀ other ∈ later.diagnostics,
    diagnostic.timestep.toNat ≤ other.timestep.toNat
  subjects : earlier.subjects.Disjoint later.subjects

section Append

variable {model : Model} {earlier later : Log}

theorem wellOrdered_empty (model : Model) : empty.WellOrdered model where
  firings := .nil
  firing_declared _ member := (List.not_mem_nil member).elim
  events := .nil
  event_fired _ member := (List.not_mem_nil member).elim
  violations := .nil
  violation_declared _ member := (List.not_mem_nil member).elim
  diagnostics := .nil
  subjects := .nil

theorem WellOrdered.append (first : earlier.WellOrdered model) (second : later.WellOrdered model)
    (precedes : Precedes model earlier later) : (earlier ++ later).WellOrdered model where
  firings := List.pairwise_append.mpr ⟨first.firings, second.firings, precedes.firings⟩
  firing_declared firing member :=
    (List.mem_append.mp member).elim (first.firing_declared firing)
      (second.firing_declared firing)
  events := List.pairwise_append.mpr ⟨first.events, second.events, precedes.events⟩
  event_fired event member :=
    List.mem_append.mpr <|
      (List.mem_append.mp member).imp (first.event_fired event) (second.event_fired event)
  violations :=
    List.pairwise_append.mpr ⟨first.violations, second.violations, precedes.violations⟩
  violation_declared violation member :=
    (List.mem_append.mp member).elim (first.violation_declared violation)
      (second.violation_declared violation)
  diagnostics :=
    List.pairwise_append.mpr ⟨first.diagnostics, second.diagnostics, precedes.diagnostics⟩
  subjects :=
    (perm_subjects_append earlier later).nodup_iff.mpr <|
      List.nodup_append'.mpr ⟨first.subjects, second.subjects, precedes.subjects⟩

end Append

/-! ## Timesteps of records -/

/-- The timesteps of all records of a log satisfy a condition. -/
structure Within (log : Log) (condition : UInt64 → Prop) : Prop where
  violations : ∀ violation ∈ log.violations, condition violation.timestep
  events : ∀ event ∈ log.events, condition event.timestep
  firings : ∀ firing ∈ log.firings, condition firing.timestep
  diagnostics : ∀ diagnostic ∈ log.diagnostics, condition diagnostic.timestep

section Within

variable {model : Model} {earlier later log : Log} {condition : UInt64 → Prop} {timestep : UInt64}

theorem within_empty (condition : UInt64 → Prop) : empty.Within condition := by
  constructor <;> exact fun _ member => (List.not_mem_nil member).elim

theorem BelongsTo.within (belongs : log.BelongsTo timestep) : log.Within (· = timestep) :=
  ⟨belongs.violations, belongs.events, belongs.firings, belongs.diagnostics⟩

theorem within_ofDiagnostics {diagnostics : List Diagnostic}
    (belong : ∀ diagnostic ∈ diagnostics, condition diagnostic.timestep) :
    (ofDiagnostics diagnostics).Within condition where
  violations _ member := (List.not_mem_nil member).elim
  events _ member := (List.not_mem_nil member).elim
  firings _ member := (List.not_mem_nil member).elim
  diagnostics := belong

theorem Within.append (first : earlier.Within condition) (second : later.Within condition) :
    (earlier ++ later).Within condition where
  violations violation member :=
    (List.mem_append.mp member).elim (first.violations violation) (second.violations violation)
  events event member :=
    (List.mem_append.mp member).elim (first.events event) (second.events event)
  firings firing member :=
    (List.mem_append.mp member).elim (first.firings firing) (second.firings firing)
  diagnostics diagnostic member :=
    (List.mem_append.mp member).elim (first.diagnostics diagnostic)
      (second.diagnostics diagnostic)

theorem Within.imp {weaker : UInt64 → Prop} (within : log.Within condition)
    (implies : ∀ timestep, condition timestep → weaker timestep) : log.Within weaker where
  violations violation member := implies _ (within.violations violation member)
  events event member := implies _ (within.events event member)
  firings firing member := implies _ (within.firings firing member)
  diagnostics diagnostic member := implies _ (within.diagnostics diagnostic member)

theorem Within.of_mem_subjects (within : log.Within condition) {subject : Subject}
    (member : subject ∈ log.subjects) : condition subject.timestep := by
  rcases List.mem_append.mp member with violated | diagnosed
  · obtain ⟨violation, violation_mem, rfl⟩ := List.mem_map.mp violated
    exact within.violations violation violation_mem
  · obtain ⟨diagnostic, diagnostic_mem, about⟩ := List.mem_filterMap.mp diagnosed
    rw [← Diagnostic.timestep_of_subject? about]
    exact within.diagnostics diagnostic diagnostic_mem

theorem Within.pairwise_diagnostics (within : log.Within (· = timestep)) :
    log.diagnostics.Pairwise fun earlier later =>
      earlier.timestep.toNat ≤ later.timestep.toNat := by
  apply List.pairwise_of_forall_mem_list
  intro diagnostic member other other_mem
  rw [within.diagnostics diagnostic member, within.diagnostics other other_mem]

/-- Diagnostics of one timestep about different subjects are in order. -/
theorem wellOrdered_ofDiagnostics {diagnostics : List Diagnostic}
    (belong : ∀ diagnostic ∈ diagnostics, diagnostic.timestep = timestep)
    (distinct : (diagnostics.filterMap Diagnostic.subject?).Nodup) :
    (ofDiagnostics diagnostics).WellOrdered model where
  firings := .nil
  firing_declared _ member := (List.not_mem_nil member).elim
  events := .nil
  event_fired _ member := (List.not_mem_nil member).elim
  violations := .nil
  violation_declared _ member := (List.not_mem_nil member).elim
  diagnostics := (within_ofDiagnostics belong).pairwise_diagnostics
  subjects := distinct

/-- The records of some timesteps may stand before those of later timesteps. -/
theorem Within.precedes {bound : Nat} (first : earlier.Within fun stamp => stamp.toNat < bound)
    (second : later.Within fun stamp => bound ≤ stamp.toNat) : Precedes model earlier later where
  firings firing member other other_mem := recordPlace_lt_of_timestep <|
    (first.firings firing member).trans_le (second.firings other other_mem)
  events event member other other_mem := le_of_lt <| recordPlace_lt_of_timestep <|
    (first.events event member).trans_le (second.events other other_mem)
  violations violation member other other_mem := recordPlace_lt_of_timestep <|
    (first.violations violation member).trans_le (second.violations other other_mem)
  diagnostics diagnostic member other other_mem := le_of_lt <|
    (first.diagnostics diagnostic member).trans_le (second.diagnostics other other_mem)
  subjects _ member other_mem := lt_irrefl _ <|
    (first.of_mem_subjects member).trans_le (second.of_mem_subjects other_mem)

/-- Parts of a timestep may stand in this order if they do not record the same kinds of things. -/
theorem Within.precedes_of_apart (first : earlier.Within (· = timestep))
    (second : later.Within (· = timestep)) (firings : earlier.firings = [] ∨ later.firings = [])
    (events : earlier.events = [] ∨ later.events = [])
    (violations : earlier.violations = [] ∨ later.violations = [])
    (subjects : earlier.subjects.Disjoint later.subjects) : Precedes model earlier later where
  firings firing member other other_mem := by
    rcases firings with none | none <;> simp [none] at member other_mem
  events event member other other_mem := by
    rcases events with none | none <;> simp [none] at member other_mem
  violations violation member other other_mem := by
    rcases violations with none | none <;> simp [none] at member other_mem
  diagnostics diagnostic member other other_mem := by
    rw [first.diagnostics diagnostic member, second.diagnostics other other_mem]
  subjects := subjects

end Within

/-! ## Marks -/

section Marks

variable {model : Model} {marks : List Diagnostic}
  (marked : ∀ mark ∈ marks, ∃ location, mark = .divisionByZero 0 location)

include marked

theorem subjects_of_marks : (ofDiagnostics marks).subjects = [] := by
  rw [subjects_ofDiagnostics, List.filterMap_eq_nil_iff]
  intro mark member
  obtain ⟨_, rfl⟩ := marked mark member
  rfl

/-- Marks of zero divisors at the first timestep are in order. -/
theorem wellOrdered_of_marks : (ofDiagnostics marks).WellOrdered model := by
  have belong : ∀ mark ∈ marks, mark.timestep = 0 := by
    intro mark member
    obtain ⟨_, rfl⟩ := marked mark member
    rfl
  have no_subjects := subjects_of_marks marked
  rw [subjects_ofDiagnostics] at no_subjects
  exact wellOrdered_ofDiagnostics belong (no_subjects ▸ .nil)

/-- Marks of zero divisors at the first timestep may stand before any log. -/
theorem precedes_of_marks (log : Log) : Precedes model (ofDiagnostics marks) log where
  firings _ member := (List.not_mem_nil member).elim
  events _ member := (List.not_mem_nil member).elim
  violations _ member := (List.not_mem_nil member).elim
  diagnostics diagnostic member other _ := by
    obtain ⟨location, rfl⟩ := marked diagnostic member
    exact Nat.zero_le _
  subjects := by
    rw [subjects_of_marks marked]
    exact List.disjoint_nil_left _

end Marks

end Log

end EconModel
