import EconModel.Proofs.Engine.Timestep
import Mathlib.Logic.Relation

/-!
# The course of a run

A run moves from position to position; at each one a timestep begins.  `Engine.Reaches` says which
positions a run comes to, and `Engine.Executes` what it makes of the timesteps from a position on.
What a step keeps holds at every position, and a successful run consists of one stage for every
committed timestep: the stage gives the values of the timestep and all of its records.
-/

namespace EconModel

/-- The point of a run at which a timestep begins. -/
structure Position where
  timestep : Nat
  state : SimulationState
  /-- The values of the recurrences for this timestep. -/
  next : Bindings Value

/-- The number of timesteps that a run with a status has committed. -/
def RunStatus.committed (status : RunStatus) (horizon : UInt64) : Nat :=
  match status with
  | .completed => horizon.toNat
  | .halted timestep => timestep.toNat + 1

/-- The number of timesteps that a run with a status has gone through to their end. -/
def RunStatus.passed (status : RunStatus) (horizon : UInt64) : Nat :=
  match status with
  | .completed => horizon.toNat
  | .halted timestep => timestep.toNat

theorem RunStatus.passed_le_committed (status : RunStatus) (horizon : UInt64) :
    status.passed horizon ≤ status.committed horizon := by
  cases status with
  | completed => exact Nat.le_refl _
  | halted timestep => exact Nat.le_succ _

/-- The values of a result are those of the state that the run leaves. -/
theorem RunResult.value?_eq {result : RunResult} {final : SimulationState} {timestep : Nat}
    (closed : final.ClosedAt timestep) (series_eq : result.series = final.committedSeries)
    (name : String) (index : Nat) : result.value? name index = final.valueAt? name index := by
  rw [value?, series?, series_eq, SimulationState.getElem?_committedSeries closed]

namespace Engine

/-- The position at which a run begins. -/
def start (engine : Engine) : Position := ⟨0, .initial engine.model.variableNames, .empty⟩

/-- The state with the timestep of a position open. -/
def openedAt (engine : Engine) (position : Position) : SimulationState :=
  engine.opened position.timestep position.state position.next

/-- What expressions are evaluated against when the equations of a position are resolved. -/
def settledContext (engine : Engine) (environment : Environment) (position : Position) : Context :=
  environment.view position.timestep
    (engine.settledAt environment position.timestep (engine.openedAt position))

/-- Whether no timestep follows. -/
def isLastAt (engine : Engine) (timestep : Nat) : Bool :=
  timestep + 1 == engine.model.horizon.toNat

/-- A run begins the timestep of a position. -/
structure Begins (engine : Engine) (checkpoint : Checkpoint) (position : Position) : Prop where
  /-- The timestep is before the horizon. -/
  within : position.timestep < engine.model.horizon.toNat
  /-- The run is not stopped from outside. -/
  uninterrupted : checkpoint position.timestep = none

/-- A run does the timestep of a position. -/
structure Does (engine : Engine) (environment : Environment) (checkpoint : Checkpoint)
    (position : Position) (outcome : StepOutcome) : Prop where
  begins : engine.Begins checkpoint position
  /-- The timestep succeeds. -/
  step_eq : engine.step environment position.timestep (engine.isLastAt position.timestep)
    position.state position.next = .ok outcome

/-- After the timestep of a position a run goes on at another one. -/
def Advances (engine : Engine) (environment : Environment) (checkpoint : Checkpoint)
    (position after : Position) : Prop :=
  ∃ outcome, engine.Does environment checkpoint position outcome ∧ outcome.halted = false ∧
    after = ⟨position.timestep + 1, outcome.state, outcome.next⟩

/-- A run comes to a position and begins its timestep. -/
structure Reaches (engine : Engine) (environment : Environment) (checkpoint : Checkpoint)
    (position : Position) : Prop where
  path : Relation.ReflTransGen (engine.Advances environment checkpoint) engine.start position
  begins : engine.Begins checkpoint position

/-- What a run makes of the timesteps from a position on. -/
inductive Executes (engine : Engine) (environment : Environment) (checkpoint : Checkpoint) :
    Position → RunStatus → SimulationState → Log → Prop where
  /-- The horizon is there. -/
  | completed {position : Position} : position.timestep = engine.model.horizon.toNat →
      Executes engine environment checkpoint position .completed position.state .empty
  /-- A fatal constraint is violated. -/
  | halted {position : Position} {outcome : StepOutcome} :
      engine.Does environment checkpoint position outcome → outcome.halted = true →
        Executes engine environment checkpoint position
          (.halted (UInt64.ofNat position.timestep)) outcome.state outcome.log
  /-- The run goes on. -/
  | advanced {position : Position} {outcome : StepOutcome} {status : RunStatus}
      {final : SimulationState} {later : Log} :
      engine.Does environment checkpoint position outcome → outcome.halted = false →
        Executes engine environment checkpoint
          ⟨position.timestep + 1, outcome.state, outcome.next⟩ status final later →
          Executes engine environment checkpoint position status final (outcome.log ++ later)

section Course

variable {engine : Engine} {environment : Environment} {checkpoint : Checkpoint}
  {position : Position} {status : RunStatus} {final : SimulationState} {log : Log}

theorem isLastAt_eq {remaining timestep : Nat}
    (total : remaining + 1 + timestep = engine.model.horizon.toNat) :
    (remaining == 0) = engine.isLastAt timestep := by
  rw [isLastAt, Bool.eq_iff_iff, beq_iff_eq, beq_iff_eq]
  omega

theorem executes_of_steps {index : Option UInt64} (remaining : Nat)
    (total : remaining + position.timestep = engine.model.horizon.toNat)
    (ran : engine.steps environment index checkpoint remaining position.timestep position.state
      position.next = .ok (status, final, log)) :
    engine.Executes environment checkpoint position status final log := by
  induction remaining generalizing position log with
  | zero =>
      cases ran
      exact .completed (by omega)
  | succ remaining ih =>
      rw [steps, isLastAt_eq total] at ran
      split at ran
      · cases ran
      · next uninterrupted =>
        have begins : engine.Begins checkpoint position := ⟨by omega, uninterrupted⟩
        rcases stepped : engine.step environment position.timestep
            (engine.isLastAt position.timestep) position.state position.next with error | outcome
        · rw [stepped] at ran
          cases ran
        · have does : engine.Does environment checkpoint position outcome := ⟨begins, stepped⟩
          rw [stepped] at ran
          change (if outcome.halted = true then _ else _) = _ at ran
          split at ran
          · next halted =>
            cases ran
            exact .halted does halted
          · next proceeding =>
            rcases continued : engine.steps environment index checkpoint remaining
                (position.timestep + 1) outcome.state outcome.next
              with error | ⟨status', final', later⟩
            · rw [continued] at ran
              cases ran
            · rw [continued] at ran
              cases ran
              refine .advanced does (Bool.eq_false_iff.mpr proceeding) (ih ?_ continued)
              change remaining + (position.timestep + 1) = _
              omega

theorem exists_of_bind_eq_ok {α β : Type} {first : Except EngineError α}
    {next : α → Except EngineError β} {final : β} (bound : first >>= next = .ok final) :
    ∃ value, first = .ok value ∧ next value = .ok final := by
  cases first with
  | error failure => cases bound
  | ok value => exact ⟨value, rfl, bound⟩

/-- A successful run resolves the scalars and then executes its timesteps. -/
theorem exists_executes_of_run {parameters : Bindings Value} {seed : UInt64}
    {index : Option UInt64} {result : RunResult}
    (ran : engine.run parameters seed index checkpoint = .ok result) :
    ∃ scalars diagnostics final log,
      engine.solveScalars parameters = .ok (scalars, diagnostics) ∧
        engine.Executes (engine.environment parameters scalars) checkpoint engine.start
          result.status final log ∧
        result.scalars = scalars ∧ result.parameters = parameters ∧
        result.series = final.committedSeries ∧ result.log = .ofDiagnostics diagnostics ++ log := by
  obtain ⟨⟨scalars, diagnostics⟩, solved, ran⟩ := exists_of_bind_eq_ok ran
  obtain ⟨⟨status, final, log⟩, stepped, ran⟩ := exists_of_bind_eq_ok ran
  cases ran
  refine ⟨scalars, diagnostics, final, log, solved, ?_, rfl, rfl, rfl, rfl⟩
  exact executes_of_steps _ (Nat.add_zero _) stepped

theorem metadata_of_run {parameters : Bindings Value} {seed : UInt64} {index : Option UInt64}
    {result : RunResult} (ran : engine.run parameters seed index checkpoint = .ok result) :
    result.metadata = engine.metadata seed index := by
  obtain ⟨_, _, ran⟩ := exists_of_bind_eq_ok ran
  obtain ⟨_, _, ran⟩ := exists_of_bind_eq_ok ran
  cases ran
  rfl

/-! ## Positions -/

theorem Begins.toNat_stamp (begins : engine.Begins checkpoint position) :
    (UInt64.ofNat position.timestep).toNat = position.timestep := by
  apply UInt64.toNat_ofNat_of_lt'
  exact Nat.lt_trans begins.within engine.model.horizon.toNat_lt

theorem Begins.stamp_lt_iff (begins : engine.Begins checkpoint position) {bound : UInt64} :
    UInt64.ofNat position.timestep < bound ↔ position.timestep < bound.toNat := by
  rw [UInt64.lt_iff_toNat_lt, begins.toNat_stamp]

/-- The timestep of a position is recorded apart from the earlier ones. -/
theorem Begins.stamp_ne (begins : engine.Begins checkpoint position) {index : Nat}
    (earlier : index < position.timestep) :
    UInt64.ofNat position.timestep ≠ UInt64.ofNat index := by
  intro equal
  have stamps := congrArg UInt64.toNat equal
  rw [begins.toNat_stamp, UInt64.toNat_ofNat'] at stamps
  have reduced := Nat.mod_le index (2 ^ 64)
  omega

namespace Does

variable {outcome outcome' : StepOutcome}

theorem outcome_unique (does : engine.Does environment checkpoint position outcome)
    (does' : engine.Does environment checkpoint position outcome') : outcome = outcome' := by
  have equal := does.step_eq.symm.trans does'.step_eq
  cases equal
  rfl

theorem missing_eq (does : engine.Does environment checkpoint position outcome) :
    engine.missingInitials position.timestep
      (engine.resolveAt environment position.timestep (engine.openedAt position)).1 = [] :=
  (step_eq_ok_iff.mp does.step_eq).1

theorem outcome_eq (does : engine.Does environment checkpoint position outcome) :
    outcome = engine.finish environment position.timestep (engine.isLastAt position.timestep)
      (engine.openedAt position) :=
  (step_eq_ok_iff.mp does.step_eq).2

theorem isFatal_eq (does : engine.Does environment checkpoint position outcome) :
    (engine.reportAt environment position.timestep (engine.openedAt position)).isFatal =
      outcome.halted := by
  rw [does.outcome_eq, halted_finish]

/-- A timestep at which the run is halted ends with its constraints. -/
theorem outcome_eq_of_halted (does : engine.Does environment checkpoint position outcome)
    (halted : outcome.halted = true) :
    outcome = ⟨(engine.settledAt environment position.timestep (engine.openedAt position)).commit,
      .empty, engine.settledLog environment position.timestep (engine.openedAt position), true⟩ :=
  does.outcome_eq.trans (finish_of_isFatal (does.isFatal_eq.trans halted))

/-- A timestep after which the run goes on runs the policies and the recurrences. -/
theorem outcome_eq_of_proceeding (does : engine.Does environment checkpoint position outcome)
    (proceeding : outcome.halted = false) :
    outcome =
      ⟨(engine.effectAt environment position.timestep (engine.openedAt position)).state.commit,
        (engine.recurrencesAt environment position.timestep (engine.isLastAt position.timestep)
          (engine.openedAt position)).1,
        engine.settledLog environment position.timestep (engine.openedAt position) ++
          (engine.effectAt environment position.timestep (engine.openedAt position)).log ++
          .ofDiagnostics (engine.recurrencesAt environment position.timestep
            (engine.isLastAt position.timestep) (engine.openedAt position)).2, false⟩ :=
  does.outcome_eq.trans (finish_of_not_isFatal (does.isFatal_eq.trans proceeding))

end Does

section Unhidden

variable (unhidden : engine.Unhidden environment.scalars)

include unhidden

theorem exists_endsAt (rests : engine.Rests position.state position.timestep) :
    ∃ done failed, engine.TimestepEnds environment position.timestep (engine.openedAt position)
      done failed :=
  exists_timestepEnds unhidden rests position.next

theorem Does.rests {outcome : StepOutcome}
    (does : engine.Does environment checkpoint position outcome)
    (rests : engine.Rests position.state position.timestep) :
    engine.Rests outcome.state (position.timestep + 1) :=
  rests_of_step unhidden rests does.step_eq

theorem Does.valueAt?_eq {outcome : StepOutcome}
    (does : engine.Does environment checkpoint position outcome)
    (rests : engine.Rests position.state position.timestep) (name : String) {index : Nat}
    (earlier : index < position.timestep) :
    outcome.state.valueAt? name index = position.state.valueAt? name index := by
  obtain ⟨done, failed, ends⟩ := exists_endsAt unhidden rests
  have elsewhere : index ≠ position.timestep := by omega
  have opened_open := openAt_opened rests position.next
  rw [does.outcome_eq, valueAt?_finish_of_ne ends opened_open name elsewhere, openedAt, opened,
    SimulationState.valueAt?_openNext rests.closed, if_neg elsewhere]

theorem Does.belongsTo {outcome : StepOutcome}
    (does : engine.Does environment checkpoint position outcome)
    (rests : engine.Rests position.state position.timestep) :
    outcome.log.BelongsTo (UInt64.ofNat position.timestep) := by
  obtain ⟨done, failed, ends⟩ := exists_endsAt unhidden rests
  rw [does.outcome_eq]
  exact belongsTo_finish ends (openAt_opened rests position.next)

/-- At every position the series hold the timesteps before. -/
theorem rests_of_path
    (path : Relation.ReflTransGen (engine.Advances environment checkpoint) engine.start position) :
    engine.Rests position.state position.timestep := by
  induction path with
  | refl => exact engine.rests_initial
  | tail _ advances ih =>
      obtain ⟨outcome, does, _, rfl⟩ := advances
      exact does.rests unhidden ih

/-! ## What is executed -/

namespace Executes

/-- When a run is over, every series has a value for every committed timestep. -/
theorem rests (executes : engine.Executes environment checkpoint position status final log)
    (rests : engine.Rests position.state position.timestep) :
    engine.Rests final (status.committed engine.model.horizon) := by
  induction executes with
  | completed timestep_eq =>
      rw [timestep_eq] at rests
      exact rests
  | halted does _ =>
      change engine.Rests _ ((UInt64.ofNat _).toNat + 1)
      rw [does.begins.toNat_stamp]
      exact does.rests unhidden rests
  | advanced does _ _ ih => exact ih (does.rests unhidden rests)

/-- Later timesteps leave earlier ones alone. -/
theorem valueAt?_eq (executes : engine.Executes environment checkpoint position status final log)
    (rests : engine.Rests position.state position.timestep) (name : String) {index : Nat}
    (earlier : index < position.timestep) :
    final.valueAt? name index = position.state.valueAt? name index := by
  induction executes with
  | completed _ => rfl
  | halted does _ => exact does.valueAt?_eq unhidden rests name earlier
  | advanced does _ _ ih =>
      rw [ih (does.rests unhidden rests) (Nat.lt_succ_of_lt earlier)]
      exact does.valueAt?_eq unhidden rests name earlier

/-- Later timesteps record nothing for earlier ones. -/
theorem restrict_eq_empty
    (executes : engine.Executes environment checkpoint position status final log)
    (rests : engine.Rests position.state position.timestep) {index : Nat}
    (earlier : index < position.timestep) :
    log.restrict (UInt64.ofNat index) = .empty := by
  induction executes with
  | completed _ => rfl
  | halted does _ =>
      exact (does.belongsTo unhidden rests).restrict_eq_empty (does.begins.stamp_ne earlier)
  | advanced does _ _ ih =>
      rw [Log.restrict_append, ih (does.rests unhidden rests) (Nat.lt_succ_of_lt earlier),
        (does.belongsTo unhidden rests).restrict_eq_empty (does.begins.stamp_ne earlier)]
      rfl

end Executes

/-- A timestep of a run: what is done at a position gives the values and the records of the run for
the timestep. -/
structure Stage (engine : Engine) (environment : Environment) (checkpoint : Checkpoint)
    (final : SimulationState) (log : Log) (position : Position) (outcome : StepOutcome) : Prop where
  path : Relation.ReflTransGen (engine.Advances environment checkpoint) engine.start position
  does : engine.Does environment checkpoint position outcome
  /-- The values are final. -/
  valueAt?_eq : ∀ name,
    final.valueAt? name position.timestep = outcome.state.valueAt? name position.timestep
  /-- The records of the timestep are those of the outcome. -/
  restrict_eq : log.restrict (UInt64.ofNat position.timestep) = outcome.log

/-- Every committed timestep was done at a position. -/
theorem Executes.exists_stage
    (executes : engine.Executes environment checkpoint position status final log)
    (path : Relation.ReflTransGen (engine.Advances environment checkpoint) engine.start position)
    {index : Nat} (from_position : position.timestep ≤ index)
    (committed : index < status.committed engine.model.horizon) :
    ∃ stage outcome, engine.Stage environment checkpoint final log stage outcome ∧
      stage.timestep = index := by
  induction executes with
  | completed timestep_eq =>
      change index < engine.model.horizon.toNat at committed
      omega
  | @halted position outcome does _ =>
      change index < (UInt64.ofNat _).toNat + 1 at committed
      rw [does.begins.toNat_stamp] at committed
      have rests := rests_of_path unhidden path
      refine ⟨position, outcome, ⟨path, does, fun _ => rfl, ?_⟩, by omega⟩
      exact (does.belongsTo unhidden rests).restrict_eq
  | @advanced position outcome status final later does proceeding executes ih =>
      have rests := rests_of_path unhidden path
      have rests_after := does.rests unhidden rests
      rcases Nat.eq_or_lt_of_le from_position with here | later_on
      · refine ⟨position, outcome, ⟨path, does, ?_, ?_⟩, here⟩
        · intro name
          exact executes.valueAt?_eq unhidden rests_after name (Nat.lt_succ_self _)
        · rw [Log.restrict_append, (does.belongsTo unhidden rests).restrict_eq,
            executes.restrict_eq_empty unhidden rests_after (Nat.lt_succ_self _), Log.append_empty]
      · have path_after := path.tail ⟨outcome, does, proceeding, rfl⟩
        obtain ⟨stage, outcome', holds, timestep_eq⟩ := ih path_after later_on committed
        refine ⟨stage, outcome', ⟨holds.path, holds.does, holds.valueAt?_eq, ?_⟩, timestep_eq⟩
        have apart := holds.does.begins.stamp_ne (timestep_eq.symm ▸ later_on)
        rw [Log.restrict_append, (does.belongsTo unhidden rests).restrict_eq_empty apart.symm,
          holds.restrict_eq, Log.empty_append]

end Unhidden

/-- A successful run executes the timesteps from every position that it comes to. -/
theorem Executes.of_path {start : Position}
    (executes : engine.Executes environment checkpoint start status final log)
    (path : Relation.ReflTransGen (engine.Advances environment checkpoint) start position) :
    ∃ rest, engine.Executes environment checkpoint position status final rest := by
  induction path with
  | refl => exact ⟨log, executes⟩
  | tail _ advances ih =>
      obtain ⟨rest, executes_here⟩ := ih
      obtain ⟨outcome, does, proceeding, rfl⟩ := advances
      cases executes_here with
      | completed timestep_eq =>
          have within := does.begins.within
          omega
      | halted does' halted =>
          rw [does.outcome_unique does', halted] at proceeding
          cases proceeding
      | advanced does' _ executes_after =>
          rw [does.outcome_unique does']
          exact ⟨_, executes_after⟩

/-! ## Stages -/

/-- A run comes to one position at most with a given timestep. -/
theorem position_unique {other : Position}
    (path : Relation.ReflTransGen (engine.Advances environment checkpoint) engine.start position)
    (path' : Relation.ReflTransGen (engine.Advances environment checkpoint) engine.start other)
    (timestep_eq : position.timestep = other.timestep) : position = other := by
  induction path generalizing other with
  | refl =>
      cases path' with
      | refl => rfl
      | tail _ advances =>
          obtain ⟨_, _, _, rfl⟩ := advances
          cases timestep_eq
  | tail _ advances ih =>
      obtain ⟨outcome, does, _, rfl⟩ := advances
      cases path' with
      | refl => cases timestep_eq
      | tail path_before advances' =>
          obtain ⟨outcome', does', _, rfl⟩ := advances'
          obtain rfl := ih path_before (Nat.succ.inj timestep_eq)
          rw [does.outcome_unique does']

/-- At the horizon nothing is done. -/
theorem Executes.eq_of_horizon
    (executes : engine.Executes environment checkpoint position status final log)
    (at_horizon : position.timestep = engine.model.horizon.toNat) :
    status = .completed ∧ final = position.state ∧ log = .empty := by
  have nothing {outcome : StepOutcome} :
      ¬ engine.Does environment checkpoint position outcome := fun does =>
    Nat.ne_of_lt does.begins.within at_horizon
  cases executes with
  | completed _ => exact ⟨rfl, rfl, rfl⟩
  | halted does _ => exact (nothing does).elim
  | advanced does _ _ => exact (nothing does).elim

theorem Executes.timestep_le
    (executes : engine.Executes environment checkpoint position status final log) :
    position.timestep ≤ status.committed engine.model.horizon := by
  induction executes with
  | completed timestep_eq => exact Nat.le_of_eq timestep_eq
  | halted does _ =>
      change _ ≤ (UInt64.ofNat _).toNat + 1
      rw [does.begins.toNat_stamp]
      exact Nat.le_succ _
  | advanced _ _ _ ih => exact Nat.le_of_succ_le ih

/-- A timestep that begins is committed. -/
theorem Executes.timestep_lt
    (executes : engine.Executes environment checkpoint position status final log)
    (within : position.timestep < engine.model.horizon.toNat) :
    position.timestep < status.committed engine.model.horizon := by
  cases executes with
  | completed timestep_eq => omega
  | halted does _ =>
      change _ < (UInt64.ofNat _).toNat + 1
      rw [does.begins.toNat_stamp]
      exact Nat.lt_succ_self _
  | advanced _ _ executes_after => exact executes_after.timestep_le

theorem Executes.timestep_le_passed
    (executes : engine.Executes environment checkpoint position status final log) :
    position.timestep ≤ status.passed engine.model.horizon := by
  induction executes with
  | completed timestep_eq => exact Nat.le_of_eq timestep_eq
  | halted does _ => exact Nat.le_of_eq does.begins.toNat_stamp.symm
  | advanced _ _ _ ih => exact Nat.le_of_succ_le ih

/-- The timestep at which a run is halted is the one with a halted outcome. -/
theorem Executes.halted_iff {start : Position} {outcome : StepOutcome}
    (executes : engine.Executes environment checkpoint start status final log)
    (path : Relation.ReflTransGen (engine.Advances environment checkpoint) start position)
    (does : engine.Does environment checkpoint position outcome) :
    outcome.halted = true ↔ status = .halted (UInt64.ofNat position.timestep) := by
  obtain ⟨rest, executes_here⟩ := executes.of_path path
  cases executes_here with
  | completed timestep_eq =>
      have within := does.begins.within
      omega
  | halted does' halted =>
      rw [does.outcome_unique does']
      exact iff_of_true halted rfl
  | advanced does' proceeding executes_after =>
      rw [does.outcome_unique does', proceeding]
      refine iff_of_false Bool.false_ne_true ?_
      rintro rfl
      have passed := executes_after.timestep_le_passed
      change _ + 1 ≤ (UInt64.ofNat _).toNat at passed
      rw [does.begins.toNat_stamp] at passed
      omega

theorem Executes.timestep_lt_of_mem
    (executes : engine.Executes environment checkpoint position status final log)
    (unhidden : engine.Unhidden environment.scalars)
    (rests : engine.Rests position.state position.timestep) {diagnostic : Diagnostic}
    (member : diagnostic ∈ log.diagnostics) :
    diagnostic.timestep.toNat < status.committed engine.model.horizon := by
  induction executes with
  | completed _ => exact (List.not_mem_nil member).elim
  | halted does stopped =>
      rw [(does.belongsTo unhidden rests).diagnostics diagnostic member]
      exact Nat.lt_succ_self _
  | advanced does proceeding executes_after ih =>
      rcases List.mem_append.mp member with member | member
      · rw [(does.belongsTo unhidden rests).diagnostics diagnostic member,
          does.begins.toNat_stamp]
        exact executes_after.timestep_le
      · exact ih (does.rests unhidden rests) member

namespace Stage

variable {outcome : StepOutcome}

/-- A timestep before the one at which the run is halted does not halt it. -/
theorem proceeding (stage : engine.Stage environment checkpoint final log position outcome)
    (executes : engine.Executes environment checkpoint engine.start status final log)
    (before : position.timestep < status.passed engine.model.horizon) : outcome.halted = false := by
  rw [Bool.eq_false_iff, Ne, executes.halted_iff stage.path stage.does]
  rintro rfl
  change _ < (UInt64.ofNat _).toNat at before
  rw [stage.does.begins.toNat_stamp] at before
  omega

theorem mem_diagnostics_iff
    (stage : engine.Stage environment checkpoint final log position outcome)
    (diagnostic : Diagnostic) : diagnostic ∈ outcome.log.diagnostics ↔
      diagnostic ∈ log.diagnostics ∧ diagnostic.timestep.toNat = position.timestep := by
  rw [← stage.restrict_eq, Log.restrict, List.mem_filter, decide_eq_true_eq, ← UInt64.toNat_inj,
    stage.does.begins.toNat_stamp]

theorem mem_firings_iff (stage : engine.Stage environment checkpoint final log position outcome)
    (firing : PolicyFiring) : firing ∈ outcome.log.firings ↔
      firing ∈ log.firings ∧ firing.timestep.toNat = position.timestep := by
  rw [← stage.restrict_eq, Log.restrict, List.mem_filter, decide_eq_true_eq, ← UInt64.toNat_inj,
    stage.does.begins.toNat_stamp]

end Stage

end Course

end Engine

end EconModel
