import EconModel.Proofs.Engine.Progress

/-!
# What the settled state satisfies

When the equations of a timestep have been resolved, every resolved equation holds as an equation
between values: evaluated afresh, its expression has the value of its slot.  The slots of the
others are undefined.  The number of passes has no part in this.
-/

namespace EconModel

namespace Engine

variable {engine : Engine}

theorem Reaches.rests {environment : Environment} {checkpoint : Checkpoint} {position : Position}
    (reaches : engine.Reaches environment checkpoint position)
    (unhidden : engine.Unhidden environment.scalars) :
    engine.Rests position.state position.timestep :=
  rests_of_path unhidden reaches.path

theorem settledAt_of_solveAt {environment : Environment} {timestep : Nat}
    {before settled : SimulationState} {diagnostics : List Diagnostic}
    (solved : engine.solveAt environment timestep before = .ok (settled, diagnostics)) :
    settled = engine.settledAt environment timestep before :=
  (solveAt_eq_ok_iff.mp solved).2.1.symm

/-- The attempts at the equations of a position, with their results. -/
def attemptsAt (engine : Engine) (environment : Environment) (position : Position) :
    List (Equation × Except EvalError Unit) :=
  Solver.calls (equationStep environment position.timestep) (engine.limitAt position.timestep)
    (engine.pendingAt position.timestep) (engine.openedAt position, [])

/-- The scalars satisfy their equations.  At every position that a run reaches, the state that the
resolution leaves satisfies the equations that were resolved, and the variables of the others have
no value. -/
theorem settled_satisfies {parameters scalars : Bindings Value} {marks : List Diagnostic}
    (solved : engine.solveScalars parameters = .ok (scalars, marks)) :
    (∀ equation ∈ engine.model.equationsOf .scalar, ∃ value,
      scalars.get? equation.target = some value ∧
        ((engine.scalarView parameters scalars).evalFinite equation.expr).result = .ok value) ∧
    ∀ checkpoint position,
      engine.Reaches (engine.environment parameters scalars) checkpoint position →
        let context := engine.settledContext (engine.environment parameters scalars) position
        (∀ settled diagnostics,
          engine.solveAt (engine.environment parameters scalars) position.timestep
              (engine.openedAt position) = .ok (settled, diagnostics) →
            settled = context.state) ∧
        ∀ equation ∈ engine.pendingAt position.timestep,
          ((equation, .ok ()) ∈
              engine.attemptsAt (engine.environment parameters scalars) position →
            ∃ value, context.state.current? equation.target = some value ∧
              (context.evalFinite equation.expr).result = .ok value) ∧
          ((equation, .ok ()) ∉
              engine.attemptsAt (engine.environment parameters scalars) position →
            context.state.current? equation.target = some .undefined) := by
  refine ⟨fun equation member => evalFinite_of_solveScalars solved member, ?_⟩
  intro checkpoint position reaches
  refine ⟨fun settled diagnostics found => settledAt_of_solveAt found, ?_⟩
  intro equation member
  have unhidden : engine.Unhidden (engine.environment parameters scalars).scalars :=
    unhidden_of_solveScalars solved
  have rests := reaches.rests unhidden
  obtain ⟨done, failed, ends⟩ := exists_endsAt unhidden rests
  have settled_open := openAt_settledAt ends (openAt_opened rests position.next)
  have done_iff : equation ∈ done ↔ (equation, .ok ()) ∈
      engine.attemptsAt (engine.environment parameters scalars) position :=
    ends.divides.mem_done_iff equation
  rw [settledContext, Environment.view, SimulationState.current?_of_openAt settled_open,
    ← done_iff]
  constructor
  · intro resolved
    obtain ⟨value, found, kept⟩ := ends.exists_value resolved
    exact ⟨value, kept, found⟩
  · intro fresh
    exact ends.valueAt?_of_not_mem member fresh

/-- A model in which one variable waits for another, one refers to itself where it is not looked at,
and one has no value. -/
def waitingModel : Model :=
  { Model.blank "waiting" 1 with
    equations :=
      [⟨"open", .scalar, .boolean true, []⟩, ⟨"early", .current, .ident "late", []⟩,
        ⟨"late", .current, .binary .or (.ident "open") (.ident "late"), []⟩,
        ⟨"loop", .current, .ident "loop", []⟩] }

def waitingEngine : Engine := .plain waitingModel rfl

/-- The scalars of that model. -/
def waitingScalars : Bindings Value := Bindings.empty.insert "open" (.boolean true)

theorem settled_satisfies_waiting :
    let context := waitingEngine.settledContext (waitingEngine.environment .empty waitingScalars)
      waitingEngine.start
    (∃ value, context.state.current? "early" = some value ∧
      (context.evalFinite (.ident "late")).result = .ok value) ∧
    context.state.current? "loop" = some .undefined := by
  have solved : waitingEngine.solveScalars .empty = .ok (waitingScalars, []) := rfl
  have reaches : waitingEngine.Reaches (waitingEngine.environment .empty waitingScalars)
      .uninterrupted waitingEngine.start := ⟨.refl, by decide, rfl⟩
  have attempts_eq : waitingEngine.attemptsAt (waitingEngine.environment .empty waitingScalars)
      waitingEngine.start =
      [(⟨"early", .current, .ident "late", []⟩, .error (.missingDependency "late" 0)),
        (⟨"late", .current, .binary .or (.ident "open") (.ident "late"), []⟩, .ok ()),
        (⟨"loop", .current, .ident "loop", []⟩, .error (.missingDependency "loop" 0)),
        (⟨"early", .current, .ident "late", []⟩, .ok ()),
        (⟨"loop", .current, .ident "loop", []⟩, .error (.missingDependency "loop" 0)),
        (⟨"loop", .current, .ident "loop", []⟩, .error (.missingDependency "loop" 0))] := rfl
  obtain ⟨_, settled⟩ := (settled_satisfies solved).2 .uninterrupted _ reaches
  have early := settled ⟨"early", .current, .ident "late", []⟩ (.head _)
  have loop := settled ⟨"loop", .current, .ident "loop", []⟩ (.tail _ (.tail _ (.head _)))
  refine ⟨early.1 ?_, loop.2 ?_⟩
  · rw [attempts_eq]
    simp
  · rw [attempts_eq]
    simp

end Engine

end EconModel
