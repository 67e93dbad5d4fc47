import EconModel.Aggregate
import EconModel.Engine.Run

/-!
# Batches

A batch executes one run per index and puts the completed runs together.  Runs may finish in any
order, so what they come to is collected from a list of outcomes in the order of arrival.  Runs that
were stopped from outside are left out and listed; any other failure is the failure of the batch,
and of several the one with the smallest index counts.
-/

namespace EconModel

/-- What the run of an index came to. -/
abbrev RunOutcome := UInt64 × Except EngineError RunResult

namespace RunOutcome

/-- The result of a run that completed. -/
def completed? (outcome : RunOutcome) : Option RunResult :=
  match outcome.2 with
  | .ok result => some result
  | .error _ => none

/-- The index of a run that was stopped from outside. -/
def interrupted? (outcome : RunOutcome) : Option UInt64 :=
  match outcome.2 with
  | .ok _ => none
  | .error error => if error.isInterruption then some outcome.1 else none

/-- The index and the error of a run that failed. -/
def failed? (outcome : RunOutcome) : Option (UInt64 × EngineError) :=
  match outcome.2 with
  | .ok _ => none
  | .error error => if error.isInterruption then none else some (outcome.1, error)

end RunOutcome

namespace Batch

/-- The failure with the smallest index. -/
def firstFailure? (failures : List (UInt64 × EngineError)) : Option (UInt64 × EngineError) :=
  failures.foldl
    (fun first failure =>
      match first with
      | none => some failure
      | some earlier => if failure.1 < earlier.1 then some failure else some earlier)
    none

/-- The indices of a batch from `start` on, as many as `count`. -/
def indices (start count : Nat) : List UInt64 :=
  (List.range' start count).map UInt64.ofNat

/-- Put together what the runs of a batch came to.  The first `submitted` runs have outcomes, which
are given in the order of arrival; the others were stopped before they started. -/
def collect (engine : Engine) (baseSeed runs submitted : UInt64) (outcomes : List RunOutcome) :
    Except EngineError AggregateResult :=
  match firstFailure? (outcomes.filterMap RunOutcome.failed?) with
  | some (_, error) => .error error
  | none =>
      let completed := outcomes.filterMap RunOutcome.completed?
      let cancelled := indices submitted.toNat (runs.toNat - submitted.toNat) ++
        outcomes.filterMap RunOutcome.interrupted?
      if completed.length + cancelled.length ≠ runs.toNat then .error (.execution .outcomesLost)
      else
        .ok (AggregateResult.ofRuns engine.model engine.fingerprint baseSeed runs completed
          (cancelled.mergeSort fun left right => decide (left ≤ right)))

/-- What the first runs of a batch come to, in the order of their indices. -/
def outcomes (engine : Engine) (sampler : Sampler) (baseSeed : UInt64) (submitted : UInt64)
    (checkpoint : UInt64 → Checkpoint) : List RunOutcome :=
  (indices 0 submitted.toNat).map fun index =>
    (index, engine.runSingle sampler baseSeed index (checkpoint index))

end Batch

namespace Engine

/-- A batch of which the first `submitted` runs are started. -/
def runSubmitted (engine : Engine) (runs baseSeed submitted : UInt64)
    (checkpoint : UInt64 → Checkpoint) : Except EngineError AggregateResult :=
  if runs = 0 then .error (.execution .emptyBatch)
  else do
    let sampler ← engine.sampler
    Batch.collect engine baseSeed runs submitted
      (Batch.outcomes engine sampler baseSeed submitted checkpoint)

def runBatch (engine : Engine) (runs baseSeed : UInt64) : Except EngineError AggregateResult :=
  engine.runSubmitted runs baseSeed runs fun _ => .uninterrupted

/-- A batch that is cancelled before it starts. -/
def runCancelledBatch (engine : Engine) (runs baseSeed : UInt64) :
    Except EngineError AggregateResult :=
  engine.runSubmitted runs baseSeed 0 fun _ _ => some .cancelled

/-- What the execution of a request yields. -/
inductive ExecutionOutput where
  | single (result : RunResult)
  | batch (aggregate : AggregateResult)

def execute (engine : Engine) (request : ExecutionRequest) : Except EngineError ExecutionOutput :=
  match request.mode with
  | .deterministic => do return .single (← engine.runDeterministic request.seed)
  | .batch runs => do return .batch (← engine.runBatch runs request.seed)

end Engine

end EconModel
