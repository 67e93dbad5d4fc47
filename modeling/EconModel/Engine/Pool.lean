import EconModel.Engine.Batch

/-!
# The worker pool of a batch

The runs of a batch are executed by a pool of workers.  Their indices are submitted in order through
a bounded queue; a worker takes an index out of it, executes the run and sends the outcome to the
collector.  Who does something next is left open, so a pool is described by a step relation.  The
batch may be cancelled at any moment, and then no further run is submitted.
-/

namespace EconModel

/-- The sizes of a pool, as they are asked for. -/
structure PoolConfig where
  workers : UInt64
  /-- The number of indices that can wait in the queue. -/
  queueCapacity : UInt64

namespace PoolConfig

/-- There is at least one worker. -/
def workerCount (config : PoolConfig) : Nat := max config.workers.toNat 1

/-- There is room for at least one index in the queue. -/
def queueLimit (config : PoolConfig) : Nat := max config.queueCapacity.toNat 1

end PoolConfig

/-- How far the runs of a batch are submitted. -/
inductive Submission where
  /-- Whether the batch is cancelled is looked at before the next run is submitted. -/
  | checking (remaining : List UInt64)
  /-- A run is submitted as soon as there is room in the queue. -/
  | sending (index : UInt64) (remaining : List UInt64)
  /-- No run is submitted any more. -/
  | closed (unsubmitted : List UInt64)

/-- The runs that are not submitted yet. -/
def Submission.pending : Submission → List UInt64
  | .checking remaining => remaining
  | .sending index remaining => index :: remaining
  | .closed unsubmitted => unsubmitted

/-- A pool at work. -/
structure Pool where
  cancelled : Bool
  submission : Submission
  /-- The runs that wait for a worker. -/
  queue : List UInt64
  running : List UInt64
  /-- The outcomes that were sent to the collector, in the order of arrival. -/
  arrived : List RunOutcome

namespace Pool

/-- The pool before anything is submitted. -/
def start (runs : UInt64) (cancelled : Bool) : Pool where
  cancelled := cancelled
  submission := .checking (Batch.indices 0 runs.toNat)
  queue := []
  running := []
  arrived := []

/-- What a pool may do next, where `outcome` is what the runs come to. -/
inductive Step (config : PoolConfig) (outcome : UInt64 → Except EngineError RunResult) :
    Pool → Pool → Prop where
  | cancel {submission queue running arrived} :
      Step config outcome ⟨false, submission, queue, running, arrived⟩
        ⟨true, submission, queue, running, arrived⟩
  /-- The next run is going to be submitted. -/
  | proceed {index remaining queue running arrived} :
      Step config outcome ⟨false, .checking (index :: remaining), queue, running, arrived⟩
        ⟨false, .sending index remaining, queue, running, arrived⟩
  /-- The remaining runs are not submitted any more. -/
  | stop {index remaining queue running arrived} :
      Step config outcome ⟨true, .checking (index :: remaining), queue, running, arrived⟩
        ⟨true, .closed (index :: remaining), queue, running, arrived⟩
  /-- All runs are submitted. -/
  | exhaust {cancelled queue running arrived} :
      Step config outcome ⟨cancelled, .checking [], queue, running, arrived⟩
        ⟨cancelled, .closed [], queue, running, arrived⟩
  /-- A run enters the queue. -/
  | send {cancelled index remaining queue running arrived} : queue.length < config.queueLimit →
      Step config outcome ⟨cancelled, .sending index remaining, queue, running, arrived⟩
        ⟨cancelled, .checking remaining, queue ++ [index], running, arrived⟩
  /-- An idle worker takes a run out of the queue. -/
  | take {cancelled submission index queue running arrived} :
      running.length < config.workerCount →
      Step config outcome ⟨cancelled, submission, index :: queue, running, arrived⟩
        ⟨cancelled, submission, queue, running ++ [index], arrived⟩
  /-- A worker sends the outcome of its run. -/
  | deliver {cancelled submission queue before index after arrived} :
      Step config outcome ⟨cancelled, submission, queue, before ++ index :: after, arrived⟩
        ⟨cancelled, submission, queue, before ++ after, arrived ++ [(index, outcome index)]⟩

/-- All workers are idle, and nothing will be submitted. -/
structure IsFinished (pool : Pool) : Prop where
  closed : ∃ unsubmitted, pool.submission = .closed unsubmitted
  queue_eq : pool.queue = []
  running_eq : pool.running = []

/-- The number of runs of a batch that have been submitted. -/
def submitted (pool : Pool) (runs : UInt64) : UInt64 :=
  UInt64.ofNat (runs.toNat - pool.submission.pending.length)

end Pool

/-- What a batch returns when its first `submitted` runs were started and their outcomes arrived in
the given order. -/
def Engine.gather (engine : Engine) (runs baseSeed submitted : UInt64)
    (arrived : List RunOutcome) : Except EngineError AggregateResult :=
  if runs = 0 then .error (.execution .emptyBatch)
  else do
    let _ ← engine.sampler
    Batch.collect engine baseSeed runs submitted arrived

end EconModel
