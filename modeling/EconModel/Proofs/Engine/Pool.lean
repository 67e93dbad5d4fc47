import EconModel.Engine.Pool
import Mathlib.Data.List.Perm.Basic
import Mathlib.Logic.Relation

/-!
# Every schedule of a worker pool

A pool never gets stuck and never works forever, whatever its workers do first.  No index is lost or
doubled on its way from the submission through the queue and a worker to the collector, so when a
pool has finished, the outcome of every submitted run has arrived once.
-/

namespace EconModel

namespace Batch

@[simp]
theorem length_indices (start count : Nat) : (indices start count).length = count := by
  simp [indices]

theorem indices_append (start first second : Nat) :
    indices start first ++ indices (start + first) second = indices start (first + second) := by
  rw [indices, indices, indices, ← List.map_append, List.range'_append_1]

theorem take_indices (start : Nat) {bound count : Nat} (within : bound ≤ count) :
    (indices start count).take bound = indices start bound := by
  obtain ⟨rest, rfl⟩ := Nat.exists_eq_add_of_le within
  rw [← indices_append, List.take_left' (length_indices start bound)]

/-- The outcomes of the first runs of a batch have arrived, each once and in any order. -/
def Arrivals (outcome : UInt64 → Except EngineError RunResult) (submitted : UInt64)
    (arrived : List RunOutcome) : Prop :=
  arrived.Perm ((indices 0 submitted.toNat).map fun index => (index, outcome index))

end Batch

/-- A bound on the number of steps that a submission has before it. -/
def Submission.work : Submission → Nat
  | .checking remaining => 4 * remaining.length + 1
  | .sending _ remaining => 4 * remaining.length + 4
  | .closed _ => 0

namespace Pool

open Batch

/-- A bound on the number of steps that a pool has before it. -/
def work (pool : Pool) : Nat :=
  (if pool.cancelled then 0 else 1) + pool.submission.work + 2 * pool.queue.length +
    pool.running.length

variable {config : PoolConfig} {outcome : UInt64 → Except EngineError RunResult} {pool next : Pool}
  {runs : UInt64}

/-! ## Progress -/

/-- A pool that has not finished can do something. -/
theorem finished_or_step (config : PoolConfig) (outcome : UInt64 → Except EngineError RunResult)
    (pool : Pool) : pool.IsFinished ∨ ∃ next, Step config outcome pool next := by
  have workers : 0 < config.workerCount := Nat.lt_of_lt_of_le Nat.one_pos (Nat.le_max_right _ _)
  have room : 0 < config.queueLimit := Nat.lt_of_lt_of_le Nat.one_pos (Nat.le_max_right _ _)
  obtain ⟨cancelled, submission, queue, running, arrived⟩ := pool
  cases running with
  | cons index running =>
      have delivered : Step config outcome
          ⟨cancelled, submission, queue, [] ++ index :: running, arrived⟩ _ := .deliver
      exact .inr ⟨_, delivered⟩
  | nil =>
      cases queue with
      | cons index queue => exact .inr ⟨_, .take workers⟩
      | nil =>
          cases submission with
          | closed unsubmitted => exact .inl ⟨⟨unsubmitted, rfl⟩, rfl, rfl⟩
          | sending index remaining => exact .inr ⟨_, .send room⟩
          | checking remaining =>
              cases remaining with
              | nil => exact .inr ⟨_, .exhaust⟩
              | cons index remaining =>
                  cases cancelled with
                  | true => exact .inr ⟨_, .stop⟩
                  | false => exact .inr ⟨_, .proceed⟩

/-- Every step leaves less to do. -/
theorem work_lt (step : Step config outcome pool next) : next.work < pool.work := by
  cases step <;> simp [work, Submission.work] <;> omega

/-- No pool works forever. -/
theorem wellFounded_step (config : PoolConfig) (outcome : UInt64 → Except EngineError RunResult) :
    WellFounded fun next pool => Step config outcome pool next :=
  Subrelation.wf work_lt (measure work).wf

/-! ## Indices on their way -/

/-- Every index of a batch is in one place, and what has arrived is what the runs come to. -/
structure Sound (outcome : UInt64 → Except EngineError RunResult) (runs : UInt64) (pool : Pool) :
    Prop where
  pending_suffix : pool.submission.pending <:+ indices 0 runs.toNat
  perm : (pool.queue ++ pool.running ++ pool.arrived.map Prod.fst ++
    pool.submission.pending).Perm (indices 0 runs.toNat)
  arrived_eq : pool.arrived = (pool.arrived.map Prod.fst).map fun index => (index, outcome index)

theorem sound_start (outcome : UInt64 → Except EngineError RunResult) (runs : UInt64)
    (cancelled : Bool) : (start runs cancelled).Sound outcome runs where
  pending_suffix := List.suffix_refl _
  perm := .refl _
  arrived_eq := rfl

theorem Sound.step (sound : pool.Sound outcome runs) (step : Step config outcome pool next) :
    next.Sound outcome runs := by
  obtain ⟨pending_suffix, perm, arrived_eq⟩ := sound
  cases step with
  | cancel | proceed | stop | exhaust => exact ⟨pending_suffix, perm, arrived_eq⟩
  | @send _ index remaining queue running arrived _ =>
      refine ⟨(List.suffix_cons index remaining).trans pending_suffix, ?_, arrived_eq⟩
      refine .trans ?_ perm
      simp only [Submission.pending, List.append_assoc, List.singleton_append]
      refine List.Perm.append_left queue ?_
      rw [← List.append_assoc, ← List.append_assoc]
      exact List.perm_middle.symm
  | @take _ submission index queue running arrived _ =>
      refine ⟨pending_suffix, .trans ?_ perm, arrived_eq⟩
      simp only [List.append_assoc, List.cons_append, List.nil_append]
      rw [← List.append_assoc]
      exact List.perm_middle.trans (by rw [List.append_assoc])
  | @deliver _ submission queue before index after arrived =>
      refine ⟨pending_suffix, .trans ?_ perm, ?_⟩
      · simp only [List.map_append, List.map_cons, List.map_nil, List.append_assoc,
          List.cons_append, List.nil_append]
        refine List.Perm.append_left queue (List.Perm.append_left before ?_)
        rw [← List.append_assoc]
        exact List.perm_middle.trans (by rw [List.append_assoc])
      · rw [List.map_append, List.map_append, ← arrived_eq]
        rfl

theorem Sound.steps (sound : pool.Sound outcome runs)
    (steps : Relation.ReflTransGen (Step config outcome) pool next) : next.Sound outcome runs := by
  induction steps with
  | refl => exact sound
  | tail _ step ih => exact ih.step step

/-- When a pool has finished, the outcome of every submitted run has arrived once. -/
theorem Sound.arrivals (sound : pool.Sound outcome runs) (finished : pool.IsFinished) :
    pool.submitted runs ≤ runs ∧ Arrivals outcome (pool.submitted runs) pool.arrived := by
  obtain ⟨⟨front, split⟩, perm, arrived_eq⟩ := sound
  obtain ⟨_, queue_eq, running_eq⟩ := finished
  have length_eq := congrArg List.length split
  rw [List.length_append, length_indices] at length_eq
  have submitted_eq : (pool.submitted runs).toNat = front.length := by
    have bound := runs.toNat_lt
    rw [submitted, UInt64.toNat_ofNat_of_lt' (by change _ < 2 ^ 64; omega)]
    omega
  have front_eq : front = indices 0 (pool.submitted runs).toNat := by
    have taken := congrArg (List.take front.length) split
    rw [List.take_left, take_indices 0 (by omega)] at taken
    rw [submitted_eq]
    exact taken
  rw [queue_eq, running_eq, ← split, List.nil_append, List.nil_append,
    List.perm_append_right_iff] at perm
  refine ⟨?_, ?_⟩
  · rw [UInt64.le_iff_toNat_le]
    omega
  · rw [Arrivals, ← front_eq, arrived_eq]
    exact perm.map _

/-! ## A batch that is cancelled before it starts -/

/-- Nothing was submitted, and nothing will be. -/
structure Untouched (runs : UInt64) (pool : Pool) : Prop where
  cancelled_eq : pool.cancelled = true
  pending_eq : pool.submission.pending = indices 0 runs.toNat
  not_sending : ∀ index remaining, pool.submission ≠ .sending index remaining

theorem Untouched.step (untouched : pool.Untouched runs) (step : Step config outcome pool next) :
    next.Untouched runs := by
  obtain ⟨cancelled_eq, pending_eq, not_sending⟩ := untouched
  cases step with
  | cancel | proceed => cases cancelled_eq
  | stop | exhaust => exact ⟨cancelled_eq, pending_eq, nofun⟩
  | send _ => exact (not_sending _ _ rfl).elim
  | take _ | deliver => exact ⟨cancelled_eq, pending_eq, not_sending⟩

theorem Untouched.steps (untouched : pool.Untouched runs)
    (steps : Relation.ReflTransGen (Step config outcome) pool next) : next.Untouched runs := by
  induction steps with
  | refl => exact untouched
  | tail _ step ih => exact ih.step step

theorem untouched_start (runs : UInt64) : (start runs true).Untouched runs := ⟨rfl, rfl, nofun⟩

theorem Untouched.submitted_eq (untouched : pool.Untouched runs) : pool.submitted runs = 0 := by
  rw [submitted, untouched.pending_eq, length_indices, Nat.sub_self]
  rfl

end Pool

end EconModel
