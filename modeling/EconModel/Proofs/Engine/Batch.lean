import EconModel.Proofs.Aggregate
import EconModel.Proofs.Engine.Failure
import EconModel.Proofs.Engine.Pool
import Mathlib.Data.List.Induction

/-!
# Batches and schedules

The outcomes of the runs of a batch reach the collector in any order.  What the collector makes of
them does not depend on the order: the failure with the smallest index, or else the completed runs
and the cancelled indices, both ascending.  So a batch returns the same under every schedule of its
pool, and the same as if its runs were executed one after the other.
-/

namespace EconModel

/-- Whether a run was stopped from outside. -/
def isInterrupted : Except EngineError RunResult → Bool
  | .ok _ => false
  | .error error => error.isInterruption

namespace Batch

variable {outcome : UInt64 → Except EngineError RunResult} {submitted runs : UInt64}
  {arrived : List RunOutcome}

/-! ## Indices -/

theorem mem_indices_iff {start count : Nat} (bounded : start + count ≤ UInt64.size) (index : UInt64) :
    index ∈ indices start count ↔ start ≤ index.toNat ∧ index.toNat < start + count := by
  rw [indices, List.mem_map]
  constructor
  · rintro ⟨number, member, rfl⟩
    have within := List.mem_range'_1.mp member
    rw [UInt64.toNat_ofNat_of_lt' (by omega)]
    exact within
  · intro within
    exact ⟨index.toNat, List.mem_range'_1.mpr within, UInt64.ofNat_toNat⟩

theorem pairwise_indices {start count : Nat} (bounded : start + count ≤ UInt64.size) :
    (indices start count).Pairwise (· < ·) := by
  rw [indices, List.pairwise_map]
  refine List.Pairwise.imp_of_mem ?_ List.pairwise_lt_range'
  intro left right left_mem right_mem before
  have left_within := List.mem_range'_1.mp left_mem
  have right_within := List.mem_range'_1.mp right_mem
  rw [UInt64.lt_iff_toNat_lt, UInt64.toNat_ofNat_of_lt' (by omega),
    UInt64.toNat_ofNat_of_lt' (by omega)]
  exact before

theorem pairwise_indices_toNat (count : UInt64) :
    (indices 0 count.toNat).Pairwise (· < ·) := by
  apply pairwise_indices
  have := count.toNat_lt_size
  omega

theorem mem_indices_toNat_iff (count index : UInt64) :
    index ∈ indices 0 count.toNat ↔ index < count := by
  rw [mem_indices_iff (by have := count.toNat_lt_size; omega), UInt64.lt_iff_toNat_lt]
  omega

/-! ## What becomes of a run -/

/-- A run was started and failed by itself. -/
def FailsAt (outcome : UInt64 → Except EngineError RunResult) (submitted index : UInt64)
    (error : EngineError) : Prop :=
  index < submitted ∧ outcome index = .error error ∧ error.isInterruption = false

/-- A run was not started or was stopped from outside. -/
def CancelledAt (outcome : UInt64 → Except EngineError RunResult) (submitted index : UInt64) :
    Prop :=
  submitted ≤ index ∨ isInterrupted (outcome index) = true

def completedIndices (outcome : UInt64 → Except EngineError RunResult) (submitted : UInt64) :
    List UInt64 :=
  (indices 0 submitted.toNat).filter fun index => (outcome index).isOk

def completedRuns (outcome : UInt64 → Except EngineError RunResult) (submitted : UInt64) :
    List RunResult :=
  (indices 0 submitted.toNat).filterMap fun index => (outcome index).toOption

/-- The indices of the runs that were not started or were stopped from outside. -/
def cancelledIndices (outcome : UInt64 → Except EngineError RunResult) (submitted runs : UInt64) :
    List UInt64 :=
  ((indices 0 submitted.toNat).filter fun index => isInterrupted (outcome index)) ++
    indices submitted.toNat (runs.toNat - submitted.toNat)

theorem mem_completedIndices_iff (index : UInt64) :
    index ∈ completedIndices outcome submitted ↔
      index < submitted ∧ ∃ result, outcome index = .ok result := by
  rw [completedIndices, List.mem_filter, mem_indices_toNat_iff]
  cases outcome index <;> simp [Except.isOk, Except.toBool]

theorem mem_cancelledIndices_iff (within : submitted ≤ runs) (index : UInt64) :
    index ∈ cancelledIndices outcome submitted runs ↔
      index < runs ∧ CancelledAt outcome submitted index := by
  have within' := UInt64.le_iff_toNat_le.mp within
  have bound := runs.toNat_lt_size
  rw [cancelledIndices, List.mem_append, List.mem_filter, mem_indices_toNat_iff,
    mem_indices_iff (by omega), CancelledAt]
  simp only [UInt64.lt_iff_toNat_lt, UInt64.le_iff_toNat_le]
  constructor
  · rintro (⟨started, stopped⟩ | ⟨unstarted, below⟩)
    · exact ⟨by omega, .inr stopped⟩
    · exact ⟨by omega, .inl unstarted⟩
  · rintro ⟨below, cancelled⟩
    by_cases started : index.toNat < submitted.toNat
    · exact .inl ⟨started, cancelled.resolve_left (by omega)⟩
    · exact .inr ⟨by omega, by omega⟩

theorem pairwise_completedIndices (outcome : UInt64 → Except EngineError RunResult)
    (submitted : UInt64) : (completedIndices outcome submitted).Pairwise (· < ·) :=
  (pairwise_indices_toNat submitted).filter _

theorem pairwise_cancelledIndices (outcome : UInt64 → Except EngineError RunResult)
    (within : submitted ≤ runs) :
    (cancelledIndices outcome submitted runs).Pairwise (· < ·) := by
  have within' := UInt64.le_iff_toNat_le.mp within
  have bound := runs.toNat_lt_size
  refine List.pairwise_append.mpr ⟨(pairwise_indices_toNat submitted).filter _,
    pairwise_indices (by omega), ?_⟩
  intro started started_mem unstarted unstarted_mem
  have below := (mem_indices_toNat_iff _ _).mp (List.mem_filter.mp started_mem).1
  have above := ((mem_indices_iff (by omega) _).mp unstarted_mem).1
  rw [UInt64.lt_iff_toNat_lt] at below ⊢
  omega

/-- If no run fails, every run is either completed or cancelled. -/
theorem completed_append_cancelled (within : submitted ≤ runs)
    (succeeds : ∀ index error, ¬ FailsAt outcome submitted index error) :
    (completedIndices outcome submitted ++ cancelledIndices outcome submitted runs).Perm
      (indices 0 runs.toNat) := by
  have divided : ∀ index ∈ indices 0 submitted.toNat,
      isInterrupted (outcome index) = !(outcome index).isOk := by
    intro index member
    have started := (mem_indices_toNat_iff _ _).mp member
    cases came_to : outcome index with
    | ok result => rfl
    | error failure =>
        have not_fails := succeeds index failure
        simp only [FailsAt, started, came_to, true_and, Bool.not_eq_false] at not_fails
        exact not_fails
  have split := indices_append 0 submitted.toNat (runs.toNat - submitted.toNat)
  rw [Nat.zero_add, Nat.add_sub_cancel' (UInt64.le_iff_toNat_le.mp within)] at split
  rw [completedIndices, cancelledIndices, ← List.append_assoc, List.filter_congr divided, ← split]
  exact (List.filter_append_perm _ _).append_right _

theorem forall₂_completed (outcome : UInt64 → Except EngineError RunResult)
    (submitted : UInt64) :
    List.Forall₂ (fun index result => index < submitted ∧ outcome index = .ok result)
      (completedIndices outcome submitted) (completedRuns outcome submitted) := by
  have started : ∀ index ∈ indices 0 submitted.toNat, index < submitted := fun index =>
    (mem_indices_toNat_iff submitted index).mp
  rw [completedIndices, completedRuns]
  revert started
  induction indices 0 submitted.toNat with
  | nil => exact fun _ => .nil
  | cons index rest ih =>
      intro started
      have below := started index List.mem_cons_self
      have ih := ih fun other member => started other (List.mem_cons_of_mem index member)
      cases came_to : outcome index with
      | ok result => simpa [came_to, below, Except.isOk, Except.toBool, Except.toOption] using ih
      | error failure => simpa [came_to, Except.isOk, Except.toBool, Except.toOption] using ih

/-- Completed runs have the indices that they were started with. -/
def IsIndexed (outcome : UInt64 → Except EngineError RunResult) (submitted : UInt64) : Prop :=
  ∀ index result, index < submitted → outcome index = .ok result →
    result.metadata.index = some index

theorem IsIndexed.map_completedRuns (indexed : IsIndexed outcome submitted) :
    (completedRuns outcome submitted).map (fun run => run.metadata.index) =
      (completedIndices outcome submitted).map some := by
  rw [← List.forall₂_eq_eq_eq, List.forall₂_map_left_iff, List.forall₂_map_right_iff]
  refine (forall₂_completed outcome submitted).flip.imp fun result index => ?_
  exact fun ⟨below, came_to⟩ => indexed index result below came_to

/-- In whatever order completed runs are handed in, their indices order them. -/
theorem IsIndexed.ordered_eq (indexed : IsIndexed outcome submitted) {handed : List RunResult}
    (perm : handed.Perm (completedRuns outcome submitted)) :
    AggregateResult.ordered handed = completedRuns outcome submitted := by
  have ascending := pairwise_completedIndices outcome submitted
  apply AggregateResult.ordered_eq_of_perm perm
  · rw [indexed.map_completedRuns]
    refine List.Nodup.map (fun _ _ => Option.some.inj) (ascending.imp ?_)
    exact fun before => UInt64.ne_of_lt before
  · rw [← List.pairwise_map (f := fun run : RunResult => run.metadata.index)
      (R := fun left right => AggregateResult.indexLE left right = true),
      indexed.map_completedRuns, List.pairwise_map]
    exact ascending.imp fun before => decide_eq_true (UInt64.le_of_lt before)

/-! ## The failure with the smallest index -/

theorem firstFailure?_concat (failures : List (UInt64 × EngineError))
    (last : UInt64 × EngineError) :
    firstFailure? (failures ++ [last]) =
      match firstFailure? failures with
      | none => some last
      | some earlier => if last.1 < earlier.1 then some last else some earlier := by
  rw [firstFailure?, List.foldl_append]
  rfl

/-- A failure is a first one of several, or there is none. -/
def IsFirst (failures : List (UInt64 × EngineError)) : Option (UInt64 × EngineError) → Prop
  | none => failures = []
  | some first => first ∈ failures ∧ ∀ other ∈ failures, first.1 ≤ other.1

theorem isFirst_firstFailure? (failures : List (UInt64 × EngineError)) :
    IsFirst failures (firstFailure? failures) := by
  induction failures using List.reverseRecOn with
  | nil => rfl
  | append_singleton failures last ih =>
      rw [firstFailure?_concat]
      cases found : firstFailure? failures with
      | none =>
          rw [found] at ih
          obtain rfl : failures = [] := ih
          exact ⟨List.mem_singleton_self last, by simp⟩
      | some earlier =>
          rw [found] at ih
          obtain ⟨member, least⟩ := ih
          dsimp only
          split
          · next before =>
            refine ⟨List.mem_append_right _ (List.mem_singleton_self last), ?_⟩
            simp only [List.forall_mem_append, List.forall_mem_singleton]
            refine ⟨fun other other_mem => ?_, UInt64.le_refl _⟩
            exact UInt64.le_trans (UInt64.le_of_lt before) (least other other_mem)
          · next not_before =>
            refine ⟨List.mem_append_left _ member, ?_⟩
            simp only [List.forall_mem_append, List.forall_mem_singleton]
            exact ⟨least, UInt64.not_lt.mp not_before⟩

/-! ## Collecting -/

section Arrived

variable (arrivals : Arrivals outcome submitted arrived)

include arrivals

theorem mem_failures_iff (index : UInt64) (error : EngineError) :
    (index, error) ∈ arrived.filterMap RunOutcome.failed? ↔
      FailsAt outcome submitted index error := by
  rw [(arrivals.filterMap RunOutcome.failed?).mem_iff, List.filterMap_map, List.mem_filterMap]
  simp only [mem_indices_toNat_iff, FailsAt]
  constructor
  · rintro ⟨other, within, failed⟩
    cases came_to : outcome other with
    | ok result => simp [RunOutcome.failed?, came_to] at failed
    | error failure =>
        simp only [Function.comp_def, RunOutcome.failed?, came_to] at failed
        split at failed
        · cases failed
        · next not_interrupted =>
          cases failed
          exact ⟨within, came_to, Bool.eq_false_iff.mpr not_interrupted⟩
  · rintro ⟨within, came_to, not_interrupted⟩
    refine ⟨index, within, ?_⟩
    simp [RunOutcome.failed?, came_to, not_interrupted]

/-- Either the collector finds the failure with the smallest index, or no run fails. -/
theorem firstFailure?_arrived :
    (∃ index error,
      firstFailure? (arrived.filterMap RunOutcome.failed?) = some (index, error) ∧
        FailsAt outcome submitted index error ∧
        ∀ other failure, FailsAt outcome submitted other failure → index ≤ other) ∨
    (firstFailure? (arrived.filterMap RunOutcome.failed?) = none ∧
      ∀ index error, ¬ FailsAt outcome submitted index error) := by
  have first := isFirst_firstFailure? (arrived.filterMap RunOutcome.failed?)
  cases found : firstFailure? (arrived.filterMap RunOutcome.failed?) with
  | none =>
      rw [found] at first
      refine .inr ⟨rfl, fun index error fails => ?_⟩
      have member := (mem_failures_iff arrivals index error).mpr fails
      rw [first] at member
      cases member
  | some failure =>
      obtain ⟨index, error⟩ := failure
      rw [found] at first
      obtain ⟨member, least⟩ := first
      refine .inl ⟨index, error, rfl, (mem_failures_iff arrivals index error).mp member, ?_⟩
      intro other reason fails
      exact least _ ((mem_failures_iff arrivals other reason).mpr fails)

/-- The failure with the smallest index is returned. -/
theorem collect_of_failsAt (engine : Engine) (baseSeed : UInt64) {index : UInt64}
    {error : EngineError} (fails : FailsAt outcome submitted index error)
    (least : ∀ other failure, FailsAt outcome submitted other failure → index ≤ other) :
    collect engine baseSeed runs submitted arrived = .error error := by
  rcases firstFailure?_arrived arrivals with ⟨found, reason, found_eq, fails', least'⟩ |
    ⟨_, succeeds⟩
  · obtain rfl : index = found :=
      UInt64.le_antisymm (least _ _ fails') (least' _ _ fails)
    obtain rfl : error = reason := Except.error.inj (fails.2.1.symm.trans fails'.2.1)
    rw [collect, found_eq]
  · exact (succeeds _ _ fails).elim

theorem completed_perm :
    (arrived.filterMap RunOutcome.completed?).Perm (completedRuns outcome submitted) := by
  refine (arrivals.filterMap RunOutcome.completed?).trans (.of_eq ?_)
  rw [List.filterMap_map, completedRuns]
  refine List.filterMap_congr fun index _ => ?_
  cases came_to : outcome index <;>
    simp [RunOutcome.completed?, came_to, Except.toOption]

theorem interrupted_perm :
    (arrived.filterMap RunOutcome.interrupted?).Perm
      ((indices 0 submitted.toNat).filter fun index => isInterrupted (outcome index)) := by
  refine (arrivals.filterMap RunOutcome.interrupted?).trans (.of_eq ?_)
  rw [List.filterMap_map, ← List.filterMap_eq_filter]
  refine List.filterMap_congr fun index _ => ?_
  cases came_to : outcome index <;>
    simp [RunOutcome.interrupted?, isInterrupted, came_to, Option.guard]

/-- The cancelled indices are sorted, so the order of arrival does not matter. -/
theorem sorted_cancelled (within : submitted ≤ runs) :
    ((indices submitted.toNat (runs.toNat - submitted.toNat) ++
        arrived.filterMap RunOutcome.interrupted?).mergeSort
      fun left right => decide (left ≤ right)) = cancelledIndices outcome submitted runs := by
  have perm := ((interrupted_perm arrivals).append_left
    (indices submitted.toNat (runs.toNat - submitted.toNat))).trans List.perm_append_comm
  refine ((List.mergeSort_perm _ _).trans perm).eq_of_pairwise ?_
    (List.pairwise_mergeSort ?_ ?_ _) ((pairwise_cancelledIndices outcome within).imp ?_)
  · intro left right _ _ forth back
    exact UInt64.le_antisymm (of_decide_eq_true forth) (of_decide_eq_true back)
  · intro first second third left right
    exact decide_eq_true (UInt64.le_trans (of_decide_eq_true left) (of_decide_eq_true right))
  · intro left right
    simpa using UInt64.le_total left right
  · exact fun before => decide_eq_true (UInt64.le_of_lt before)

/-- If no run fails, the completed runs and the cancelled indices are put together. -/
theorem collect_of_succeeds (engine : Engine) (baseSeed : UInt64) (within : submitted ≤ runs)
    (indexed : IsIndexed outcome submitted)
    (succeeds : ∀ index error, ¬ FailsAt outcome submitted index error) :
    collect engine baseSeed runs submitted arrived =
      .ok (AggregateResult.ofRuns engine.model engine.fingerprint baseSeed runs
        (completedRuns outcome submitted) (cancelledIndices outcome submitted runs)) := by
  have none_failed : firstFailure? (arrived.filterMap RunOutcome.failed?) = none := by
    rcases firstFailure?_arrived arrivals with ⟨index, error, _, fails, _⟩ | ⟨found_eq, _⟩
    · exact (succeeds index error fails).elim
    · exact found_eq
  have same_runs : AggregateResult.ordered (arrived.filterMap RunOutcome.completed?) =
      AggregateResult.ordered (completedRuns outcome submitted) := by
    rw [indexed.ordered_eq (completed_perm arrivals), indexed.ordered_eq (.refl _)]
  have counted := (completed_append_cancelled within succeeds).length_eq
  rw [List.length_append, length_indices, (forall₂_completed outcome submitted).length_eq,
    ← (completed_perm arrivals).length_eq, ← sorted_cancelled arrivals within,
    List.length_mergeSort] at counted
  unfold collect
  simp only [none_failed, counted, ne_eq, not_true_eq_false, if_false,
    sorted_cancelled arrivals within]
  rw [AggregateResult.ofRuns, AggregateResult.ofRuns, same_runs]

end Arrived

/-! ## What a batch returns -/

/-- Every run of a batch failed or came to what its index makes of it, wherever it may be stopped. -/
def Assigns (engine : Engine) (sampler : Sampler) (baseSeed runs : UInt64)
    (outcome : UInt64 → Except EngineError RunResult) : Prop :=
  ∀ index, index < runs → (∃ error, outcome index = .error error) ∨
    ∃ checkpoint, outcome index = engine.runSingle sampler baseSeed index checkpoint

/-- An aggregate consists of the completed runs of a batch and of the indices of the others, both
in the order of the indices. -/
structure IsMerge (engine : Engine) (sampler : Sampler) (baseSeed runs submitted : UInt64)
    (outcome : UInt64 → Except EngineError RunResult) (completed : List UInt64)
    (aggregate : AggregateResult) : Prop where
  completed_ascending : completed.Pairwise (· < ·)
  cancelled_ascending : aggregate.cancelled.Pairwise (· < ·)
  partition : (completed ++ aggregate.cancelled).Perm (indices 0 runs.toNat)
  completed_iff : ∀ index,
    index ∈ completed ↔ index < submitted ∧ ∃ result, outcome index = .ok result
  cancelled_iff : ∀ index,
    index ∈ aggregate.cancelled ↔ index < runs ∧ CancelledAt outcome submitted index
  runs_eq : List.Forall₂
    (fun index result => result.metadata.index = some index ∧ outcome index = .ok result ∧
      engine.runSingle sampler baseSeed index .uninterrupted = .ok result)
    completed aggregate.runs

/-- What a batch returns when its first `submitted` runs were started: the failure with the smallest
index, and if there is no failure, the completed runs. -/
inductive Returns (engine : Engine) (sampler : Sampler) (baseSeed runs submitted : UInt64)
    (outcome : UInt64 → Except EngineError RunResult) : Except EngineError AggregateResult → Prop
  | failure {index : UInt64} {error : EngineError} : FailsAt outcome submitted index error →
      (∀ other failure, FailsAt outcome submitted other failure → index ≤ other) →
      Returns engine sampler baseSeed runs submitted outcome (.error error)
  | success {completed : List UInt64} {aggregate : AggregateResult} :
      (∀ index error, ¬ FailsAt outcome submitted index error) →
      IsMerge engine sampler baseSeed runs submitted outcome completed aggregate →
      Returns engine sampler baseSeed runs submitted outcome (.ok aggregate)

variable {engine : Engine} {sampler : Sampler} {baseSeed : UInt64}

theorem Assigns.of_ok (assigns : Assigns engine sampler baseSeed runs outcome) {index : UInt64}
    {result : RunResult} (below : index < runs) (came_to : outcome index = .ok result) :
    result.metadata.index = some index ∧
      engine.runSingle sampler baseSeed index .uninterrupted = .ok result := by
  rcases assigns index below with ⟨error, failed⟩ | ⟨checkpoint, ran⟩
  · rw [failed] at came_to
    cases came_to
  · exact Engine.runSingle_of_ok (ran.symm.trans came_to)

theorem Assigns.isIndexed (assigns : Assigns engine sampler baseSeed runs outcome)
    (within : submitted ≤ runs) : IsIndexed outcome submitted := by
  intro index result below came_to
  exact (assigns.of_ok (UInt64.lt_of_lt_of_le below within) came_to).1

theorem gather_eq_collect (prepared : engine.sampler = .ok sampler) (asked : 0 < runs)
    (baseSeed submitted : UInt64) (arrived : List RunOutcome) :
    engine.gather runs baseSeed submitted arrived =
      collect engine baseSeed runs submitted arrived := by
  have runs_ne : runs ≠ 0 := (UInt64.ne_of_lt asked).symm
  rw [Engine.gather, if_neg runs_ne, prepared]
  rfl

/-- The aggregate of a batch in which no run fails. -/
theorem isMerge_ofRuns (assigns : Assigns engine sampler baseSeed runs outcome)
    (within : submitted ≤ runs)
    (succeeds : ∀ index error, ¬ FailsAt outcome submitted index error) :
    IsMerge engine sampler baseSeed runs submitted outcome (completedIndices outcome submitted)
      (AggregateResult.ofRuns engine.model engine.fingerprint baseSeed runs
        (completedRuns outcome submitted) (cancelledIndices outcome submitted runs)) where
  completed_ascending := pairwise_completedIndices outcome submitted
  cancelled_ascending := pairwise_cancelledIndices outcome within
  partition := completed_append_cancelled within succeeds
  completed_iff := mem_completedIndices_iff
  cancelled_iff := mem_cancelledIndices_iff within
  runs_eq := by
    change List.Forall₂ _ _ (AggregateResult.ordered (completedRuns outcome submitted))
    rw [(assigns.isIndexed within).ordered_eq (.refl _)]
    refine (forall₂_completed outcome submitted).imp fun index result ⟨below, came_to⟩ => ?_
    have single := assigns.of_ok (UInt64.lt_of_lt_of_le below within) came_to
    exact ⟨single.1, came_to, single.2⟩

/-- What a batch returns does not depend on the order of arrival. -/
theorem exists_returns (prepared : engine.sampler = .ok sampler) (asked : 0 < runs)
    (assigns : Assigns engine sampler baseSeed runs outcome) (within : submitted ≤ runs) :
    ∃ answer, Returns engine sampler baseSeed runs submitted outcome answer ∧
      ∀ arrived, Arrivals outcome submitted arrived →
        engine.gather runs baseSeed submitted arrived = answer := by
  have in_order : Arrivals outcome submitted
    ((indices 0 submitted.toNat).map fun index => (index, outcome index)) := .refl _
  rcases firstFailure?_arrived in_order with ⟨index, error, _, fails, least⟩ | ⟨_, succeeds⟩
  · refine ⟨.error error, .failure fails least, fun arrived arrivals => ?_⟩
    rw [gather_eq_collect prepared asked]
    exact collect_of_failsAt arrivals engine baseSeed fails least
  · refine ⟨_, .success succeeds (isMerge_ofRuns assigns within succeeds),
      fun arrived arrivals => ?_⟩
    rw [gather_eq_collect prepared asked]
    exact collect_of_succeeds arrivals engine baseSeed within (assigns.isIndexed within) succeeds

/-! ## Batches without failures and cancellations -/

def Completes (outcome : UInt64 → Except EngineError RunResult) (runs : UInt64) : Prop :=
  ∀ index, index < runs → ∃ result, outcome index = .ok result

theorem Completes.not_failsAt (completes : Completes outcome runs) (index : UInt64)
    (error : EngineError) : ¬ FailsAt outcome runs index error := by
  rintro ⟨below, failed, _⟩
  obtain ⟨result, came_to⟩ := completes index below
  rw [failed] at came_to
  cases came_to

theorem Completes.not_cancelledAt (completes : Completes outcome runs) {index : UInt64}
    (below : index < runs) : ¬ CancelledAt outcome runs index := by
  rintro (unstarted | stopped)
  · exact UInt64.not_le.mpr below unstarted
  · obtain ⟨result, came_to⟩ := completes index below
    rw [came_to] at stopped
    cases stopped

/-- A batch in which every run completes consists of its runs one after the other. -/
theorem Returns.complete {answer : Except EngineError AggregateResult}
    (returns : Returns engine sampler baseSeed runs runs outcome answer)
    (completes : Completes outcome runs) :
    ∃ aggregate, answer = .ok aggregate ∧ aggregate.cancelled = [] ∧
      List.Forall₂
        (fun index result => engine.runSingle sampler baseSeed index .uninterrupted = .ok result)
        (indices 0 runs.toNat) aggregate.runs := by
  cases returns with
  | failure fails _ => exact (completes.not_failsAt _ _ fails).elim
  | @success completed aggregate _ merge =>
      have none_cancelled : aggregate.cancelled = [] := by
        refine List.eq_nil_iff_forall_not_mem.mpr fun index member => ?_
        obtain ⟨below, cancelled⟩ := (merge.cancelled_iff index).mp member
        exact completes.not_cancelledAt below cancelled
      have partition := merge.partition
      rw [none_cancelled, List.append_nil] at partition
      have completed_eq : completed = indices 0 runs.toNat := by
        refine partition.eq_of_pairwise ?_ merge.completed_ascending (pairwise_indices_toNat runs)
        intro left right _ _ before after
        exact (UInt64.lt_asymm before after).elim
      refine ⟨aggregate, rfl, none_cancelled, ?_⟩
      rw [← completed_eq]
      exact merge.runs_eq.imp fun _ _ single => single.2.2

/-- A batch of which nothing is started has no runs. -/
theorem collect_unstarted (engine : Engine) (baseSeed runs : UInt64) {arrived : List RunOutcome}
    (arrivals : Arrivals outcome 0 arrived) :
    collect engine baseSeed runs 0 arrived =
      .ok (AggregateResult.ofRuns engine.model engine.fingerprint baseSeed runs []
        (indices 0 runs.toNat)) :=
  collect_of_succeeds arrivals engine baseSeed UInt64.zero_le
    (fun _ _ below => (UInt64.not_lt_zero below).elim)
    fun _ _ fails => (UInt64.not_lt_zero fails.1).elim

end Batch

namespace Engine

open Batch

/-- The runs of a batch executed one after the other are one order of arrival. -/
theorem runSubmitted_eq_gather {engine : Engine} {sampler : Sampler}
    (prepared : engine.sampler = .ok sampler) (runs baseSeed submitted : UInt64)
    (checkpoint : UInt64 → Checkpoint) :
    engine.runSubmitted runs baseSeed submitted checkpoint =
      engine.gather runs baseSeed submitted
        (outcomes engine sampler baseSeed submitted checkpoint) := by
  rw [runSubmitted, gather, prepared]
  rfl

theorem arrivals_outcomes {engine : Engine} {sampler : Sampler} {baseSeed submitted : UInt64}
    {checkpoint : UInt64 → Checkpoint} {outcome : UInt64 → Except EngineError RunResult}
    (executed : ∀ index, index < submitted →
      outcome index = engine.runSingle sampler baseSeed index (checkpoint index)) :
    Arrivals outcome submitted (outcomes engine sampler baseSeed submitted checkpoint) := by
  refine .of_eq (List.map_congr_left fun index member => ?_)
  rw [executed index ((mem_indices_toNat_iff submitted index).mp member)]

/-- A batch returns the same under every schedule of its pool.  The pool finishes, whatever its size
and whatever its workers do first, and the outcome of every submitted run has arrived once.  In
whatever order the outcomes arrive, the batch returns the failure with the smallest index or else the
completed runs and the cancelled indices, as if the runs were executed one after the other.  If every
run completes, these are the runs of all indices, and a smaller batch consists of the first of them.
A batch that is cancelled before it starts has no runs. -/
theorem batch_schedule_independent (engine : Engine) (baseSeed runs : UInt64) {sampler : Sampler}
    (prepared : engine.sampler = .ok sampler) (asked : 0 < runs)
    {outcome : UInt64 → Except EngineError RunResult}
    (assigns : Assigns engine sampler baseSeed runs outcome) :
    (∀ config, WellFounded (fun next pool => Pool.Step config outcome pool next) ∧
      ∀ token pool,
        Relation.ReflTransGen (Pool.Step config outcome) (Pool.start runs token) pool →
          (pool.IsFinished ∨ ∃ next, Pool.Step config outcome pool next) ∧
          (pool.IsFinished → pool.submitted runs ≤ runs ∧
            Arrivals outcome (pool.submitted runs) pool.arrived ∧
            (token = true → ∃ aggregate,
              engine.gather runs baseSeed (pool.submitted runs) pool.arrived = .ok aggregate ∧
                aggregate.runs = [] ∧ aggregate.cancelled = indices 0 runs.toNat))) ∧
    (∀ submitted, submitted ≤ runs → ∃ answer,
      Returns engine sampler baseSeed runs submitted outcome answer ∧
        (∀ arrived, Arrivals outcome submitted arrived →
          engine.gather runs baseSeed submitted arrived = answer) ∧
        ∀ checkpoint, (∀ index, index < submitted →
            outcome index = engine.runSingle sampler baseSeed index (checkpoint index)) →
          engine.runSubmitted runs baseSeed submitted checkpoint = answer) ∧
    (Completes outcome runs → ∃ aggregate,
      (∀ arrived, Arrivals outcome runs arrived →
        engine.gather runs baseSeed runs arrived = .ok aggregate) ∧
      aggregate.cancelled = [] ∧ aggregate.runs.length = runs.toNat ∧
      (∀ index, index < runs → ∃ result, aggregate.runs[index.toNat]? = some result ∧
        engine.runSingle sampler baseSeed index .uninterrupted = .ok result) ∧
      ∀ fewer outcome', 0 < fewer → fewer ≤ runs →
        Assigns engine sampler baseSeed fewer outcome' → Completes outcome' fewer →
          ∃ aggregate', (∀ arrived, Arrivals outcome' fewer arrived →
              engine.gather fewer baseSeed fewer arrived = .ok aggregate') ∧
            aggregate'.runs = aggregate.runs.take fewer.toNat) := by
  refine ⟨fun config => ⟨Pool.wellFounded_step config outcome, fun token pool steps => ?_⟩,
    fun submitted within => ?_, fun completes => ?_⟩
  · have sound := (Pool.sound_start outcome runs token).steps steps
    refine ⟨Pool.finished_or_step config outcome pool, fun finished => ?_⟩
    obtain ⟨within, arrivals⟩ := sound.arrivals finished
    refine ⟨within, arrivals, fun cancelled => ?_⟩
    subst cancelled
    have unstarted := ((Pool.untouched_start runs).steps steps).submitted_eq
    rw [unstarted] at arrivals ⊢
    rw [gather_eq_collect prepared asked, collect_unstarted engine baseSeed runs arrivals]
    exact ⟨_, rfl, List.mergeSort_nil, rfl⟩
  · obtain ⟨answer, returns, gathers⟩ := exists_returns prepared asked assigns within
    refine ⟨answer, returns, gathers, fun checkpoint executed => ?_⟩
    rw [runSubmitted_eq_gather prepared]
    exact gathers _ (arrivals_outcomes executed)
  · obtain ⟨_, returns, gathers⟩ := exists_returns prepared asked assigns UInt64.le_rfl
    obtain ⟨aggregate, rfl, none_cancelled, matched⟩ := returns.complete completes
    have length_eq : aggregate.runs.length = runs.toNat := by
      rw [← matched.length_eq, length_indices]
    refine ⟨aggregate, gathers, none_cancelled, length_eq, ?_, ?_⟩
    · intro index below
      have below' : index.toNat < runs.toNat := UInt64.lt_iff_toNat_lt.mp below
      have single := matched.get (by rwa [length_indices]) (length_eq.symm ▸ below')
      refine ⟨_, List.getElem?_eq_getElem (length_eq.symm ▸ below'), ?_⟩
      simpa [indices] using single
    · intro fewer outcome' asked' within assigns' completes'
      obtain ⟨_, returns', gathers'⟩ := exists_returns prepared asked' assigns' UInt64.le_rfl
      obtain ⟨aggregate', rfl, _, matched'⟩ := returns'.complete completes'
      refine ⟨aggregate', gathers', ?_⟩
      have shortened := List.forall₂_take fewer.toNat matched
      rw [take_indices 0 (UInt64.le_iff_toNat_le.mp within)] at shortened
      refine List.right_unique_forall₂' ?_ matched' shortened
      intro index left right left_ran right_ran
      exact Except.ok.inj (left_ran.symm.trans right_ran)

/-- A model of a variable that always has the same value. -/
def steadyModel : Model :=
  { Model.blank "steady" 1 with equations := [⟨"flag", .current, .boolean true, []⟩] }

def steadyEngine : Engine := .plain steadyModel rfl

theorem batch_schedule_independent_reversed : ∃ sampler first second aggregate,
    steadyEngine.sampler = .ok sampler ∧
      steadyEngine.runSingle sampler 7 0 .uninterrupted = .ok first ∧
      steadyEngine.runSingle sampler 7 1 .uninterrupted = .ok second ∧
      steadyEngine.gather 2 7 2 [(1, .ok second), (0, .ok first)] = .ok aggregate ∧
      aggregate.runs[0]? = some first ∧ aggregate.runs[1]? = some second := by
  obtain ⟨sampler, prepared, ran⟩ : ∃ sampler, steadyEngine.sampler = .ok sampler ∧
      ∀ index, ∃ result, steadyEngine.runSingle sampler 7 index .uninterrupted = .ok result :=
    ⟨_, rfl, fun _ => ⟨_, rfl⟩⟩
  obtain ⟨first, first_ran⟩ := ran 0
  obtain ⟨second, second_ran⟩ := ran 1
  have assigns : Assigns steadyEngine sampler 7 2 fun index =>
      steadyEngine.runSingle sampler 7 index .uninterrupted :=
    fun _ _ => .inr ⟨.uninterrupted, rfl⟩
  obtain ⟨_, _, completed⟩ :=
    batch_schedule_independent steadyEngine 7 2 prepared (by decide) assigns
  obtain ⟨aggregate, gathers, _, _, runs_eq, _⟩ := completed fun index _ => ran index
  have gathered := gathers [(1, .ok second), (0, .ok first)] (by
    rw [← first_ran, ← second_ran]
    exact .swap _ _ _)
  obtain ⟨first', first_eq, first_ran'⟩ := runs_eq 0 (by decide)
  obtain ⟨second', second_eq, second_ran'⟩ := runs_eq 1 (by decide)
  obtain rfl := Except.ok.inj (first_ran.symm.trans first_ran')
  obtain rfl := Except.ok.inj (second_ran.symm.trans second_ran')
  exact ⟨sampler, first, second, aggregate, prepared, first_ran, second_ran, gathered, first_eq,
    second_eq⟩

end Engine

end EconModel
