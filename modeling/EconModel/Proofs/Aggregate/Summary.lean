import EconModel.Aggregate
import EconModel.Proofs.Binary64.Counting
import EconModel.Proofs.Binary64.TotalOrder
import EconModel.Proofs.Statistics.Percentile

/-!
# Summaries of columns

A column has a summary where it has a number, in doubles as in exact arithmetic: rounding does not
lead a percentile out of the column.  Statistics are taken of the sorted numbers, of which there is
one list, so the order of the runs leaves no trace in them, bit for bit.  Read in exact arithmetic,
the extremes, the percentiles and the mean of a column stand in order.
-/

namespace EconModel

namespace Statistics

open Binary64

/-- A percentile that is not too near to either end lies inside every sample of doubles. -/
theorem isSome_percentile?_double {p : Float} (inside : Scalar.within 0.0 100.0 p = true)
    (finite : (p / 100.0).isFinite = true) (low : 1 / 32 ≤ toRat (p / 100.0))
    (high : toRat (p / 100.0) ≤ 24 / 25) {sample : List Float} (nonempty : sample ≠ []) :
    (percentile? sample p).isSome = true := by
  obtain ⟨floor_le, ceil_le⟩ := cut_mul_ofNat_le finite low high (sample.length - 1)
  have positive := List.length_pos_iff.mpr nonempty
  exact isSome_percentile?_iff.mpr ⟨nonempty, inside,
    lt_of_le_of_lt floor_le (by omega), lt_of_le_of_lt ceil_le (by omega)⟩

theorem isSome_summarize?_double {sample : List Float} :
    (summarize? sample).isSome = true ↔ sample ≠ [] := by
  rw [isSome_summarize?_iff]
  refine ⟨fun found => (isSome_percentile?_iff.mp found.1).1, fun nonempty => ?_⟩
  exact ⟨isSome_percentile?_double (by decide +kernel) (by decide +kernel) (by decide +kernel)
      (by decide +kernel) nonempty,
    isSome_percentile?_double (by decide +kernel) (by decide +kernel) (by decide +kernel)
      (by decide +kernel) nonempty,
    isSome_percentile?_double (by decide +kernel) (by decide +kernel) (by decide +kernel)
      (by decide +kernel) nonempty⟩

/-- What percentiles and summaries of an ascending sample are. -/
structure Sound {α : Type} [Field α] [LinearOrder α] [IsStrictOrderedRing α] [Elementary α]
    (sample : List α) : Prop where
  isSome_iff : ∀ p, (percentile? sample p).isSome = true ↔ sample ≠ [] ∧ 0 ≤ p ∧ p ≤ 100
  /-- Both ranks of a percentile are positions of the sample. -/
  inside : ∀ p, sample ≠ [] → 0 ≤ p → p ≤ 100 →
    Elementary.floor (position sample p) < sample.length ∧
      Elementary.ceil (position sample p) < sample.length
  monotone : ∀ p q x y, p ≤ q → percentile? sample p = some x → percentile? sample q = some y →
    x ≤ y
  at_zero : percentile? sample 0 = sample.head?
  at_hundred : percentile? sample 100 = sample.getLast?
  at_rank : ∀ rank, 2 ≤ sample.length → rank < sample.length →
    percentile? sample (100 * rank / (sample.length - 1 : ℕ)) = sample[rank]?
  summary : ∀ summary, summarize? sample = some summary →
    sample.head? = some summary.least ∧ sample.getLast? = some summary.greatest ∧
      summary.least ≤ summary.low ∧ summary.low ≤ summary.median ∧
      summary.median ≤ summary.high ∧ summary.high ≤ summary.greatest ∧
      summary.least ≤ summary.mean ∧ summary.mean ≤ summary.greatest
  isSome_summary_iff : (summarize? sample).isSome = true ↔ sample ≠ []

theorem sound_of_ascending {α : Type} [Field α] [LinearOrder α] [IsStrictOrderedRing α]
    [Elementary α] [ExactCount α] {sample : List α} (ascending : sample.Pairwise (· ≤ ·)) :
    Sound sample where
  isSome_iff _ := isSome_percentile?_iff_of_exact
  inside _ nonempty nonneg le :=
    ⟨floor_position_lt nonempty nonneg le, ceil_position_lt nonempty nonneg le⟩
  monotone _ _ _ _ le := percentile?_mono ascending le
  at_zero := percentile?_zero sample
  at_hundred := percentile?_hundred sample
  at_rank _ := percentile?_rank
  summary summary found := by
    obtain ⟨-, least_eq, greatest_eq, -⟩ := summarize?_eq_some_iff.mp found
    obtain ⟨⟨low, median, high, greatest⟩, mean⟩ := summarize?_ordered ascending found
    exact ⟨least_eq, greatest_eq, low, median, high, greatest, mean⟩
  isSome_summary_iff := isSome_summarize?_iff_of_exact

end Statistics

namespace AggregateResult

variable {aggregate other : AggregateResult} {name : String} {timestep : ℕ}

section Column

variable {column permuted : Column} (found : aggregate.column? name timestep = some column)

include found

theorem values_eq : aggregate.values name timestep = column.filterMap id := by
  rw [values, found, Option.getD_some]

theorem length_values : (aggregate.values name timestep).length = column.countP Option.isSome := by
  rw [values_eq found, List.length_filterMap_eq_countP]
  rfl

theorem sort_values_eq (other_found : other.column? name timestep = some permuted)
    (same : permuted.Perm column) : Binary64.sort (other.values name timestep) =
      Binary64.sort (aggregate.values name timestep) := by
  rw [values_eq found, values_eq other_found]
  exact Binary64.sort_congr (same.filterMap id)

end Column

/-- A column has numbers where one of its entries is one. -/
theorem values_ne_nil_iff : aggregate.values name timestep ≠ [] ↔
    ∃ column x, aggregate.column? name timestep = some column ∧ some x ∈ column := by
  constructor
  · intro nonempty
    obtain ⟨x, mem⟩ := List.exists_mem_of_ne_nil _ nonempty
    obtain ⟨entry, entry_mem, rfl⟩ := List.mem_filterMap.mp mem
    cases found : aggregate.column? name timestep with
    | none =>
        rw [found] at entry_mem
        exact absurd entry_mem List.not_mem_nil
    | some column =>
        rw [found] at entry_mem
        exact ⟨column, x, rfl, entry_mem⟩
  · rintro ⟨column, x, found, mem⟩
    rw [values_eq found]
    exact List.ne_nil_of_mem (List.mem_filterMap.mpr ⟨some x, mem, rfl⟩)

theorem sort_ne_nil_iff {sample : List Float} : Binary64.sort sample ≠ [] ↔ sample ≠ [] := by
  rw [Ne, Ne, ← List.length_eq_zero_iff, (Binary64.sort_perm sample).length_eq,
    List.length_eq_zero_iff]

/-- The exact numbers of a variable at a timestep, in ascending order. -/
def exactSample (α : Type) [Field α] (aggregate : AggregateResult) (name : String)
    (timestep : ℕ) : List α :=
  (Binary64.sort (aggregate.values name timestep)).map fun x => (Binary64.toRat x : α)

section Exact

variable {α : Type} [Field α] [LinearOrder α] [IsStrictOrderedRing α]

theorem pairwise_exactSample (finite : ∀ x ∈ aggregate.values name timestep, x.isFinite = true) :
    (exactSample α aggregate name timestep).Pairwise (· ≤ ·) := by
  have sorted_finite : ∀ x ∈ Binary64.sort (aggregate.values name timestep), x.isFinite = true :=
    fun x mem => finite x ((Binary64.sort_perm _).mem_iff.mp mem)
  rw [exactSample, List.pairwise_map]
  refine (Binary64.pairwise_sort _).imp_of_mem fun x_mem y_mem ordered => ?_
  exact Rat.cast_le.mpr
    (Binary64.toRat_le_of_totalLE (sorted_finite _ x_mem) (sorted_finite _ y_mem) ordered)

/-- A column has a summary where it has a number, and its summary and percentiles depend on its
numbers alone, in no order.  In exact arithmetic they are sound. -/
theorem summary_sound [Elementary α] [ExactCount α]
    (finite : ∀ x ∈ aggregate.values name timestep, x.isFinite = true) :
    ((aggregate.summary? name timestep).isSome = true ↔
        ∃ column x, aggregate.column? name timestep = some column ∧ some x ∈ column) ∧
      (∀ column, aggregate.column? name timestep = some column →
        (∀ summary, aggregate.summary? name timestep = some summary →
          summary.count = column.countP Option.isSome) ∧
        ∀ (other : AggregateResult) (permuted : Column),
          other.column? name timestep = some permuted → permuted.Perm column →
            other.summary? name timestep = aggregate.summary? name timestep ∧
              (∀ p, other.percentile? name timestep p = aggregate.percentile? name timestep p) ∧
              exactSample α other name timestep = exactSample α aggregate name timestep) ∧
      (exactSample α aggregate name timestep).Perm
        ((aggregate.values name timestep).map fun x => (Binary64.toRat x : α)) ∧
      (exactSample α aggregate name timestep).Pairwise (· ≤ ·) ∧
      Statistics.Sound (exactSample α aggregate name timestep) := by
  have ascending := pairwise_exactSample (α := α) finite
  refine ⟨?_, fun column found => ⟨fun summary summarized => ?_,
    fun other permuted other_found same => ?_⟩, (Binary64.sort_perm _).map _, ascending,
    Statistics.sound_of_ascending ascending⟩
  · rw [← values_ne_nil_iff, summary?, Statistics.isSome_summarize?_double, sort_ne_nil_iff]
  · rw [(Statistics.summarize?_eq_some_iff.mp summarized).1, (Binary64.sort_perm _).length_eq,
      length_values found]
  · have sorted_eq := sort_values_eq found other_found same
    refine ⟨congrArg Statistics.summarize? sorted_eq,
      fun p => congrArg (Statistics.percentile? · p) sorted_eq, ?_⟩
    rw [exactSample, exactSample, sorted_eq]

end Exact

/-- Prices of three runs, of which the second one has none. -/
def prices : AggregateResult where
  modelName := "market"
  fingerprint := ""
  baseSeed := 0
  requested := 3
  runs := []
  cancelled := []
  series := .ofList [("price", [[some 3.0, none, some 1.0]])]

theorem summary_sound_prices :
    (∃ summary, prices.summary? "price" 0 = some summary ∧ summary.count = 2) ∧
      Statistics.percentile? (exactSample ℝ prices "price" 0) 100 =
        (exactSample ℝ prices "price" 0).getLast? := by
  have column_eq : prices.column? "price" 0 = some [some 3.0, none, some 1.0] := rfl
  have finite : ∀ x ∈ prices.values "price" 0, x.isFinite = true := by decide +kernel
  obtain ⟨isSome_iff, counted, -, -, sound⟩ := summary_sound (α := ℝ) finite
  obtain ⟨summary, found⟩ := Option.isSome_iff_exists.mp
    (isSome_iff.mpr ⟨_, 3.0, column_eq, List.mem_cons_self⟩)
  exact ⟨⟨summary, found, (counted _ column_eq).1 summary found⟩, sound.at_hundred⟩

end AggregateResult

end EconModel
