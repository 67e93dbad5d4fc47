import EconModel.Proofs.Scalar
import EconModel.Statistics

/-!
# Percentiles and summaries

A percentile lies at a position of its sample, between the entries at the two closest ranks.  In
exact arithmetic both ranks are inside the sample, and where two percentiles have different ranks
below them, the rank above the lesser one comes no later than the rank below the greater one.  So
percentiles of an ascending sample grow from its least value to its greatest, and pass through every
value at its rank.
-/

namespace EconModel

namespace Statistics

/-! ## Positions -/

section Scalars

variable {β : Type} [Add β] [Sub β] [Mul β] [Div β] [LE β] [DecidableLE β] [OfScientific β]
  [Elementary β]

/-- The position of a percentile in a sample, counted from zero. -/
def position (sample : List β) (p : β) : β := p / 100.0 * Elementary.ofCount (sample.length - 1)

variable {sample : List β} {p : β}

theorem percentile?_eq_some_iff {value : β} : percentile? sample p = some value ↔
    sample ≠ [] ∧ Scalar.within 0.0 100.0 p = true ∧
      ∃ low high, sample[Elementary.floor (position sample p)]? = some low ∧
        sample[Elementary.ceil (position sample p)]? = some high ∧
        low + (high - low) * (position sample p -
          Elementary.ofCount (Elementary.floor (position sample p))) = value := by
  rw [percentile?]
  by_cases guarded : (sample.isEmpty || !Scalar.within 0.0 100.0 p) = true
  · rw [if_pos guarded]
    refine iff_of_false (Option.some_ne_none value).symm ?_
    rintro ⟨nonempty, inside, -⟩
    rw [inside, Bool.not_true, Bool.or_false, List.isEmpty_iff] at guarded
    exact nonempty guarded
  · rw [if_neg guarded]
    rw [Bool.or_eq_true, List.isEmpty_iff, Bool.not_eq_true', not_or, Bool.not_eq_false] at guarded
    obtain ⟨nonempty, inside⟩ := guarded
    dsimp only
    split
    · next low high low_eq high_eq =>
      constructor
      · exact fun found => ⟨nonempty, inside, low, high, low_eq, high_eq, Option.some.inj found⟩
      · rintro ⟨-, -, low', high', low'_eq, high'_eq, rfl⟩
        cases low_eq.symm.trans low'_eq
        cases high_eq.symm.trans high'_eq
        rfl
    · next missing =>
      refine iff_of_false (Option.some_ne_none value).symm ?_
      rintro ⟨-, -, low, high, low_eq, high_eq, -⟩
      exact missing low high low_eq high_eq

theorem isSome_percentile?_iff : (percentile? sample p).isSome = true ↔
    sample ≠ [] ∧ Scalar.within 0.0 100.0 p = true ∧
      Elementary.floor (position sample p) < sample.length ∧
        Elementary.ceil (position sample p) < sample.length := by
  rw [Option.isSome_iff_exists]
  constructor
  · rintro ⟨value, found⟩
    obtain ⟨nonempty, inside, low, high, low_eq, high_eq, -⟩ := percentile?_eq_some_iff.mp found
    exact ⟨nonempty, inside, (List.getElem?_eq_some_iff.mp low_eq).1,
      (List.getElem?_eq_some_iff.mp high_eq).1⟩
  · rintro ⟨nonempty, inside, floor_lt, ceil_lt⟩
    exact ⟨_, percentile?_eq_some_iff.mpr ⟨nonempty, inside, _, _,
      List.getElem?_eq_getElem floor_lt, List.getElem?_eq_getElem ceil_lt, rfl⟩⟩

variable [Neg β]

theorem summarize?_eq_some_iff {summary : Summary β} : summarize? sample = some summary ↔
    summary.count = sample.length ∧ sample.head? = some summary.least ∧
      sample.getLast? = some summary.greatest ∧ mean? sample = some summary.mean ∧
      deviation? sample = some summary.deviation ∧ percentile? sample 5.0 = some summary.low ∧
      percentile? sample 50.0 = some summary.median ∧
      percentile? sample 95.0 = some summary.high := by
  constructor
  · intro found
    simp only [summarize?, Option.bind_eq_bind, Option.bind_eq_some_iff, Option.some.injEq] at found
    obtain ⟨least, least_eq, greatest, greatest_eq, mean, mean_eq, deviation, deviation_eq, low,
      low_eq, median, median_eq, high, high_eq, rfl⟩ := found
    exact ⟨rfl, least_eq, greatest_eq, mean_eq, deviation_eq, low_eq, median_eq, high_eq⟩
  · obtain ⟨count, mean, deviation, least, greatest, low, median, high⟩ := summary
    rintro ⟨rfl, least_eq, greatest_eq, mean_eq, deviation_eq, low_eq, median_eq, high_eq⟩
    simp only [summarize?, least_eq, greatest_eq, mean_eq, deviation_eq, low_eq, median_eq, high_eq,
      Option.bind_eq_bind, Option.bind_some]

/-- A sample has a summary where it has the percentiles of a summary. -/
theorem isSome_summarize?_iff : (summarize? sample).isSome = true ↔
    (percentile? sample 5.0).isSome = true ∧ (percentile? sample 50.0).isSome = true ∧
      (percentile? sample 95.0).isSome = true := by
  constructor
  · intro found
    obtain ⟨summary, found⟩ := Option.isSome_iff_exists.mp found
    obtain ⟨-, -, -, -, -, low_eq, median_eq, high_eq⟩ := summarize?_eq_some_iff.mp found
    rw [low_eq, median_eq, high_eq]
    exact ⟨rfl, rfl, rfl⟩
  · rintro ⟨low, median, high⟩
    obtain ⟨low, low_eq⟩ := Option.isSome_iff_exists.mp low
    obtain ⟨median, median_eq⟩ := Option.isSome_iff_exists.mp median
    obtain ⟨high, high_eq⟩ := Option.isSome_iff_exists.mp high
    have nonempty := (percentile?_eq_some_iff.mp low_eq).1
    obtain ⟨mean, mean_eq⟩ : ∃ mean, mean? sample = some mean :=
      ⟨_, if_neg (by rwa [List.isEmpty_iff])⟩
    obtain ⟨deviation, deviation_eq⟩ : ∃ deviation, deviation? sample = some deviation := by
      rw [deviation?, mean_eq]
      dsimp only
      split <;> exact ⟨_, rfl⟩
    have found : summarize? sample = some ⟨sample.length, mean, deviation, sample.head nonempty,
        sample.getLast nonempty, low, median, high⟩ :=
      summarize?_eq_some_iff.mpr ⟨rfl, List.head?_eq_some_head nonempty,
        List.getLast?_eq_some_getLast nonempty, mean_eq, deviation_eq, low_eq, median_eq, high_eq⟩
    rw [found]
    rfl

end Scalars

/-! ## Exact arithmetic -/

theorem percent_iff {α : Type} [Field α] [LinearOrder α] [IsStrictOrderedRing α] {p : α} :
    Scalar.within 0.0 100.0 p = true ↔ 0 ≤ p ∧ p ≤ 100 := by
  rw [Scalar.within_iff, Scalar.zero_eq]
  norm_num

theorem getElem?_le {γ : Type} [Preorder γ] {sample : List γ} (ascending : sample.Pairwise (· ≤ ·))
    {left right : ℕ} (ordered : left ≤ right) {low high : γ}
    (low_eq : sample[left]? = some low) (high_eq : sample[right]? = some high) : low ≤ high := by
  obtain ⟨left_lt, rfl⟩ := List.getElem?_eq_some_iff.mp low_eq
  obtain ⟨right_lt, rfl⟩ := List.getElem?_eq_some_iff.mp high_eq
  rcases ordered.eq_or_lt with rfl | less
  · exact le_rfl
  · exact List.pairwise_iff_getElem.mp ascending _ _ left_lt right_lt less

section Exact

variable {α : Type} [Field α] [LinearOrder α] [IsStrictOrderedRing α] [Elementary α] [ExactCount α]
  {sample : List α} {p q : α}

theorem position_eq (sample : List α) (p : α) :
    position sample p = p / 100 * (sample.length - 1 : ℕ) := by
  rw [position, ExactCount.ofCount_eq]
  norm_num

theorem position_nonneg (sample : List α) (nonneg : 0 ≤ p) : 0 ≤ position sample p := by
  rw [position_eq]
  positivity

theorem position_mono (sample : List α) (le : p ≤ q) : position sample p ≤ position sample q := by
  rw [position_eq, position_eq]
  gcongr

theorem position_le (le : p ≤ 100) : position sample p ≤ (sample.length - 1 : ℕ) := by
  have last := position_mono sample le
  rw [position_eq sample 100, div_self (by norm_num), one_mul] at last
  exact last

/-- Both ranks of a percentile are inside the sample. -/
theorem ceil_position_lt (nonempty : sample ≠ []) (nonneg : 0 ≤ p) (le : p ≤ 100) :
    Elementary.ceil (position sample p) < sample.length := by
  have at_most : Elementary.ceil (position sample p) ≤ sample.length - 1 :=
    (ExactCount.ceil_le_iff (position_nonneg sample nonneg)).mpr (position_le le)
  have positive := List.length_pos_iff.mpr nonempty
  omega

theorem floor_position_lt (nonempty : sample ≠ []) (nonneg : 0 ≤ p) (le : p ≤ 100) :
    Elementary.floor (position sample p) < sample.length :=
  (floor_le_ceil (position_nonneg sample nonneg)).trans_lt (ceil_position_lt nonempty nonneg le)

theorem isSome_percentile?_iff_of_exact : (percentile? sample p).isSome = true ↔
    sample ≠ [] ∧ 0 ≤ p ∧ p ≤ 100 := by
  rw [isSome_percentile?_iff, percent_iff]
  constructor
  · exact fun found => ⟨found.1, found.2.1⟩
  · exact fun inside => ⟨inside.1, inside.2, floor_position_lt inside.1 inside.2.1 inside.2.2,
      ceil_position_lt inside.1 inside.2.1 inside.2.2⟩

/-- A percentile in exact arithmetic, with the entries that it lies between. -/
theorem exists_of_percentile? {value : α} (found : percentile? sample p = some value) :
    0 ≤ p ∧ p ≤ 100 ∧ ∃ low high,
      sample[Elementary.floor (position sample p)]? = some low ∧
        sample[Elementary.ceil (position sample p)]? = some high ∧
        value = low + (high - low) *
          (position sample p - Elementary.floor (position sample p)) := by
  obtain ⟨-, inside, low, high, low_eq, high_eq, value_eq⟩ := percentile?_eq_some_iff.mp found
  obtain ⟨nonneg, le⟩ := percent_iff.mp inside
  rw [ExactCount.ofCount_eq] at value_eq
  exact ⟨nonneg, le, low, high, low_eq, high_eq, value_eq.symm⟩

/-- A percentile whose position is a rank is the entry at this rank. -/
theorem percentile?_of_position {rank : ℕ} (short : rank < sample.length) (nonneg : 0 ≤ p)
    (le : p ≤ 100) (position_eq : position sample p = rank) :
    percentile? sample p = sample[rank]? := by
  have found : percentile? sample p = some sample[rank] := by
    rw [percentile?_eq_some_iff, position_eq, floor_natCast, ceil_natCast]
    have nonempty : sample ≠ [] := List.length_pos_iff.mp (Nat.zero_lt_of_lt short)
    have entry := List.getElem?_eq_getElem short
    refine ⟨nonempty, percent_iff.mpr ⟨nonneg, le⟩, _, _, entry, entry, ?_⟩
    rw [sub_self, zero_mul, add_zero]
  rw [found, List.getElem?_eq_getElem short]

theorem percentile?_zero (sample : List α) : percentile? sample 0 = sample.head? := by
  by_cases empty : sample = []
  · rw [empty]
    exact if_pos rfl
  · have first : position sample 0 = (0 : ℕ) := by
      rw [position_eq, zero_div, zero_mul, Nat.cast_zero]
    rw [List.head?_eq_getElem?]
    exact percentile?_of_position (List.length_pos_iff.mpr empty) le_rfl (by norm_num) first

theorem percentile?_hundred (sample : List α) : percentile? sample 100 = sample.getLast? := by
  by_cases empty : sample = []
  · rw [empty]
    exact if_pos rfl
  · have last : position sample 100 = (sample.length - 1 : ℕ) := by
      rw [position_eq, div_self (by norm_num), one_mul]
    have positive := List.length_pos_iff.mpr empty
    rw [List.getLast?_eq_getElem?]
    exact percentile?_of_position (by omega) (by norm_num) le_rfl last

/-- The percentiles at the ranks of a sample are its entries. -/
theorem percentile?_rank {rank : ℕ} (two : 2 ≤ sample.length) (short : rank < sample.length) :
    percentile? sample (100 * rank / (sample.length - 1 : ℕ)) = sample[rank]? := by
  have steps_pos : (0 : α) < (sample.length - 1 : ℕ) := Nat.cast_pos.mpr (by omega)
  have rank_le : (rank : α) ≤ (sample.length - 1 : ℕ) := Nat.cast_le.mpr (by omega)
  refine percentile?_of_position short (by positivity) ?_ ?_
  · rw [div_le_iff₀ steps_pos]
    gcongr
  · rw [position_eq]
    field_simp

section Ascending

variable (ascending : sample.Pairwise (· ≤ ·))

include ascending

/-- A percentile lies between the entries at its ranks. -/
theorem percentile?_between {value low high : α} (found : percentile? sample p = some value)
    (low_eq : sample[Elementary.floor (position sample p)]? = some low)
    (high_eq : sample[Elementary.ceil (position sample p)]? = some high) :
    low ≤ value ∧ value ≤ high := by
  obtain ⟨nonneg, -, low', high', low'_eq, high'_eq, rfl⟩ := exists_of_percentile? found
  cases low_eq.symm.trans low'_eq
  cases high_eq.symm.trans high'_eq
  have position_nonneg := position_nonneg sample nonneg
  have gap_nonneg : 0 ≤ high - low :=
    sub_nonneg.mpr (getElem?_le ascending (floor_le_ceil position_nonneg) low_eq high_eq)
  have part_nonneg := sub_nonneg.mpr (floor_le_self position_nonneg)
  have part_le : position sample p - Elementary.floor (position sample p) ≤ 1 := by
    linarith [lt_floor_add_one position_nonneg]
  have upper := mul_le_of_le_one_right gap_nonneg part_le
  exact ⟨le_add_of_nonneg_right (mul_nonneg gap_nonneg part_nonneg), by linarith⟩

/-- Percentiles do not fall, within a pair of ranks nor from one pair to the next. -/
theorem percentile?_mono (le : p ≤ q) {x y : α} (x_found : percentile? sample p = some x)
    (y_found : percentile? sample q = some y) : x ≤ y := by
  obtain ⟨p_nonneg, -, x_low, x_high, x_low_eq, x_high_eq, x_eq⟩ := exists_of_percentile? x_found
  obtain ⟨q_nonneg, -, y_low, y_high, y_low_eq, y_high_eq, y_eq⟩ := exists_of_percentile? y_found
  have p_position := position_nonneg sample p_nonneg
  have q_position := position_nonneg sample q_nonneg
  have position_le := position_mono sample le
  rcases (floor_mono p_position position_le).eq_or_lt with same | apart
  · -- Both lie above one entry, and nothing else falls.
    rw [same] at x_low_eq x_eq
    cases x_low_eq.symm.trans y_low_eq
    have part_nonneg := sub_nonneg.mpr (floor_le_self p_position)
    rw [same] at part_nonneg
    have high_le := getElem?_le ascending (ceil_mono p_position position_le) x_high_eq y_high_eq
    have gap_nonneg : 0 ≤ y_high - x_low :=
      sub_nonneg.mpr (getElem?_le ascending (floor_le_ceil q_position) y_low_eq y_high_eq)
    rw [x_eq, y_eq]
    gcongr
  · -- The rank above the lesser position is passed by the greater one.
    have ranks_le := (ceil_le_floor_add_one p_position).trans (Nat.succ_le_of_lt apart)
    calc
      x ≤ x_high := (percentile?_between ascending x_found x_low_eq x_high_eq).2
      _ ≤ y_low := getElem?_le ascending ranks_le x_high_eq y_low_eq
      _ ≤ y := (percentile?_between ascending y_found y_low_eq y_high_eq).1

/-- The mean of an ascending sample lies between its first and its last value. -/
theorem mean?_between {least greatest mean : α} (least_eq : sample.head? = some least)
    (greatest_eq : sample.getLast? = some greatest) (mean_eq : mean? sample = some mean) :
    least ≤ mean ∧ mean ≤ greatest := by
  have nonempty : sample ≠ [] := fun empty => by simp [empty] at least_eq
  have length_pos : (0 : α) < sample.length := Nat.cast_pos.mpr (List.length_pos_iff.mpr nonempty)
  rw [List.head?_eq_getElem?] at least_eq
  rw [List.getLast?_eq_getElem?] at greatest_eq
  have above : ∀ x ∈ sample, least ≤ x := by
    intro x mem
    obtain ⟨place, short, rfl⟩ := List.mem_iff_getElem.mp mem
    exact getElem?_le ascending (Nat.zero_le place) least_eq (List.getElem?_eq_getElem short)
  have below : ∀ x ∈ sample, x ≤ greatest := by
    intro x mem
    obtain ⟨place, short, rfl⟩ := List.mem_iff_getElem.mp mem
    exact getElem?_le ascending (by omega) (List.getElem?_eq_getElem short) greatest_eq
  have mean_eq : sample.sum / sample.length = mean := by
    rw [mean?, if_neg (by rwa [List.isEmpty_iff]), Scalar.sum_eq, ExactCount.ofCount_eq] at mean_eq
    exact Option.some.inj mean_eq
  rw [← mean_eq, le_div_iff₀ length_pos, div_le_iff₀ length_pos, mul_comm, mul_comm greatest,
    ← nsmul_eq_mul, ← nsmul_eq_mul]
  exact ⟨List.card_nsmul_le_sum sample least above, List.sum_le_card_nsmul sample greatest below⟩

/-- The percentiles of a summary stand in order between its extremes, and so does the mean. -/
theorem summarize?_ordered {summary : Summary α} (found : summarize? sample = some summary) :
    (summary.least ≤ summary.low ∧ summary.low ≤ summary.median ∧
      summary.median ≤ summary.high ∧ summary.high ≤ summary.greatest) ∧
      summary.least ≤ summary.mean ∧ summary.mean ≤ summary.greatest := by
  obtain ⟨-, least_eq, greatest_eq, mean_eq, -, low_eq, median_eq, high_eq⟩ :=
    summarize?_eq_some_iff.mp found
  have at_zero := (percentile?_zero sample).trans least_eq
  have at_hundred := (percentile?_hundred sample).trans greatest_eq
  exact ⟨⟨percentile?_mono ascending (by norm_num) at_zero low_eq,
      percentile?_mono ascending (by norm_num) low_eq median_eq,
      percentile?_mono ascending (by norm_num) median_eq high_eq,
      percentile?_mono ascending (by norm_num) high_eq at_hundred⟩,
    mean?_between ascending least_eq greatest_eq mean_eq⟩

end Ascending

theorem isSome_summarize?_iff_of_exact : (summarize? sample).isSome = true ↔ sample ≠ [] := by
  rw [isSome_summarize?_iff, isSome_percentile?_iff_of_exact, isSome_percentile?_iff_of_exact,
    isSome_percentile?_iff_of_exact]
  norm_num

end Exact

end Statistics

end EconModel
