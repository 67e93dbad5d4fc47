import EconModel.Proofs.Binary64.Counting
import EconModel.Proofs.Binary64.TotalOrder
import EconModel.Proofs.Scalar
import EconModel.Statistics

/-!
# Average ranks

Ranks are read off a sample in its total order, cut into groups of equal values.  Where no value is
undefined, a group has below it exactly what is less than its values, although the total order
tells the zeros apart and the groups do not.  So the rank of a value depends on nothing but the
number of values below it and the number of those equal to it, and a rank correlation sees nothing
but the order of a sample.
-/

namespace EconModel

namespace Statistics

open Binary64 (Pattern)

/-- The number of values of a sample that are less than one. -/
def below (sample : List Pattern) (x : Pattern) : ℕ :=
  sample.countP fun y => decide (y.value < x.value)

/-- The number of values of a sample that equal one. -/
def level (sample : List Pattern) (x : Pattern) : ℕ :=
  sample.countP fun y => y.value == x.value

theorem below_perm {left right : List Pattern} (same : left.Perm right) :
    below left = below right := funext fun _ => same.countP_eq _

theorem level_perm {left right : List Pattern} (same : left.Perm right) :
    level left = level right := funext fun _ => same.countP_eq _

section AverageRank

variable {β : Type} [Div β] [OfScientific β] [Elementary β]

/-- The mean of the positions, counted from one, that a value and those equal to it take up. -/
def averageRank (sample : List Pattern) (x : Pattern) : β :=
  Elementary.ofCount (2 * below sample x + level sample x + 1) / 2.0

theorem averageRank_perm {left right : List Pattern} (same : left.Perm right) :
    (averageRank left : Pattern → β) = averageRank right := by
  funext x
  rw [averageRank, averageRank, below_perm same, level_perm same]

end AverageRank

/-- Values that equal one another in a row are all at one place. -/
theorem place_eq_of_isChain {group : List (Pattern × ℕ)}
    (chain : group.IsChain fun left right => (left.1.value == right.1.value) = true) :
    ∀ x ∈ group, ∀ y ∈ group, x.1.place = y.1.place := by
  induction group with
  | nil => exact fun _ mem => absurd mem List.not_mem_nil
  | cons first rest ih =>
      have level := ih chain.tail
      have first_eq : ∀ x ∈ rest, first.1.place = x.1.place := by
        cases rest with
        | nil => exact fun _ mem => absurd mem List.not_mem_nil
        | cons second others =>
            have same := Pattern.place_eq_of_beq (List.isChain_cons_cons.mp chain).1
            exact fun x mem => same.trans (level second List.mem_cons_self x mem)
      intro x x_mem y y_mem
      rcases List.mem_cons.mp x_mem with rfl | x_later <;>
        rcases List.mem_cons.mp y_mem with rfl | y_later
      · rfl
      · exact first_eq y y_later
      · exact (first_eq x x_later).symm
      · exact level x x_later y y_later

/-- Groups of an ascending sample: values in a row share a group if and only if they are equal. -/
structure Grouped (groups : List (List (Pattern × ℕ))) : Prop where
  numbers : ∀ entry ∈ groups.flatten, entry.1.value.isNaN = false
  ascending : groups.flatten.Pairwise fun left right => left.1.place ≤ right.1.place
  chains : ∀ group ∈ groups,
    group.IsChain fun left right => (left.1.value == right.1.value) = true
  apart : groups.IsChain fun left right => ∃ (left_ne : left ≠ []) (right_ne : right ≠ []),
    ((left.getLast left_ne).1.value == (right.head right_ne).1.value) = false

namespace Grouped

variable {group : List (Pattern × ℕ)} {rest : List (List (Pattern × ℕ))}
  (grouped : Grouped (group :: rest))

include grouped

theorem tail : Grouped rest where
  numbers entry mem := grouped.numbers entry (List.mem_append_right _ mem)
  ascending := (List.pairwise_append.mp grouped.ascending).2.1
  chains other mem := grouped.chains other (List.mem_cons_of_mem _ mem)
  apart := grouped.apart.tail

theorem place_eq : ∀ x ∈ group, ∀ y ∈ group, x.1.place = y.1.place :=
  place_eq_of_isChain (grouped.chains group List.mem_cons_self)

/-- A group lies strictly below all that follow. -/
theorem place_lt : ∀ x ∈ group, ∀ y ∈ rest.flatten, x.1.place < y.1.place := by
  intro x x_mem y y_mem
  cases rest with
  | nil => exact absurd y_mem List.not_mem_nil
  | cons next rest =>
      obtain ⟨⟨group_ne, next_ne, differ⟩, -⟩ := List.isChain_cons_cons.mp grouped.apart
      obtain ⟨first, others, rfl⟩ := List.exists_cons_of_ne_nil next_ne
      have last_mem := List.getLast_mem group_ne
      have first_mem : first ∈ ((first :: others) :: rest).flatten := List.mem_cons_self
      obtain ⟨-, ascending, between⟩ := List.pairwise_append.mp grouped.ascending
      have last_le := between _ last_mem first first_mem
      have last_ne : (group.getLast group_ne).1.place ≠ first.1.place := by
        rw [Ne, ← Pattern.value_beq_iff (grouped.numbers _ (List.mem_append_left _ last_mem))
          (grouped.numbers _ (List.mem_append_right _ first_mem))]
        exact Bool.eq_false_iff.mp differ
      have first_le : first.1.place ≤ y.1.place := by
        rcases List.mem_cons.mp y_mem with rfl | later
        · exact le_refl _
        · exact (List.pairwise_cons.mp ascending).1 y later
      have level := grouped.place_eq x x_mem _ last_mem
      omega

end Grouped

section Positions

-- The entries in front of a group, those of the group, and the rest.
variable {before group rest : List (Pattern × ℕ)} {entry : Pattern × ℕ} (mem : entry ∈ group)
  (numbers : ∀ other ∈ before ++ (group ++ rest), other.1.value.isNaN = false)
  (lower : ∀ x ∈ before, ∀ y ∈ group, x.1.place < y.1.place)
  (same : ∀ x ∈ group, ∀ y ∈ group, x.1.place = y.1.place)
  (upper : ∀ x ∈ group, ∀ y ∈ rest, x.1.place < y.1.place)

include mem numbers lower same upper

/-- What is less than a value of a group stands in front of the group. -/
theorem below_of_group : below ((before ++ (group ++ rest)).map Prod.fst) entry.1 =
    before.length := by
  have lt_iff (other : Pattern × ℕ) (other_mem : other ∈ before ++ (group ++ rest)) :
      other.1.value < entry.1.value ↔ other.1.place < entry.1.place :=
    Pattern.value_lt_iff (numbers other other_mem)
      (numbers entry (List.mem_append_right _ (List.mem_append_left _ mem)))
  rw [below, List.countP_map, List.countP_append, List.countP_eq_length.mpr,
    List.countP_eq_zero.mpr, Nat.add_zero]
  · intro other other_mem
    rw [Function.comp_apply, decide_eq_true_iff, lt_iff other (List.mem_append_right _ other_mem)]
    rcases List.mem_append.mp other_mem with inside | after
    · exact (same entry mem other inside).not_gt
    · exact (upper entry mem other after).not_gt
  · intro other other_mem
    rw [Function.comp_apply, decide_eq_true_iff, lt_iff other (List.mem_append_left _ other_mem)]
    exact lower other other_mem entry mem

/-- What equals a value of a group belongs to the group. -/
theorem level_of_group : level ((before ++ (group ++ rest)).map Prod.fst) entry.1 =
    group.length := by
  have eq_iff (other : Pattern × ℕ) (other_mem : other ∈ before ++ (group ++ rest)) :
      (other.1.value == entry.1.value) = true ↔ other.1.place = entry.1.place :=
    Pattern.value_beq_iff (numbers other other_mem)
      (numbers entry (List.mem_append_right _ (List.mem_append_left _ mem)))
  rw [level, List.countP_map, List.countP_append, List.countP_append, List.countP_eq_zero.mpr,
    List.countP_eq_length.mpr, List.countP_eq_zero.mpr, Nat.zero_add, Nat.add_zero]
  · intro other other_mem
    rw [Function.comp_apply,
      eq_iff other (List.mem_append_right _ (List.mem_append_right _ other_mem))]
    exact (upper entry mem other other_mem).ne'
  · intro other other_mem
    rw [Function.comp_apply,
      eq_iff other (List.mem_append_right _ (List.mem_append_left _ other_mem))]
    exact same other other_mem entry mem
  · intro other other_mem
    rw [Function.comp_apply, eq_iff other (List.mem_append_left _ other_mem)]
    exact (lower other other_mem entry mem).ne

end Positions

/-! ## Closed form -/

/-- The entries of a sample in its total order, each with its index. -/
def order (sample : List Pattern) : List (Pattern × ℕ) :=
  sample.zipIdx.mergeSort fun left right => left.1.totalLE right.1

theorem order_perm (sample : List Pattern) : (order sample).Perm sample.zipIdx :=
  List.mergeSort_perm _ _

theorem map_fst_order_perm (sample : List Pattern) :
    ((order sample).map Prod.fst).Perm sample := by
  have entries := (order_perm sample).map Prod.fst
  rwa [List.zipIdx_map_fst] at entries

theorem pairwise_order (sample : List Pattern) :
    (order sample).Pairwise fun left right => left.1.totalLE right.1 = true := by
  apply List.pairwise_mergeSort
  · exact fun _ _ _ => Pattern.totalLE_trans _ _ _
  · exact fun _ _ => Pattern.totalLE_total _ _

theorem grouped_order {sample : List Pattern} (numbers : ∀ x ∈ sample, x.value.isNaN = false) :
    Grouped ((order sample).splitBy fun left right => left.1.value == right.1.value) := by
  have entry_numbers : ∀ entry ∈ order sample, entry.1.value.isNaN = false := fun entry mem =>
    numbers entry.1 ((map_fst_order_perm sample).mem_iff.mp (List.mem_map_of_mem mem))
  have ascending : (order sample).Pairwise fun left right => left.1.place ≤ right.1.place :=
    (pairwise_order sample).imp_of_mem fun left_mem right_mem =>
      Pattern.place_le_of_totalLE (entry_numbers _ left_mem) (entry_numbers _ right_mem)
  have flatten_eq : ((order sample).splitBy fun left right =>
      left.1.value == right.1.value).flatten = order sample := List.flatten_splitBy _ _
  rw [← flatten_eq] at entry_numbers ascending
  exact ⟨entry_numbers, ascending, fun _ => List.isChain_of_mem_splitBy,
    List.isChain_getLast_head_splitBy
      (fun left right : Pattern × ℕ => left.1.value == right.1.value) _⟩

/-- What the entries carry is put back into the order of the sample. -/
theorem mergeSort_index {γ : Type} (sample : List Pattern) (rank : Pattern → γ) :
    (((order sample).map fun entry => (entry.2, rank entry.1)).mergeSort
      fun left right => decide (left.1 ≤ right.1)).map Prod.snd = sample.map rank := by
  have ascending : (sample.zipIdx.map fun entry => (entry.2, rank entry.1)).Pairwise
      fun left right => left.1 < right.1 := by
    have indices := List.pairwise_lt_range' (s := 0) (n := sample.length) 1
    rw [← List.zipIdx_map_snd 0 sample, List.pairwise_map] at indices
    exact List.pairwise_map.mpr indices
  have sorted_eq : ((order sample).map fun entry => (entry.2, rank entry.1)).mergeSort
      (fun left right => decide (left.1 ≤ right.1)) =
        sample.zipIdx.map fun entry => (entry.2, rank entry.1) := by
    have same := (List.mergeSort_perm ((order sample).map fun entry => (entry.2, rank entry.1))
      fun left right => decide (left.1 ≤ right.1)).trans ((order_perm sample).map _)
    have distinct := (List.pairwise_map.mpr ascending).imp Nat.ne_of_lt
    refine same.eq_of_pairwise (fun left right left_mem right_mem forth back => ?_)
      (List.pairwise_mergeSort ?_ ?_ _)
      (ascending.imp fun below => decide_eq_true below.le)
    · exact List.inj_on_of_nodup_map distinct (same.mem_iff.mp left_mem) right_mem
        (le_antisymm (of_decide_eq_true forth) (of_decide_eq_true back))
    · exact fun _ _ _ first second =>
        decide_eq_true ((of_decide_eq_true first).trans (of_decide_eq_true second))
    · exact fun left right => by simpa using le_total left.1 right.1
  rw [sorted_eq, List.map_map]
  have values := congrArg (List.map rank) (List.zipIdx_map_fst 0 sample)
  rwa [List.map_map] at values

section Scalars

variable {β : Type} [Div β] [OfScientific β] [Elementary β]

/-- Groups get their ranks one after another: what lies in front of them is exactly what is less
than their values. -/
theorem groupRanks_eq {entries : List (Pattern × ℕ)}
    (numbers : ∀ entry ∈ entries, entry.1.value.isNaN = false)
    {groups : List (List (Pattern × ℕ))} (grouped : Grouped groups) (before : List (Pattern × ℕ))
    (entries_eq : entries = before ++ groups.flatten)
    (lower : ∀ x ∈ before, ∀ y ∈ groups.flatten, x.1.place < y.1.place) :
    groupRanks before.length groups = groups.flatten.map fun entry =>
      (entry.2, (averageRank (entries.map Prod.fst) entry.1 : β)) := by
  -- What has its ranks already lies strictly below the groups to come.
  induction groups generalizing before with
  | nil => rfl
  | cons group rest ih =>
      rw [List.flatten_cons] at entries_eq lower ⊢
      subst entries_eq
      have lower_group : ∀ x ∈ before, ∀ y ∈ group, x.1.place < y.1.place :=
        fun x x_mem y y_mem => lower x x_mem y (List.mem_append_left _ y_mem)
      have later := ih grouped.tail (before ++ group) (List.append_assoc _ _ _).symm
        fun x x_mem y y_mem => (List.mem_append.mp x_mem).elim
          (fun x_before => lower x x_before y (List.mem_append_right _ y_mem))
          fun x_inside => grouped.place_lt x x_inside y y_mem
      rw [List.length_append] at later
      rw [groupRanks, later]
      refine Eq.trans ?_ List.map_append.symm
      refine congrArg₂ (· ++ ·) (List.map_congr_left fun entry mem => ?_) rfl
      have positions : 2 * before.length + group.length + 1 =
          before.length + (before.length + group.length) + 1 := by omega
      rw [averageRank, below_of_group mem numbers lower_group grouped.place_eq grouped.place_lt,
        level_of_group mem numbers lower_group grouped.place_eq grouped.place_lt, positions]

/-- The rank of a value that is not undefined tells how many values are less and how many equal. -/
theorem ranks_eq {sample : List Pattern} (numbers : ∀ x ∈ sample, x.value.isNaN = false) :
    (ranks sample : List β) = sample.map (averageRank sample) := by
  have grouped := grouped_order numbers
  have flatten_eq : ((order sample).splitBy fun left right =>
      left.1.value == right.1.value).flatten = order sample := List.flatten_splitBy _ _
  have entry_numbers : ∀ entry ∈ order sample, entry.1.value.isNaN = false :=
    flatten_eq ▸ grouped.numbers
  have ranked := groupRanks_eq (β := β) entry_numbers grouped [] flatten_eq.symm
    fun _ mem => absurd mem List.not_mem_nil
  rw [flatten_eq, averageRank_perm (map_fst_order_perm sample)] at ranked
  exact (congrArg (fun entries => (List.mergeSort entries _).map Prod.snd) ranked).trans
    (mergeSort_index sample _)

/-- The ranks of values in another order are those of the values, in that order. -/
theorem getElem?_ranks_ofFn {sample : List Pattern}
    (numbers : ∀ x ∈ sample, x.value.isNaN = false) (arrange : Equiv.Perm (Fin sample.length))
    (index : Fin sample.length) :
    (ranks (List.ofFn fun place => sample.get (arrange place)) : List β)[index.val]? =
      (ranks sample)[(arrange index).val]? := by
  have same : (List.ofFn fun place => sample.get (arrange place)).Perm sample := by
    have permuted := arrange.ofFn_comp_perm sample.get
    rwa [List.ofFn_get] at permuted
  rw [ranks_eq numbers, ranks_eq fun x mem => numbers x (same.mem_iff.mp mem),
    averageRank_perm same, List.getElem?_map, List.getElem?_map, List.getElem?_ofFn,
    dif_pos index.isLt, List.getElem?_eq_getElem (arrange index).isLt]
  rfl

/-- A function that keeps the order of the values of a sample. -/
structure KeepsOrder (sample : List Pattern) (f : Pattern → Pattern) : Prop where
  numbers : ∀ x ∈ sample, (f x).value.isNaN = false
  lt_iff : ∀ x ∈ sample, ∀ y ∈ sample, (f x).value < (f y).value ↔ x.value < y.value

/-- Ranks see nothing but the order of a sample. -/
theorem KeepsOrder.ranks_eq {sample : List Pattern} {f : Pattern → Pattern}
    (keeps : KeepsOrder sample f) (numbers : ∀ x ∈ sample, x.value.isNaN = false) :
    (ranks (sample.map f) : List β) = ranks sample := by
  have image_numbers : ∀ x ∈ sample.map f, x.value.isNaN = false := by
    rw [List.forall_mem_map]
    exact keeps.numbers
  rw [Statistics.ranks_eq numbers, Statistics.ranks_eq image_numbers, List.map_map]
  refine List.map_congr_left fun x x_mem => ?_
  have below_eq : below (sample.map f) (f x) = below sample x := by
    rw [below, List.countP_map]
    refine List.countP_congr fun y y_mem => ?_
    rw [Function.comp_apply, decide_eq_true_iff, decide_eq_true_iff]
    exact keeps.lt_iff y y_mem x x_mem
  have level_eq : level (sample.map f) (f x) = level sample x := by
    rw [level, List.countP_map]
    refine List.countP_congr fun y y_mem => ?_
    rw [Function.comp_apply, Pattern.value_beq_iff_not_lt (keeps.numbers y y_mem)
      (keeps.numbers x x_mem), Pattern.value_beq_iff_not_lt (numbers y y_mem) (numbers x x_mem),
      keeps.lt_iff y y_mem x x_mem, keeps.lt_iff x x_mem y y_mem]
  rw [Function.comp_apply, averageRank, averageRank, below_eq, level_eq]

end Scalars

/-! ## Exact ranks -/

section Exact

variable {α : Type} [Field α] [LinearOrder α] [IsStrictOrderedRing α] [Elementary α] [ExactCount α]

/-- Groups share out the positions that they take up. -/
theorem sum_groupRanks (groups : List (List (Pattern × ℕ))) (start : ℕ) :
    ((groupRanks start groups).map Prod.snd).sum =
      (((start + groups.flatten.length) * (start + groups.flatten.length + 1) -
        start * (start + 1)) / 2 : α) := by
  induction groups generalizing start with
  | nil => simp [groupRanks]
  | cons group rest ih =>
      have rank_eq : (Elementary.ofCount (start + (start + group.length) + 1) / 2.0 : α) =
          (start + (start + group.length) + 1 : ℕ) / 2 := by
        rw [ExactCount.ofCount_eq]
        norm_num
      have shared : (group.map fun entry => (entry.2,
          (Elementary.ofCount (start + (start + group.length) + 1) / 2.0 : α))).map Prod.snd =
            List.replicate group.length ((start + (start + group.length) + 1 : ℕ) / 2 : α) := by
        rw [List.map_map, rank_eq]
        exact List.map_const'
      rw [groupRanks, List.map_append, List.sum_append, shared, ih, List.sum_replicate,
        List.flatten_cons, List.length_append, nsmul_eq_mul]
      push_cast
      ring

/-- Ranks share out the positions of a sample. -/
theorem sum_ranks (sample : List Pattern) :
    (ranks sample : List α).sum = sample.length * (sample.length + 1) / 2 := by
  let groups := (order sample).splitBy fun left right => left.1.value == right.1.value
  have kept := (List.mergeSort_perm (groupRanks 0 groups : List (ℕ × α))
    fun left right => decide (left.1 ≤ right.1)).map Prod.snd
  have length_eq : groups.flatten.length = sample.length := by
    rw [List.flatten_splitBy, (order_perm sample).length_eq, List.length_zipIdx]
  refine kept.sum_eq.trans ?_
  rw [sum_groupRanks, length_eq, Nat.cast_zero, zero_add, zero_mul, sub_zero]

theorem averageRank_eq (sample : List Pattern) (x : Pattern) :
    (averageRank sample x : α) = below sample x + (level sample x + 1) / 2 := by
  rw [averageRank, ExactCount.ofCount_eq]
  push_cast
  norm_num
  ring

end Exact

/-! ## Ranks as doubles -/

theorem below_add_level_le {sample : List Pattern} {x : Pattern} (x_number : x.value.isNaN = false)
    (numbers : ∀ y ∈ sample, y.value.isNaN = false) :
    below sample x + level sample x ≤ sample.length := by
  have level_le : level sample x ≤
      sample.countP fun y => decide ¬decide (y.value < x.value) = true := by
    refine List.countP_mono_left fun y mem same => ?_
    rw [decide_eq_true_iff, decide_eq_true_iff]
    exact ((Pattern.value_beq_iff_not_lt (numbers y mem) x_number).mp same).1
  rw [List.length_eq_countP_add_countP fun y : Pattern => decide (y.value < x.value)]
  exact Nat.add_le_add_left level_le _

/-- Ranks are exact as doubles, unless there are more values than half a mantissa can count. -/
theorem toRat_averageRank {sample : List Pattern} {x : Pattern}
    (short : sample.length < 2 ^ 52) (numbers : ∀ y ∈ sample, y.value.isNaN = false)
    (mem : x ∈ sample) :
    Binary64.toRat (averageRank sample x) = below sample x + (level sample x + 1) / 2 := by
  have total := below_add_level_le (numbers x mem) numbers
  refine (Binary64.toRat_half_ofNat (Nat.succ_pos _) (by omega)).2.trans ?_
  push_cast
  ring

/-- Ranks are average ranks, at every scalar type: they follow the order of the values, their sum is
that of all positions, and a rank correlation does not change where the order does not. -/
theorem ranks_average {α : Type} [Field α] [LinearOrder α] [IsStrictOrderedRing α] [Elementary α]
    [ExactCount α] {β : Type} [Add β] [Sub β] [Mul β] [Div β] [Neg β] [LT β] [LE β] [DecidableLT β]
    [DecidableLE β] [OfScientific β] [Elementary β] [BEq β] {sample : List Pattern}
    (numbers : ∀ x ∈ sample, x.value.isNaN = false) :
    (ranks sample : List α) =
        sample.map (fun x => (below sample x : α) + ((level sample x : α) + 1) / 2) ∧
      (ranks sample : List α).sum = sample.length * (sample.length + 1) / 2 ∧
      (ranks sample : List Float) =
        sample.map (fun x => Float.ofNat (2 * below sample x + level sample x + 1) / 2.0) ∧
      (sample.length < 2 ^ 52 → (ranks sample : List Float).map Binary64.toRat =
        sample.map fun x => (below sample x : ℚ) + ((level sample x : ℚ) + 1) / 2) ∧
      (∀ (arrange : Equiv.Perm (Fin sample.length)) (index : Fin sample.length),
        (ranks (List.ofFn fun place => sample.get (arrange place)) : List β)[index.val]? =
          (ranks sample)[(arrange index).val]?) ∧
      ∀ (f : Pattern → Pattern) (other : List Pattern), KeepsOrder sample f →
        (spearman? (sample.map f) other : Option β) = spearman? sample other := by
  refine ⟨?_, sum_ranks sample, ranks_eq numbers, fun short => ?_,
    getElem?_ranks_ofFn numbers, fun f other keeps => ?_⟩
  · rw [ranks_eq numbers]
    exact List.map_congr_left fun x _ => averageRank_eq sample x
  · rw [ranks_eq numbers, List.map_map]
    exact List.map_congr_left fun x mem => toRat_averageRank short numbers mem
  · rw [spearman?, spearman?, List.length_map, keeps.ranks_eq numbers]

/-- The two zeros share the first two positions below the number one, and a function may as well
merge them. -/
theorem ranks_average_zeros :
    (ranks [⟨0x3FF0000000000000⟩, ⟨0⟩, ⟨0x8000000000000000⟩] : List ℝ) = [3, 3 / 2, 3 / 2] ∧
      ∀ other : List Pattern, (spearman? ([⟨0x3FF0000000000000⟩, ⟨0⟩, ⟨0x8000000000000000⟩].map
          fun x => if x.bits = 0 ∨ x.bits = 0x8000000000000000 then ⟨0⟩ else x) other :
            Option Float) =
        spearman? [⟨0x3FF0000000000000⟩, ⟨0⟩, ⟨0x8000000000000000⟩] other := by
  have numbers : ∀ x ∈ [⟨0x3FF0000000000000⟩, ⟨0⟩, ⟨0x8000000000000000⟩],
      (Pattern.value x).isNaN = false := by decide +kernel
  obtain ⟨ranks_eq, -, -, -, -, invariant⟩ := ranks_average (α := ℝ) (β := Float) numbers
  refine ⟨ranks_eq.trans ?_, fun other =>
    invariant _ other ⟨by decide +kernel, by decide +kernel⟩⟩
  have counts : [⟨0x3FF0000000000000⟩, ⟨0⟩, ⟨0x8000000000000000⟩].map (fun x : Pattern =>
      (below [⟨0x3FF0000000000000⟩, ⟨0⟩, ⟨0x8000000000000000⟩] x,
        level [⟨0x3FF0000000000000⟩, ⟨0⟩, ⟨0x8000000000000000⟩] x)) = [(2, 1), (0, 2), (0, 2)] := by
    decide +kernel
  have formula := congrArg
    (List.map fun count : ℕ × ℕ => (count.1 : ℝ) + ((count.2 : ℝ) + 1) / 2) counts
  rw [List.map_map] at formula
  refine formula.trans ?_
  norm_num

end Statistics

end EconModel
