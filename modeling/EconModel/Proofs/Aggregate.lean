import EconModel.Aggregate
import Mathlib.Data.List.Nodup

/-!
# The order of the runs in an aggregate

Runs are ordered by their indices.  If these are different, there is only one such order, so it does
not matter in which order the runs are handed in.
-/

namespace EconModel

namespace AggregateResult

theorem indexLE_trans (first second third : Option UInt64) (left : indexLE first second = true)
    (right : indexLE second third = true) : indexLE first third = true := by
  cases first with
  | none => rfl
  | some first =>
      cases second with
      | none => cases left
      | some second =>
          cases third with
          | none => cases right
          | some third =>
              simp only [indexLE, decide_eq_true_eq] at left right ⊢
              exact UInt64.le_trans left right

theorem indexLE_total (left right : Option UInt64) :
    (indexLE left right || indexLE right left) = true := by
  cases left with
  | none => rfl
  | some left =>
      cases right with
      | none => rfl
      | some right => simpa [indexLE] using UInt64.le_total left right

theorem indexLE_antisymm {left right : Option UInt64} (forth : indexLE left right = true)
    (back : indexLE right left = true) : left = right := by
  cases left with
  | none =>
      cases right with
      | none => rfl
      | some right => cases back
  | some left =>
      cases right with
      | none => cases forth
      | some right =>
          simp only [indexLE, decide_eq_true_eq] at forth back
          rw [UInt64.le_antisymm forth back]

theorem ordered_perm (runs : List RunResult) : (ordered runs).Perm runs :=
  List.mergeSort_perm runs _

theorem pairwise_ordered (runs : List RunResult) :
    (ordered runs).Pairwise fun left right =>
      indexLE left.metadata.index right.metadata.index = true := by
  apply List.pairwise_mergeSort
  · intro first second third
    exact indexLE_trans _ _ _
  · intro left right
    exact indexLE_total _ _

/-- Runs with different indices have one order only. -/
theorem ordered_eq_of_perm {runs sorted : List RunResult} (perm : runs.Perm sorted)
    (distinct : (sorted.map fun run => run.metadata.index).Nodup)
    (ascending : sorted.Pairwise fun left right =>
      indexLE left.metadata.index right.metadata.index = true) : ordered runs = sorted := by
  have ordered_sorted := (ordered_perm runs).trans perm
  refine ordered_sorted.eq_of_pairwise ?_ (pairwise_ordered runs) ascending
  intro left right left_mem right_mem forth back
  exact List.inj_on_of_nodup_map distinct (ordered_sorted.mem_iff.mp left_mem) right_mem
    (indexLE_antisymm forth back)

end AggregateResult

end EconModel
