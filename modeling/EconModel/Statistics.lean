import EconModel.Binary64
import EconModel.Scalar

/-!
# Descriptive statistics

Mean, spread, percentiles and correlation of samples.  A statistic of a sample that is too small
for it is missing.
-/

namespace EconModel

namespace Statistics

variable {α : Type} [Add α] [Sub α] [Mul α] [Div α] [Neg α] [LT α] [LE α] [DecidableLT α]
  [DecidableLE α] [OfScientific α] [Elementary α]

/-- The arithmetic mean of a nonempty sample. -/
@[specialize]
def mean? (sample : List α) : Option α :=
  if sample.isEmpty then none
  else some (Scalar.sum sample / Elementary.ofCount sample.length)

/-- The standard deviation of a nonempty sample, with one degree of freedom taken by the mean; a
single value has none. -/
@[specialize]
def deviation? (sample : List α) : Option α :=
  match mean? sample with
  | none => none
  | some center =>
      if sample.length < 2 then some 0.0
      else
        let squares := sample.map fun x => (x - center) * (x - center)
        some (Elementary.sqrt (Scalar.sum squares / Elementary.ofCount (sample.length - 1)))

/-- The percentile `p`, between zero and a hundred, of an ascending sample.  Between two closest
ranks it is interpolated. -/
@[specialize]
def percentile? (sample : List α) (p : α) : Option α :=
  if sample.isEmpty || !Scalar.within 0.0 100.0 p then none
  else
    let rank := p / 100.0 * Elementary.ofCount (sample.length - 1)
    let below := Elementary.floor rank
    let part := rank - Elementary.ofCount below
    match sample[below]?, sample[Elementary.ceil rank]? with
    | some low, some high => some (low + (high - low) * part)
    | _, _ => none

/-- Descriptive statistics of a sample. -/
structure Summary (α : Type) where
  /-- The size of the sample. -/
  count : Nat
  mean : α
  deviation : α
  least : α
  greatest : α
  /-- The percentile five. -/
  low : α
  median : α
  /-- The percentile ninety-five. -/
  high : α

/-- The statistics of an ascending sample. -/
@[specialize]
def summarize? (sample : List α) : Option (Summary α) := do
  some {
    count := sample.length
    least := ← sample.head?
    greatest := ← sample.getLast?
    mean := ← mean? sample
    deviation := ← deviation? sample
    low := ← percentile? sample 5.0
    median := ← percentile? sample 50.0
    high := ← percentile? sample 95.0 }

/-- The sums of products that a correlation is made of: of both deviations, of the first with
itself, and of the second with itself. -/
structure Moments (α : Type) where
  /-- The sum of products of the two deviations. -/
  mixed : α
  /-- The sum of squares of the first deviation. -/
  first : α
  /-- The sum of squares of the second deviation. -/
  second : α

/-- The moments of pairs around two centers. -/
@[specialize]
def moments (pairs : List (α × α)) (first second : α) : Moments α :=
  pairs.foldl
    (fun sums (x, y) =>
      let dx := x - first
      let dy := y - second
      ⟨sums.mixed + dx * dy, sums.first + dx * dx, sums.second + dy * dy⟩)
    ⟨0.0, 0.0, 0.0⟩

/-- The correlation of two samples of one size, which has to be two at least.  It is missing where
one of the samples does not vary. -/
@[specialize]
def pearson? [BEq α] (first second : List α) : Option α :=
  if first.length ≠ second.length ∨ first.length < 2 then none
  else
    match mean? first, mean? second with
    | some firstMean, some secondMean =>
        let sums := moments (first.zip second) firstMean secondMean
        if sums.first == 0.0 || sums.second == 0.0 then none
        else some (sums.mixed / Elementary.sqrt (sums.first * sums.second))
    | _, _ => none

/-! ## Ranks -/

/-- Give every member of each group the mean of the positions that the groups take up together;
`start` positions lie before the first group. -/
@[specialize]
def groupRanks (start : Nat) : List (List (Binary64.Pattern × Nat)) → List (Nat × α)
  | [] => []
  | group :: rest =>
      let stop := start + group.length
      let rank : α := Elementary.ofCount (start + stop + 1) / 2.0
      group.map (fun entry => (entry.2, rank)) ++ groupRanks stop rest

/-- The ranks of a sample, counted from one; equal values share the mean of their positions.  An
undefined value equals none, so it has a position of its own in the total order. -/
@[specialize]
def ranks (sample : List Binary64.Pattern) : List α :=
  let order := sample.zipIdx.mergeSort fun left right => left.1.totalLE right.1
  let groups := order.splitBy fun left right => left.1.value == right.1.value
  ((groupRanks 0 groups).mergeSort fun left right => decide (left.1 ≤ right.1)).map Prod.snd

/-- The rank correlation of two samples of one size. -/
@[specialize]
def spearman? [BEq α] (first second : List Binary64.Pattern) : Option α :=
  if first.length ≠ second.length then none else pearson? (ranks first) (ranks second)

end Statistics

end EconModel
