import EconModel.RunResult.Json
import EconModel.Statistics

/-!
# Aggregates

The runs of a batch, ordered by index, and for every variable and timestep the column of its values
over the runs.  The order in which runs are handed in does not matter.
-/

namespace EconModel

open Json (Decoder Document)

/-- One entry per run; a run that has no number in its place has none. -/
abbrev Column := List (Option Float)

/-- Descriptive statistics of a column. -/
abbrev Summary := Statistics.Summary Float

/-- The runs of a batch and their columns. -/
structure AggregateResult where
  modelName : String
  fingerprint : String
  baseSeed : UInt64
  /-- The number of runs asked for. -/
  requested : UInt64
  /-- The completed runs, ordered by index. -/
  runs : List RunResult
  /-- The indices of runs that were stopped from outside. -/
  cancelled : List UInt64
  /-- The columns of every variable, one per timestep. -/
  series : Bindings (List Column)

namespace AggregateResult

/-- Whether a run with index `left` comes no later than a run with index `right`; a run without an
index comes first. -/
def indexLE : (left right : Option UInt64) → Bool
  | none, _ => true
  | some _, none => false
  | some left, some right => decide (left ≤ right)

/-- The runs ordered by index; runs with equal indices stay in order. -/
def ordered (runs : List RunResult) : List RunResult :=
  runs.mergeSort fun left right => indexLE left.metadata.index right.metadata.index

/-- The column of a variable at a timestep. -/
def columnOf (runs : List RunResult) (name : String) (timestep : Nat) : Column :=
  runs.map fun run => (run.value? name timestep).bind Value.numeric?

/-- Put the runs of a batch together. -/
def ofRuns (model : Model) (fingerprint : String) (baseSeed requested : UInt64)
    (runs : List RunResult) (cancelled : List UInt64) : AggregateResult :=
  let runs := ordered runs
  let columns (name : String) : List Column :=
    (List.range model.horizon.toNat).map (columnOf runs name)
  { modelName := model.name
    fingerprint := fingerprint
    baseSeed := baseSeed
    requested := requested
    runs := runs
    cancelled := cancelled
    series := Bindings.ofList (model.variableNames.map fun name => (name, columns name)) }

/-! ## Queries -/

/-- The column of a variable at a timestep. -/
def column? (aggregate : AggregateResult) (name : String) (timestep : Nat) : Option Column :=
  (aggregate.series.get? name).bind (·[timestep]?)

/-- The numbers of a variable at a timestep, in the order of the runs. -/
def values (aggregate : AggregateResult) (name : String) (timestep : Nat) : List Float :=
  ((aggregate.column? name timestep).getD []).filterMap id

/-- The percentile `p` of a variable at a timestep. -/
def percentile? (aggregate : AggregateResult) (name : String) (timestep : Nat) (p : Float) :
    Option Float :=
  Statistics.percentile? (Binary64.sort (aggregate.values name timestep)) p

/-- The statistics of a variable at a timestep; there are none where no run has a number. -/
def summary? (aggregate : AggregateResult) (name : String) (timestep : Nat) : Option Summary :=
  Statistics.summarize? (Binary64.sort (aggregate.values name timestep))

/-- The runs that reached the horizon. -/
def completedRuns (aggregate : AggregateResult) : List RunResult :=
  aggregate.runs.filter RunResult.isCompleted

/-- The runs that were halted by a fatal constraint. -/
def haltedRuns (aggregate : AggregateResult) : List RunResult :=
  aggregate.runs.filter fun run => !run.isCompleted

/-! ## JSON -/

def columnDocument (column : Column) : Document :=
  .list (column.map fun entry => (entry.map Document.float).getD .null)

def toDocument (aggregate : AggregateResult) : Document :=
  .object <|
    [("model_name", .text aggregate.modelName), ("model_fingerprint", .text aggregate.fingerprint),
      ("base_seed", .word aggregate.baseSeed), ("requested_runs", .word aggregate.requested),
      ("runs", .list (aggregate.runs.map RunResult.toDocument))] ++
    (if aggregate.cancelled.isEmpty then []
      else [("cancelled_runs", .list (aggregate.cancelled.map .word))]) ++
    [("series", .table (fun columns => .list (columns.map columnDocument)) aggregate.series)]

def decode : Decoder AggregateResult :=
  Decoder.record ["model_name", "model_fingerprint", "base_seed", "requested_runs", "runs",
      "cancelled_runs", "series"] fun fields => do
    some {
      modelName := ← fields.required "model_name" Decoder.text
      fingerprint := ← fields.required "model_fingerprint" Decoder.text
      baseSeed := ← fields.required "base_seed" Decoder.word
      requested := ← fields.required "requested_runs" Decoder.word
      runs := ← fields.required "runs" (Decoder.list RunResult.decode)
      cancelled := ← fields.optional "cancelled_runs" [] (Decoder.list Decoder.word)
      series := ← fields.required "series"
        (Decoder.table (Decoder.list (Decoder.list (Decoder.nullable Decoder.float)))) }

def text (aggregate : AggregateResult) : String := aggregate.toDocument.pretty

end AggregateResult

end EconModel
