import EconModel.Builder
import EconModel.Engine.Batch
import EconModel.RunResult.Json
import EconModel.Proofs.Bindings
import EconModel.Proofs.Evaluation.Correspondence
import EconModel.Proofs.State
import EconModel.Proofs.State.History
import EconModel.Proofs.Evaluation.Extension
import EconModel.Proofs.Solver.Attempts
import EconModel.Proofs.Solver.FixedPoint
import EconModel.Proofs.Validation.Accepted
import EconModel.Proofs.Solver.Ending
import EconModel.Proofs.Engine.Resolution
import EconModel.Proofs.Log
import EconModel.Proofs.Log.Order
import EconModel.Proofs.PolicyRun
import EconModel.Proofs.Log.Policies
import EconModel.Proofs.ConstraintCheck
import EconModel.Proofs.Engine.Timestep
import EconModel.Proofs.Engine.Progress
import EconModel.Proofs.Engine.Halting
import EconModel.Proofs.Engine.Settlement
import EconModel.Proofs.Evaluation.Defined
import EconModel.Proofs.Engine.Undefined
import EconModel.Proofs.Engine.EquationOrder
import EconModel.Proofs.Engine.Replay
import EconModel.Proofs.Engine.Failure
import EconModel.Proofs.Engine.Alike
import EconModel.Proofs.Engine.Observation
import EconModel.Proofs.Engine.Horizon
import EconModel.Engine.Pool
import EconModel.Proofs.Engine.Pool
import EconModel.Proofs.Aggregate
import EconModel.Proofs.Engine.Batch
import EconModel.Proofs.Solver.Lockstep
import EconModel.Proofs.Engine.Storing
import EconModel.Proofs.ZeroDivision.Treatment
import EconModel.Proofs.ZeroDivision.Records
import EconModel.Proofs.ZeroDivision.Policies
import EconModel.Proofs.ZeroDivision.Timestep
import EconModel.Proofs.ZeroDivision.Run
import EconModel.Proofs.Evaluation.Finite
import EconModel.Proofs.Engine.Finite
import EconModel.Proofs.Engine.LogOrder
import EconModel.Proofs.Evaluation.Failures
import EconModel.Proofs.Evaluation.Checked
import EconModel.Proofs.Validation.CheckedPolicies
import EconModel.Proofs.Validation.WellFormed
import EconModel.Proofs.Engine.Soundness
import EconModel.Proofs.Engine.ScalarScope
import EconModel.Proofs.Binary64.Rounding
import EconModel.Proofs.Binary64.Packing
import EconModel.Proofs.Binary64.Scientific
import EconModel.Proofs.Decimal.Value
import EconModel.Proofs.Json.Number
import EconModel.Proofs.Json.Reading
import EconModel.Proofs.Json.Codec
import EconModel.Proofs.Json.Image
import EconModel.Proofs.RunId
import EconModel.Proofs.Engine.Identity
import EconModel.Proofs.RoundTrip.Expr
import EconModel.Proofs.RoundTrip.Value
import EconModel.Proofs.RoundTrip.Model
import EconModel.Proofs.RoundTrip.RunResult
import EconModel.Proofs.RoundTrip.Accepted
import EconModel.Proofs.Solver.Accounting
import EconModel.Proofs.Solver.Ranks
import EconModel.Proofs.Solver.Caps
import EconModel.Proofs.Engine.PassLimit
import EconModel.Proofs.Functions
import EconModel.Proofs.Engine.Sentinel
import EconModel.Proofs.Binary64.Overflow
import EconModel.Proofs.Binary64.Arithmetic
import EconModel.Proofs.Binary64.Order
import EconModel.Proofs.Distribution
import EconModel.Proofs.Engine.Parameters
import EconModel.Proofs.ConstraintCheck.Report
import EconModel.Proofs.PolicyRun.Leaves
import EconModel.Proofs.Correlation.Columns
import EconModel.Proofs.Correlation.Factor
import EconModel.Proofs.Correlation.Semidefinite
import EconModel.Proofs.Binary64.Distance
import EconModel.Proofs.Correlation.Assembly
import EconModel.Proofs.Engine.Sampling
import EconModel.Proofs.Distribution.Quantile
import EconModel.Proofs.Distribution.Order
import EconModel.Proofs.Evaluation.Locality
import EconModel.Proofs.Aggregate.Columns
import EconModel.Proofs.Binary64.TotalOrder
import EconModel.Proofs.Binary64.Counting
import EconModel.Proofs.Statistics.Ranks
import EconModel.Proofs.Statistics.Percentile
import EconModel.Proofs.Aggregate.Summary
import EconModel.Proofs.Template
import EconModel.Proofs.Evaluation.Lookup
import EconModel.Proofs.Builder
import EconModel.Proofs.Validation.SetOrder
import EconModel.Proofs.Json.Rearrangement
import EconModel.Proofs.Evaluation.Monotone
import EconModel.Proofs.Preimages
import EconModel.Proofs.Json.Layout
import EconModel.Proofs.Json.Tolerance
import EconModel.Proofs.Model.Layout
import EconModel.Proofs.Json.Fields
import EconModel.Proofs.Model.Tolerance
