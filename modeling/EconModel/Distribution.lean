import EconModel.Normal
import EconModel.Json.Decoder
import EconModel.Json.Document

/-!
# Distributions

The marginal distribution of an uncertain parameter.  Every family turns a standard normal draw into
a draw of its own by a function that is meant to keep the order, so that correlated normal draws
carry their rank correlation into every family.
-/

namespace EconModel

/-- A marginal distribution over a scalar type. -/
inductive Distribution (α : Type) where
  | normal (mean deviation : α)
  /-- The distribution whose logarithm is normal. -/
  | logNormal (mu sigma : α)
  | uniform (min max : α)
  /-- The triangular distribution on an interval with its peak at `mode`. -/
  | triangular (min mode max : α)
  | exponential (rate : α)
  /-- The distribution that always yields one value. -/
  | fixed (value : α)
  deriving DecidableEq

namespace Distribution

/-- What is wrong with the numbers of a distribution. -/
inductive Defect (α : Type) where
  /-- A number is infinite or undefined. -/
  | notFinite (field : String) (value : α)
  /-- A measure of spread is negative. -/
  | negative (field : String) (value : α)
  /-- An interval is empty or a single point. -/
  | emptyRange (min max : α)
  /-- The peak lies outside the interval. -/
  | modeOutside (mode min max : α)
  /-- A rate is zero or negative. -/
  | rateNotPositive (rate : α)

/-- The text that describes a defect. -/
def Defect.message : Defect Float → String
  | .notFinite field value => field ++ " must be finite, got " ++ Decimal.prose value
  | .negative field value => field ++ " must be >= 0, got " ++ Decimal.prose value
  | .emptyRange min max =>
      "min (" ++ Decimal.prose min ++ ") must be < max (" ++ Decimal.prose max ++ ")"
  | .modeOutside mode min max =>
      "mode (" ++ Decimal.prose mode ++ ") must lie in [" ++ Decimal.prose min ++ ", " ++
        Decimal.prose max ++ "]"
  | .rateNotPositive rate => "rate must be > 0, got " ++ Decimal.prose rate

variable {α : Type} [Add α] [Sub α] [Mul α] [Div α] [Neg α] [LT α] [LE α] [DecidableLT α]
  [DecidableLE α] [OfScientific α] [Elementary α]

/-- The first of some named numbers that is infinite or undefined. -/
def firstNotFinite (fields : List (String × α)) : Except (Defect α) Unit :=
  match fields.find? fun field => !Elementary.isFinite field.2 with
  | some (name, value) => .error (.notFinite name value)
  | none => .ok ()

/-- Check the numbers of a distribution; the first defect is returned. -/
def validate : Distribution α → Except (Defect α) Unit
  | .normal mean deviation => do
      firstNotFinite [("mean", mean), ("std_dev", deviation)]
      if deviation < 0.0 then .error (.negative "std_dev" deviation) else .ok ()
  | .logNormal mu sigma => do
      firstNotFinite [("mu", mu), ("sigma", sigma)]
      if sigma < 0.0 then .error (.negative "sigma" sigma) else .ok ()
  | .uniform min max => do
      firstNotFinite [("min", min), ("max", max)]
      if max ≤ min then .error (.emptyRange min max) else .ok ()
  | .triangular min mode max => do
      firstNotFinite [("min", min), ("mode", mode), ("max", max)]
      if max ≤ min then .error (.emptyRange min max)
      else if Scalar.within min max mode then .ok ()
      else .error (.modeOutside mode min max)
  | .exponential rate => do
      firstNotFinite [("rate", rate)]
      if rate ≤ 0.0 then .error (.rateNotPositive rate) else .ok ()
  | .fixed value => firstNotFinite [("value", value)]

/-- The expected value. -/
def mean : Distribution α → α
  | .normal mean _ => mean
  | .logNormal mu sigma => Elementary.exp (mu + sigma * sigma / 2.0)
  | .uniform min max => (min + max) / 2.0
  | .triangular min mode max => (min + mode + max) / 3.0
  | .exponential rate => 1.0 / rate
  | .fixed value => value

/-- The draw that belongs to a standard normal draw `z`.  The normal families use the affine and
exponential transforms, the others the inverse of their distribution function at the probability of
`z`; the exponential family takes the upper tail, which stays precise where it is small. -/
def fromStandardNormal (marginal : Distribution α) (z : α) : α :=
  match marginal with
  | .normal mean deviation => mean + deviation * z
  | .logNormal mu sigma => Elementary.exp (mu + sigma * z)
  | .uniform min max => min + (max - min) * Normal.cdf z
  | .triangular min mode max =>
      let probability := Normal.cdf z
      let width := max - min
      let split := (mode - min) / width
      if probability < split then min + Elementary.sqrt (probability * width * (mode - min))
      else max - Elementary.sqrt ((1.0 - probability) * width * (max - mode))
  | .exponential rate => -(Elementary.log (Normal.cdf (-z))) / rate
  | .fixed value => value

/-! ## JSON -/

def toDocument : Distribution Float → Json.Document
  | .normal mean deviation =>
      .object [("family", .text "normal"), ("mean", .float mean), ("std_dev", .float deviation)]
  | .logNormal mu sigma =>
      .object [("family", .text "log_normal"), ("mu", .float mu), ("sigma", .float sigma)]
  | .uniform min max =>
      .object [("family", .text "uniform"), ("min", .float min), ("max", .float max)]
  | .triangular min mode max =>
      .object [("family", .text "triangular"), ("min", .float min), ("mode", .float mode),
        ("max", .float max)]
  | .exponential rate => .object [("family", .text "exponential"), ("rate", .float rate)]
  | .fixed value => .object [("family", .text "fixed"), ("value", .float value)]

open Json (Decoder)

/-- The families under their tags, for a given reader of numbers. -/
def families (number : Decoder Float) : List (String × Decoder (Distribution Float)) :=
  [("normal", Decoder.record ["mean", "std_dev"] fun fields => do
      some (.normal (← fields.required "mean" number) (← fields.required "std_dev" number))),
    ("log_normal", Decoder.record ["mu", "sigma"] fun fields => do
      some (.logNormal (← fields.required "mu" number) (← fields.required "sigma" number))),
    ("uniform", Decoder.record ["min", "max"] fun fields => do
      some (.uniform (← fields.required "min" number) (← fields.required "max" number))),
    ("triangular", Decoder.record ["min", "mode", "max"] fun fields => do
      some (.triangular (← fields.required "min" number) (← fields.required "mode" number)
        (← fields.required "max" number))),
    ("exponential", Decoder.record ["rate"] fun fields => do
      some (.exponential (← fields.required "rate" number))),
    ("fixed", Decoder.record ["value"] fun fields => do
      some (.fixed (← fields.required "value" number)))]

def decode : Decoder (Distribution Float) := Decoder.tagged "family" (families Decoder.float)

end Distribution

end EconModel
