import EconModel.Correlation.Assembly
import EconModel.Random.Normal

/-!
# Sampling

A sampler draws one value for every stochastic parameter.  It multiplies a vector of independent
standard normal draws by the factor of the correlation matrix and turns every coordinate into a draw
from the distribution of its parameter.
-/

namespace EconModel

/-- What is prepared once for all runs of a batch. -/
structure Sampler where
  /-- The stochastic parameters with their distributions. -/
  parameters : List (String × Distribution Float)
  /-- The factor of their correlation matrix. -/
  factor : CholeskyFactor Float parameters.length

namespace Sampler

/-- Prepare the sampler of a model; the declared correlations have to form a valid matrix. -/
def prepare (model : Model) : Except (CorrelationDefect Float) Sampler := do
  let matrix ← Correlation.ofModel model
  return ⟨model.stochasticParameters, ← matrix.cholesky⟩

/-- The number of stochastic parameters. -/
def dimension (sampler : Sampler) : Nat := sampler.parameters.length

/-- The names of the stochastic parameters. -/
def names (sampler : Sampler) : List String := sampler.parameters.map Prod.fst

/-- The draws that belong to independent standard normal draws, one for every parameter. -/
def transform (sampler : Sampler) (independent : List Float) : Bindings Float :=
  Bindings.ofList <|
    List.zipWith (fun (name, marginal) z => (name, marginal.fromStandardNormal z))
      sampler.parameters (sampler.factor.apply independent)

/-- Draw a value for every stochastic parameter. -/
def sample (sampler : Sampler) (stream : RandomStream) : Bindings Float × RandomStream :=
  let (independent, stream) := RandomStream.take RandomStream.nextNormal sampler.dimension stream
  (sampler.transform independent, stream)

end Sampler

end EconModel
