import EconModel.Bindings
import EconModel.EvalError
import EconModel.Value

/-!
# The state of a run

A run keeps one series of values per variable.  A timestep is opened, which gives every series one
more slot, then its slots are filled, then it is committed.  Only the open slots can be written.
-/

namespace EconModel

/-- The series of every variable, and how far they are committed. -/
structure SimulationState where
  /-- The values of each variable, earliest first. -/
  series : Bindings (Array Value)
  /-- The number of committed timesteps. -/
  committed : Nat
  /-- Whether the timestep after the committed ones is open. -/
  isOpen : Bool

namespace SimulationState

/-- The state before the first timestep. -/
def initial (names : List String) : SimulationState where
  series := Bindings.ofList (names.map (·, #[]))
  committed := 0
  isOpen := false

/-- The variables, first declared first. -/
def variableNames (state : SimulationState) : List String := state.series.names

/-- Whether a name is a variable. -/
def hasVariable (state : SimulationState) (name : String) : Bool := state.series.contains name

/-- The open timestep. -/
def openTimestep? (state : SimulationState) : Option Nat :=
  if state.isOpen then some state.committed else none

/-- Open the next timestep; `seed` gives the value of a slot from the name of its variable and the
value before it. -/
def openNext (state : SimulationState) (seed : String → Option Value → Value) :
    SimulationState where
  series := state.series.map fun name values => values.push (seed name values.back?)
  committed := state.committed
  isOpen := true

/-- Replace the last value of an array. -/
def overwriteLast (values : Array Value) (value : Value) : Array Value :=
  if values.isEmpty then values else values.pop.push value

/-- Write the open slot of a variable. -/
def setCurrent (state : SimulationState) (name : String) (value : Value) :
    Except EvalError SimulationState :=
  match state.series.get? name with
  | none => .error (.unknownIdentifier name)
  | some values =>
      if state.isOpen then
        .ok { state with series := state.series.insert name (overwriteLast values value) }
      else .error (.missingDependency name state.committed)

/-- The value of a variable at the open timestep. -/
def current? (state : SimulationState) (name : String) : Option Value :=
  if state.isOpen then (state.series.get? name).bind Array.back? else none

/-- The value of a variable at a timestep that is committed or open. -/
def valueAt? (state : SimulationState) (name : String) (timestep : Nat) : Option Value :=
  (state.series.get? name).bind (·[timestep]?)

def commit (state : SimulationState) : SimulationState :=
  { state with committed := state.committed + 1, isOpen := false }

/-- The committed values of every variable; open slots are left out. -/
def committedSeries (state : SimulationState) : Bindings (List Value) :=
  state.series.map fun _ values =>
    if state.isOpen then values.toList.take state.committed else values.toList

end SimulationState

end EconModel
