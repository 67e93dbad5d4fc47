import EconModel.Proofs.Bindings
import EconModel.Functions

/-!
# What the standard functions yield

A standard function takes finite numbers and yields a number, or else refuses its arguments.  This
goes for every pattern of arguments that the library has, so it is proved for the patterns.
-/

namespace EconModel

/-- Where a computation succeeds it yields a number. -/
def YieldsNumber (computed : Except String Value) : Prop :=
  ∀ value, computed = .ok value → ∃ x, value = .number x

theorem yieldsNumber_error (reason : String) : YieldsNumber (.error reason) := nofun

theorem yieldsNumber_number (x : Float) : YieldsNumber (.ok (.number x)) :=
  fun _ equal => ⟨x, (Except.ok.inj equal).symm⟩

theorem yieldsNumber_bind {α : Type} {first : Except String α} {next : α → Except String Value}
    (numeric : ∀ found, YieldsNumber (next found)) : YieldsNumber (first >>= next) := by
  cases first with
  | error reason => exact yieldsNumber_error reason
  | ok found => exact numeric found

namespace Catalogue

/-- A function yields nothing but numbers. -/
def Numeric (apply : NativeFunction) : Prop := ∀ arguments, YieldsNumber (apply arguments)

theorem numeric_unary (name : String) (f : Float → Except String Float) :
    Numeric (unary name f) := fun _ =>
  yieldsNumber_bind fun _ => yieldsNumber_bind yieldsNumber_number

theorem numeric_binary (name : String) (f : Float → Float → Except String Float) :
    Numeric (binary name f) := fun _ =>
  yieldsNumber_bind fun _ => yieldsNumber_bind yieldsNumber_number

theorem numeric_ternary (name : String) (f : Float → Float → Float → Except String Float) :
    Numeric (ternary name f) := fun _ =>
  yieldsNumber_bind fun _ => yieldsNumber_bind yieldsNumber_number

theorem numeric_variadic (name : String) (f : List Float → Float) :
    Numeric (variadic name f) := by
  intro arguments
  rw [variadic]
  split
  · exact yieldsNumber_error _
  · exact yieldsNumber_bind fun _ => yieldsNumber_number _

theorem numeric_round (name : String) : Numeric (round name) := by
  intro arguments
  rw [round]
  split
  · exact numeric_unary name _ arguments
  · exact numeric_binary name _ arguments

/-- A function that is found among the standard ones yields numbers. -/
theorem numeric_of_get?_standard {name : String} {apply : NativeFunction}
    (found : standard.get? name = some apply) : Numeric apply := by
  suffices all : ∀ entry : String × NativeFunction, entry ∈ _ → Numeric entry.2 from
    all _ (Bindings.mem_of_get?_ofList found)
  simp only [List.forall_mem_cons, named, numeric_unary, numeric_binary, numeric_ternary,
    numeric_variadic, numeric_round, List.not_mem_nil, false_implies, implies_true, and_self]

/-- A call of a standard function succeeds with a number or fails. -/
theorem call_standard_eq_ok {name : String} {arguments : List Value} {value : Value}
    (called : standard.toRegistry.call name arguments = .ok value) : ∃ x, value = .number x := by
  simp only [toRegistry] at called
  split at called
  · cases called
  · next apply found =>
    split at called
    · next result applied =>
      cases called
      exact numeric_of_get?_standard found arguments _ applied
    · cases called

end Catalogue

end EconModel
