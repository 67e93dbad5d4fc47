import EconModel.Proofs.Evaluation.Extension
import Mathlib.Algebra.Order.Ring.Int

/-!
# Looking back

A variable is looked up at a lag.  Within the run the look-up finds exactly the value of the earlier
timestep, or says that there is none.  In front of the run it reports the timestep it was asked for
as a word of 64 bits, so the report is right as long as that timestep fits into one.
-/

namespace EconModel

namespace Context

variable {context : Context} {name : String} {lag : UInt64}

theorem result_eval_lagged (name : String) (lag : UInt64) :
    (context.eval (.lagged name lag)).result = context.lookup name lag := by
  rw [eval]
  rfl

theorem lookup_of_missing (isVariable : context.state.hasVariable name = true)
    (within : lag.toNat ≤ context.timestep)
    (missing : ∀ value, context.state.valueAt? name (context.timestep - lag.toNat) = some value →
      value = .undefined) :
    context.lookup name lag =
      .error (.missingDependency name (context.timestep - lag.toNat)) := by
  rw [lookup, if_pos isVariable, if_pos within]
  split
  · rfl
  · rfl
  · next other defined present => exact absurd (missing other present) defined

theorem lookup_of_lt (isVariable : context.state.hasVariable name = true)
    (before : context.timestep < lag.toNat) :
    context.lookup name lag =
      .error (.timeOutOfRange name (Int64.ofNat context.timestep - lag.toInt64)) := by
  rw [lookup, if_pos isVariable, if_neg (Nat.not_le.mpr before)]

/-! ## The timestep that is asked for -/

/-- A signed word of 64 bits keeps a number that fits into it. -/
theorem bmod_word {value : Int} (low : -2 ^ 63 ≤ value) (high : value < 2 ^ 63) :
    value.bmod (2 ^ 64) = value :=
  Int.bmod_eq_of_le (by omega) (by omega)

theorem toInt_toInt64 (lag : UInt64) : lag.toInt64.toInt = (lag.toNat : Int).bmod (2 ^ 64) := by
  rw [← Int64.toInt_toBitVec, UInt64.toBitVec_toInt64, BitVec.toInt_eq_toNat_bmod,
    UInt64.toNat_toBitVec]

/-- A lag is read as itself exactly if it does not need the sign bit. -/
theorem toInt_toInt64_eq_iff {lag : UInt64} :
    lag.toInt64.toInt = lag.toNat ↔ lag.toNat < 2 ^ 63 := by
  constructor
  · intro exact
    have bound := lag.toInt64.toInt_lt
    omega
  · intro short
    rw [toInt_toInt64]
    exact bmod_word (by omega) (by omega)

/-- The timestep that a look-up in front of the run reports. -/
theorem toInt_requested (timestep : Nat) (lag : UInt64) :
    (Int64.ofNat timestep - lag.toInt64).toInt =
      ((timestep : Int) - lag.toNat).bmod (2 ^ 64) := by
  have timestep_eq : (Int64.ofNat timestep).toInt = (timestep : Int).bmod (2 ^ 64) :=
    Int64.toInt_ofNat'
  rw [Int64.toInt_sub, timestep_eq, toInt_toInt64, Int.bmod_sub_bmod, Int.sub_bmod_bmod]

theorem toInt_requested_of_le {timestep : Nat} (before : timestep < lag.toNat)
    (fits : lag.toNat - timestep ≤ 2 ^ 63) :
    (Int64.ofNat timestep - lag.toInt64).toInt = timestep - lag.toNat := by
  rw [toInt_requested]
  exact bmod_word (by omega) (by omega)

theorem toInt_requested_of_lt {timestep : Nat} (beyond : 2 ^ 63 < lag.toNat - timestep) :
    (Int64.ofNat timestep - lag.toInt64).toInt = timestep - lag.toNat + 2 ^ 64 := by
  have lag_lt := lag.toNat_lt
  have around : ((timestep : Int) - lag.toNat).bmod (2 ^ 64) =
      ((timestep : Int) - lag.toNat + (2 ^ 64 : Nat)).bmod (2 ^ 64) :=
    (Int.add_bmod_right _ _).symm
  rw [toInt_requested, around]
  exact bmod_word (by omega) (by omega)

/-- A variable looked up at a lag within the run has the value of the earlier timestep, if it has
one.  At a longer lag the timestep in front of the run is reported, and it is the one that was asked
for exactly if it lies at most `2 ^ 63` in front: further in front, a timestep that is not in front
of the run is reported in its place.  The lag itself is read as a signed word without wrapping
around exactly if it is below `2 ^ 63`. -/
theorem lagged_exact_iff (context : Context) (name : String) (lag : UInt64)
    (isVariable : context.state.hasVariable name = true) :
    (lag.toNat ≤ context.timestep →
      (∀ value, (context.eval (.lagged name lag)).result = .ok value ↔
        context.state.valueAt? name (context.timestep - lag.toNat) = some value ∧
          value ≠ .undefined) ∧
      ((∀ value, context.state.valueAt? name (context.timestep - lag.toNat) = some value →
          value = .undefined) →
        (context.eval (.lagged name lag)).result =
          .error (.missingDependency name (context.timestep - lag.toNat)))) ∧
    (context.timestep < lag.toNat → ∃ requested : Int64,
      (context.eval (.lagged name lag)).result = .error (.timeOutOfRange name requested) ∧
        (requested.toInt = context.timestep - lag.toNat ↔
          lag.toNat - context.timestep ≤ 2 ^ 63) ∧
        (requested.toInt < 0 ↔ lag.toNat - context.timestep ≤ 2 ^ 63) ∧
        (2 ^ 63 < lag.toNat - context.timestep →
          requested.toInt = context.timestep - lag.toNat + 2 ^ 64)) ∧
    (lag.toInt64.toInt = lag.toNat ↔ lag.toNat < 2 ^ 63) := by
  rw [result_eval_lagged]
  refine ⟨fun within => ⟨fun value => ?_, lookup_of_missing isVariable within⟩, fun before => ?_,
    toInt_toInt64_eq_iff⟩
  · rw [lookup_eq_ok_iff, and_iff_right within, and_comm]
  · refine ⟨_, lookup_of_lt isVariable before, ?_⟩
    have lag_lt := lag.toNat_lt
    -- further in front than `2 ^ 63` the word wraps around once, and never twice
    rcases Nat.lt_or_ge (2 ^ 63) (lag.toNat - context.timestep) with beyond | fits
    · have requested_eq := toInt_requested_of_lt beyond
      omega
    · have requested_eq := toInt_requested_of_le before fits
      omega

/-- A context in a run of one variable, whose second value is missing. -/
def stockContext (timestep : Nat) : Context where
  environment :=
    { parameters := .empty
      scalars := .empty
      functions := Catalogue.standard.toRegistry
      zeroDivision := .warn }
  state :=
    { series := Bindings.empty.insert "stock" #[.number 10.0, .undefined, .number 30.0]
      committed := 3
      isOpen := false }
  timestep := timestep

theorem lagged_exact_iff_stock :
    (stockContext 2).state.hasVariable "stock" = true ∧
      ((stockContext 2).eval (.lagged "stock" 2)).result = .ok (.number 10.0) ∧
      ((stockContext 2).eval (.lagged "stock" 1)).result = .error (.missingDependency "stock" 1) ∧
      ∃ requested : Int64,
        ((stockContext 2).eval (.lagged "stock" 9223372036854775810)).result =
          .error (.timeOutOfRange "stock" requested) ∧ requested.toInt = -2 ^ 63 := by
  have isVariable : (stockContext 2).state.hasVariable "stock" = true := rfl
  have found := lagged_exact_iff (stockContext 2) "stock" 2 isVariable
  have missing := lagged_exact_iff (stockContext 2) "stock" 1 isVariable
  obtain ⟨_, before, _⟩ := lagged_exact_iff (stockContext 2) "stock" 9223372036854775810 isVariable
  refine ⟨isVariable, ?_, ?_, ?_⟩
  · exact ((found.1 (by decide)).1 _).mpr ⟨rfl, nofun⟩
  · refine (missing.1 (by decide)).2 fun value found => ?_
    exact (Option.some.inj found).symm
  · obtain ⟨requested, reported, exact, _⟩ := before (by decide)
    exact ⟨requested, reported, exact.mpr (by decide)⟩

/-- At the longest lag, the first timestep reports one that is not in front of the run. -/
theorem lagged_wraps_stock :
    ((stockContext 0).eval (.lagged "stock" 18446744073709551615)).result =
        .error (.timeOutOfRange "stock" 1) ∧
      ¬ ∃ requested : Int64,
        ((stockContext 0).eval (.lagged "stock" 18446744073709551615)).result =
            .error (.timeOutOfRange "stock" requested) ∧
          requested.toInt < 0 := by
  have reported : ((stockContext 0).eval (.lagged "stock" 18446744073709551615)).result =
      .error (.timeOutOfRange "stock" 1) := rfl
  refine ⟨reported, ?_⟩
  rintro ⟨requested, same, negative⟩
  rw [reported] at same
  cases same
  exact absurd negative (by decide)

end Context

end EconModel
