import EconModel.Proofs.Bindings
import EconModel.Solver

/-!
# Resolutions in lockstep

What every attempt keeps is kept by a resolution.  Two resolutions of the same equations run in
lockstep if each attempt succeeds in both or fails in both, with failures that look alike.  Then
they make the same passes and leave the same equations unresolved.  The first resolution may also
come to a state that is lost, from which it does not return; nothing is then said about the second
one.
-/

namespace EconModel

/-- Two resolutions came to the same, up to the looks of the failures. -/
structure Resolution.LooksLike (look : EvalError → EvalError) (left right : Resolution) :
    Prop where
  iterations_eq : left.iterations = right.iterations
  /-- The same variables are unresolved, in the same order. -/
  unresolved_eq :
    (left.unresolved.map fun _ => look) = right.unresolved.map fun _ => look

namespace Resolution.LooksLike

variable {look : EvalError → EvalError} {left right : Resolution}

theorem names_eq (alike : LooksLike look left right) :
    left.unresolved.names = right.unresolved.names := by
  have names_eq := congrArg Bindings.names alike.unresolved_eq
  rwa [Bindings.names_map, Bindings.names_map] at names_eq

theorem isConverged_eq (alike : LooksLike look left right) :
    left.isConverged = right.isConverged := by
  rw [isConverged, isConverged, Bool.eq_iff_iff, Bindings.isEmpty_iff, Bindings.isEmpty_iff,
    alike.names_eq]

/-- Where failures are looked at as they are, the resolutions are the same. -/
theorem eq (alike : LooksLike id left right) : left = right := by
  obtain ⟨iterations_eq, unresolved_eq⟩ := alike
  have left_eq : (left.unresolved.map fun _ => id) = left.unresolved := by simp [Bindings.map]
  have right_eq : (right.unresolved.map fun _ => id) = right.unresolved := by simp [Bindings.map]
  rw [left_eq, right_eq] at unresolved_eq
  obtain ⟨iterations, unresolved⟩ := left
  obtain ⟨iterations', unresolved'⟩ := right
  cases iterations_eq
  cases unresolved_eq
  rfl

end Resolution.LooksLike

namespace Solver

variable {σ τ : Type} {step : Step σ} {step' : Step τ} {pending : List Equation}

theorem mem_of_mem_pass {rest : List Equation} {state : σ} {entry : Equation × EvalError}
    (member : entry ∈ (pass step rest state).1) : entry.1 ∈ rest := by
  induction rest generalizing state with
  | nil => exact (List.not_mem_nil member).elim
  | cons equation rest ih =>
      rcases attempt : step equation state with ⟨_ | _, next⟩
      · simp only [pass, attempt] at member
        rcases List.mem_cons.mp member with rfl | member
        · exact List.mem_cons_self
        · exact List.mem_cons_of_mem _ (ih member)
      · simp only [pass, attempt] at member
        exact List.mem_cons_of_mem _ (ih member)

/-- The equations of a further pass are pending ones. -/
theorem mem_pending_of_mem_pass {rest : List Equation}
    (subset : ∀ equation ∈ rest, equation ∈ pending) {state : σ} :
    ∀ equation ∈ (pass step rest state).1.map Prod.fst, equation ∈ pending := by
  intro equation member
  obtain ⟨entry, entry_mem, rfl⟩ := List.mem_map.mp member
  exact subset _ (mem_of_mem_pass entry_mem)

/-! ## What attempts keep -/

section Stays

variable {holds : σ → Prop}

/-- Attempts at pending equations keep a property of the state. -/
def Stays (step : Step σ) (pending : List Equation) (holds : σ → Prop) : Prop :=
  ∀ equation ∈ pending, ∀ state, holds state → holds (step equation state).2

theorem Stays.pass (stays : Stays step pending holds) {rest : List Equation}
    (subset : ∀ equation ∈ rest, equation ∈ pending) {state : σ} (start : holds state) :
    holds (Solver.pass step rest state).2 := by
  induction rest generalizing state with
  | nil => exact start
  | cons equation rest ih =>
      have next_holds := stays equation (subset equation List.mem_cons_self) state start
      have rest_subset := fun other member => subset other (List.mem_cons_of_mem equation member)
      rcases attempt : step equation state with ⟨_ | _, next⟩ <;>
        · rw [attempt] at next_holds
          simp only [Solver.pass, attempt]
          exact ih rest_subset next_holds

theorem Stays.passes (stays : Stays step pending holds) (limit iterations : Nat)
    (last : Bindings EvalError) {rest : List Equation}
    (subset : ∀ equation ∈ rest, equation ∈ pending) {state : σ} (start : holds state) :
    holds (Solver.passes step limit iterations last rest state).2 := by
  induction limit generalizing iterations last rest state with
  | zero => exact start
  | succ limit ih =>
      have pass_holds := stays.pass subset start
      simp only [Solver.passes]
      split
      · exact start
      · split
        · exact pass_holds
        · exact ih _ _ (mem_pending_of_mem_pass subset) pass_holds

/-- What every attempt keeps holds at the end of a resolution. -/
theorem Stays.solve (stays : Stays step pending holds) (limit : Nat) {state : σ}
    (start : holds state) : holds (Solver.solve step limit pending state).2 :=
  stays.passes limit 0 .empty (fun _ member => member) start

end Stays

/-! ## Two resolutions -/

/-- A failed equation and the looks of its failure. -/
def seen (look : EvalError → EvalError) (entry : Equation × EvalError) : Equation × EvalError :=
  (entry.1, look entry.2)

theorem map_failures (look : EvalError → EvalError) (failed : List (Equation × EvalError)) :
    ((failures failed).map fun _ => look) = failures (failed.map (seen look)) := by
  rw [failures, failures, Bindings.map_ofList, List.map_map, List.map_map]
  rfl

/-- Attempts at pending equations end alike in two states that go together, unless the first one is
lost. -/
structure Lockstep (step : Step σ) (step' : Step τ) (pending : List Equation)
    (look : EvalError → EvalError) (lost : σ → Prop) (together : σ → τ → Prop) : Prop where
  /-- What is lost stays lost. -/
  stays : Stays step pending lost
  /-- An attempt succeeds in both states or fails in both. -/
  attempt : ∀ equation ∈ pending, ∀ state state', together state state' →
    lost (step equation state).2 ∨
      (step equation state).1.mapError look = (step' equation state').1.mapError look ∧
        together (step equation state).2 (step' equation state').2

namespace Lockstep

variable {look : EvalError → EvalError} {lost : σ → Prop} {together : σ → τ → Prop}

theorem pass (lockstep : Lockstep step step' pending look lost together) {rest : List Equation}
    (subset : ∀ equation ∈ rest, equation ∈ pending) {state : σ} {state' : τ}
    (start : together state state') :
    lost (Solver.pass step rest state).2 ∨
      (Solver.pass step rest state).1.map (seen look) =
          (Solver.pass step' rest state').1.map (seen look) ∧
        together (Solver.pass step rest state).2 (Solver.pass step' rest state').2 := by
  induction rest generalizing state state' with
  | nil => exact .inr ⟨rfl, start⟩
  | cons equation rest ih =>
      have rest_subset := fun other member => subset other (List.mem_cons_of_mem equation member)
      have attempts :=
        lockstep.attempt equation (subset equation List.mem_cons_self) state state' start
      rcases attempt : step equation state with ⟨result, next⟩
      rcases attempt' : step' equation state' with ⟨result', next'⟩
      rw [attempt, attempt'] at attempts
      rcases attempts with gone | ⟨looks, next_together⟩
      · left
        have rest_gone := lockstep.stays.pass rest_subset gone
        cases result <;> simpa only [Solver.pass, attempt] using rest_gone
      · rcases ih rest_subset next_together with gone | ⟨failed_eq, rest_together⟩
        · left
          cases result <;> simpa only [Solver.pass, attempt] using gone
        · right
          cases result with
          | ok _ =>
              cases result' with
              | ok _ => simpa only [Solver.pass, attempt, attempt'] using ⟨failed_eq, rest_together⟩
              | error error' => cases looks
          | error error =>
              cases result' with
              | ok _ => cases looks
              | error error' =>
                  have look_eq : look error = look error' := Except.error.inj looks
                  simp only [Solver.pass, attempt, attempt', List.map_cons, seen, look_eq]
                  exact ⟨congrArg _ failed_eq, rest_together⟩

theorem passes (lockstep : Lockstep step step' pending look lost together)
    (limit iterations : Nat) {last last' : Bindings EvalError}
    (last_eq : (last.map fun _ => look) = last'.map fun _ => look) {rest : List Equation}
    (subset : ∀ equation ∈ rest, equation ∈ pending) {state : σ} {state' : τ}
    (start : together state state') :
    lost (Solver.passes step limit iterations last rest state).2 ∨
      (Solver.passes step limit iterations last rest state).1.LooksLike look
          (Solver.passes step' limit iterations last' rest state').1 ∧
        together (Solver.passes step limit iterations last rest state).2
          (Solver.passes step' limit iterations last' rest state').2 := by
  induction limit generalizing iterations last last' rest state state' with
  | zero => exact .inr ⟨⟨rfl, last_eq⟩, start⟩
  | succ limit ih =>
      have rest_subset : ∀ equation ∈ (Solver.pass step rest state).1.map Prod.fst,
          equation ∈ pending := mem_pending_of_mem_pass subset
      simp only [Solver.passes]
      split
      · exact .inr ⟨⟨rfl, last_eq⟩, start⟩
      · rcases lockstep.pass subset start with gone | ⟨failed_eq, pass_together⟩
        · left
          split
          · exact gone
          · exact lockstep.stays.passes _ _ _ rest_subset gone
        · have length_eq := congrArg List.length failed_eq
          have pending_eq := congrArg (List.map Prod.fst) failed_eq
          have failures_eq := congrArg failures failed_eq
          rw [List.length_map, List.length_map] at length_eq
          rw [List.map_map, List.map_map] at pending_eq
          rw [← map_failures, ← map_failures] at failures_eq
          change List.map Prod.fst _ = List.map Prod.fst _ at pending_eq
          rw [← length_eq, ← pending_eq]
          split
          · exact .inr ⟨⟨rfl, failures_eq⟩, pass_together⟩
          · exact ih (iterations + 1) failures_eq rest_subset pass_together

/-- Resolutions whose attempts end alike come to the same. -/
theorem solve (lockstep : Lockstep step step' pending look lost together) (limit : Nat) {state : σ}
    {state' : τ} (start : together state state') :
    lost (Solver.solve step limit pending state).2 ∨
      (Solver.solve step limit pending state).1.LooksLike look
          (Solver.solve step' limit pending state').1 ∧
        together (Solver.solve step limit pending state).2
          (Solver.solve step' limit pending state').2 :=
  lockstep.passes limit 0 rfl (fun _ member => member) start

end Lockstep

/-! ## Attempts that take notes -/

section Noting

variable {β : Type} (note : Equation → σ → Except EvalError Unit → β)

/-- The attempt that also notes something about itself: the equation, the state that it finds, and
its result. -/
def noting (step : Step σ) : Step (σ × List β) := fun equation (state, notes) =>
  let (result, next) := step equation state
  (result, (next, notes ++ [note equation state result]))

theorem lockstep_noting (step : Step σ) (pending : List Equation) :
    Lockstep (noting note step) step pending id (fun _ => False) fun entry state =>
      entry.1 = state where
  stays _ _ _ lost := lost
  attempt := by
    rintro equation _ ⟨state, notes⟩ _ rfl
    exact .inr ⟨rfl, rfl⟩

/-- Notes change neither what a resolution comes to nor what it leaves behind. -/
theorem solve_noting (step : Step σ) (limit : Nat) (pending : List Equation) (state : σ) :
    (solve (noting note step) limit pending (state, [])).1 = (solve step limit pending state).1 ∧
      (solve (noting note step) limit pending (state, [])).2.1 =
        (solve step limit pending state).2 := by
  have start : ((state, ([] : List β)) : σ × List β).1 = state := rfl
  rcases (lockstep_noting note step pending).solve limit start with lost | ⟨alike, state_eq⟩
  · exact lost.elim
  · exact ⟨alike.eq, state_eq⟩

end Noting

/-- The attempts of a resolution, each with the state that it finds. -/
def visits (step : Step σ) (limit : Nat) (pending : List Equation) (state : σ) :
    List (Equation × σ) :=
  (solve (noting (fun equation state _ => (equation, state)) step) limit pending (state, [])).2.2

/-- Attempts are made at pending equations, and what they keep holds whenever one is made. -/
theorem Stays.visits {holds : σ → Prop} (stays : Stays step pending holds) (limit : Nat) {state : σ}
    (start : holds state) :
    ∀ entry ∈ Solver.visits step limit pending state, entry.1 ∈ pending ∧ holds entry.2 := by
  have kept : Stays (noting (fun equation state _ => (equation, state)) step) pending
      fun entry => holds entry.1 ∧
        ∀ visit ∈ entry.2, visit.1 ∈ pending ∧ holds visit.2 := by
    rintro equation member ⟨before, noted⟩ ⟨before_holds, noted_hold⟩
    refine ⟨stays equation member before before_holds, fun visit visit_mem => ?_⟩
    rcases List.mem_append.mp visit_mem with earlier | new
    · exact noted_hold visit earlier
    · rw [List.mem_singleton.mp new]
      exact ⟨member, before_holds⟩
  have none_noted : ∀ visit ∈ ([] : List (Equation × σ)), visit.1 ∈ pending ∧ holds visit.2 :=
    fun visit member => (List.not_mem_nil member).elim
  exact (kept.solve limit (show holds (state, ([] : List (Equation × σ))).1 ∧ _ from
    ⟨start, none_noted⟩)).2

end Solver

end EconModel
