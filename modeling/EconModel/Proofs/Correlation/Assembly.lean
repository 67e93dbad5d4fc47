import EconModel.Correlation.Assembly
import EconModel.Proofs.Binary64.Distance
import EconModel.Proofs.Correlation.Rows

/-!
# Assembled correlations

A model declares correlations in two places, in a list of its own and beside its parameters.  Read
as one list, they are assembled into a matrix that carries the first coefficient of every pair.
Where that fails, the first name that is not drawn is reported, or else the first pair that
contradicts what stands in front of it.
-/

namespace EconModel

open Binary64

variable {n : ℕ}

/-- Whether a pair joins two names, in either order. -/
def CorrelatedPair.joins (pair : CorrelatedPair Float) (first second : String) : Bool :=
  pair.first = first && pair.second = second || pair.first = second && pair.second = first

theorem CorrelatedPair.joins_comm (pair : CorrelatedPair Float) (first second : String) :
    pair.joins first second = pair.joins second first := Bool.or_comm _ _

namespace Correlation

/-! ## Declarations -/

/-- The names that the correlations of a model refer to, in the order of their declaration. -/
def references (model : Model) : List String :=
  (model.correlations.flatMap fun spec => [spec.first, spec.second]) ++
    model.parameters.flatMap fun parameter => parameter.partners.map CorrelationPartner.parameter

/-- The pairs that a model lists, in the order of their declaration. -/
def listing (model : Model) : List (CorrelatedPair Float) :=
  (model.correlations.map fun spec => ⟨spec.first, spec.second, spec.coefficient⟩) ++
    model.parameters.flatMap fun parameter => parameter.partners.map fun partner =>
      ⟨parameter.name, partner.parameter, partner.coefficient⟩

/-- A name is that of a parameter which is drawn. -/
def IsDrawn (model : Model) (name : String) : Prop :=
  ∃ parameter ∈ model.parameters, parameter.name = name ∧ parameter.isStochastic = true

/-- What is reported of a name that is not drawn. -/
inductive ReferenceDefect (model : Model) (name : String) : CorrelationDefect Float → Prop
  | unknown (absent : ∀ parameter ∈ model.parameters, parameter.name ≠ name) :
      ReferenceDefect model name (.unknownParameter name)
  | notStochastic {parameter : Parameter} (member : parameter ∈ model.parameters)
      (name_eq : parameter.name = name) (literal : parameter.isStochastic = false) :
      ReferenceDefect model name (.notStochastic name)

section Checks

variable {ε β γ : Type} {check : String → Except ε Unit}

theorem forM_eq_ok_iff {names : List String} :
    forM names check = .ok () ↔ ∀ name ∈ names, check name = .ok () := by
  induction names with
  | nil => simp [pure, Except.pure]
  | cons name rest ih =>
      rw [List.forM_cons]
      cases check_eq : check name with
      | error defect => simp [check_eq, bind, Except.bind]
      | ok _ => simpa [check_eq, bind, Except.bind] using ih

/-- A check of several names fails at the first one that fails. -/
theorem exists_of_forM_eq_error {names : List String} {defect : ε}
    (failed : forM names check = .error defect) : ∃ front name back,
      names = front ++ name :: back ∧ (∀ earlier ∈ front, check earlier = .ok ()) ∧
        check name = .error defect := by
  induction names with
  | nil => cases failed
  | cons name rest ih =>
      rw [List.forM_cons] at failed
      cases check_eq : check name with
      | error other =>
          rw [check_eq] at failed
          cases failed
          exact ⟨[], name, rest, rfl, nofun, check_eq⟩
      | ok _ =>
          rw [check_eq] at failed
          obtain ⟨front, offending, back, rfl, passed, found⟩ := ih failed
          refine ⟨name :: front, offending, back, rfl, ?_, found⟩
          exact List.forall_mem_cons.mpr ⟨check_eq, passed⟩

/-- Entries that are taken up after a check of their names can be taken up after a check of all
names. -/
theorem mapM_checked (names : β → List String) (value : β → γ) (entries : List β) :
    (entries.mapM fun entry => do forM (names entry) check; return value entry) =
      (do forM (entries.flatMap names) check; return entries.map value : Except ε (List γ)) := by
  induction entries with
  | nil => rfl
  | cons entry rest ih =>
      rw [List.mapM_cons, ih, List.flatMap_cons, List.forM_append]
      simp only [bind_assoc, pure_bind, List.map_cons]

end Checks

theorem declaredPairs_eq (model : Model) : declaredPairs model =
    (do forM (references model) (checkReference model); return listing model) := by
  have own : modelPairs model =
      (do forM (model.correlations.flatMap fun spec => [spec.first, spec.second])
            (checkReference model)
          return model.correlations.map fun spec =>
            (⟨spec.first, spec.second, spec.coefficient⟩ : CorrelatedPair Float)) := by
    rw [← mapM_checked, modelPairs]
    simp
  have inline (parameter : Parameter) : parameterPairs model parameter =
      (do forM (parameter.partners.map CorrelationPartner.parameter) (checkReference model)
          return parameter.partners.map fun partner =>
            (⟨parameter.name, partner.parameter, partner.coefficient⟩ : CorrelatedPair Float)) := by
    rw [List.map_eq_flatMap, ← mapM_checked, parameterPairs]
    simp
  rw [declaredPairs, own, funext inline, mapM_checked, references, listing, List.forM_append]
  simp only [bind_assoc, pure_bind, List.flatMap_def]

section Reference

variable {model : Model} (distinct : (model.parameters.map Parameter.name).Nodup) (name : String)

include distinct

theorem checkReference_eq_ok_iff : checkReference model name = .ok () ↔ IsDrawn model name := by
  rw [checkReference, Model.parameter?]
  cases found : model.parameters.find? fun parameter => parameter.name = name with
  | none =>
      rw [List.find?_eq_none] at found
      refine iff_of_false (by nofun) ?_
      rintro ⟨parameter, member, name_eq, -⟩
      exact found parameter member (decide_eq_true name_eq)
  | some parameter =>
      have name_eq : parameter.name = name := by simpa using List.find?_some found
      have member := List.mem_of_find?_eq_some found
      dsimp only
      split
      · next drawn => exact iff_of_true rfl ⟨parameter, member, name_eq, drawn⟩
      · next literal =>
        refine iff_of_false (by nofun) ?_
        rintro ⟨other, other_mem, other_eq, drawn⟩
        obtain rfl :=
          List.inj_on_of_nodup_map distinct other_mem member (other_eq.trans name_eq.symm)
        exact literal drawn

omit distinct in
theorem referenceDefect_of_checkReference {defect : CorrelationDefect Float}
    (failed : checkReference model name = .error defect) : ReferenceDefect model name defect := by
  rw [checkReference, Model.parameter?] at failed
  cases found : model.parameters.find? fun parameter => parameter.name = name with
  | none =>
      rw [found] at failed
      cases failed
      rw [List.find?_eq_none] at found
      exact .unknown fun parameter member name_eq => found parameter member (decide_eq_true name_eq)
  | some parameter =>
      rw [found] at failed
      dsimp only at failed
      split at failed
      · cases failed
      · next literal =>
        cases failed
        have name_eq : parameter.name = name := by simpa using List.find?_some found
        exact .notStochastic (List.mem_of_find?_eq_some found) name_eq
          (Bool.eq_false_of_not_eq_true literal)

end Reference

/-! ## Pairs -/

/-- Two coefficients are the same, up to the tolerance. -/
def Close (left right : Float) : Prop := (left - right).abs ≤ 1e-12

/-- The coefficient with which a list of pairs first joins two names. -/
def listed? (pairs : List (CorrelatedPair Float)) (first second : String) : Option Float :=
  (pairs.find? fun pair => pair.joins first second).map CorrelatedPair.coefficient

/-- No pair contradicts the pairs in front of it, and none joins a name to itself with another
coefficient than one. -/
structure Consistent (pairs : List (CorrelatedPair Float)) : Prop where
  self : ∀ pair ∈ pairs, pair.first = pair.second → Close pair.coefficient 1.0
  again : ∀ pair ∈ pairs, pair.first ≠ pair.second → ∀ earlier,
    listed? pairs pair.first pair.second = some earlier → Close earlier pair.coefficient

/-- What is reported of a pair that contradicts the pairs in front of it. -/
inductive PairDefect (names : Vector String n) (front : List (CorrelatedPair Float))
    (pair : CorrelatedPair Float) : CorrelationDefect Float → Prop
  | self (index : Fin n) (first_eq : pair.first = names.get index)
      (second_eq : pair.second = names.get index) (far : ¬Close pair.coefficient 1.0) :
      PairDefect names front pair (.nonUnitDiagonal index pair.coefficient)
  | conflict (low high : Fin n) (ordered : low < high)
      (joins : pair.joins (names.get low) (names.get high) = true) {earlier : Float}
      (listed : listed? front (names.get low) (names.get high) = some earlier)
      (far : ¬Close earlier pair.coefficient) :
      PairDefect names front pair
        (.conflicting (names.get low) (names.get high) earlier pair.coefficient)

theorem tolerance_lt_iff {left right : Float} (left_finite : left.isFinite = true)
    (right_finite : right.isFinite = true) :
    SquareMatrix.tolerance < Elementary.abs (left - right) ↔ ¬Close left right :=
  lt_abs_sub_iff left_finite rfl right_finite

theorem close_self {coefficient : Float} (finite : coefficient.isFinite = true) :
    Close coefficient coefficient := abs_sub_self_le finite rfl (by decide +kernel)

theorem listed?_comm (pairs : List (CorrelatedPair Float)) (first second : String) :
    listed? pairs first second = listed? pairs second first := by
  simp only [listed?, CorrelatedPair.joins_comm _ first second]

theorem listed?_concat (front : List (CorrelatedPair Float)) (pair : CorrelatedPair Float)
    (first second : String) : listed? (front ++ [pair]) first second =
      (listed? front first second).or
        (if pair.joins first second then some pair.coefficient else none) := by
  rw [listed?, List.find?_append, Option.map_or, ← listed?]
  cases joined : pair.joins first second <;> simp [joined]

/-- A pair in a list is listed. -/
theorem isSome_listed? {pairs : List (CorrelatedPair Float)} {pair : CorrelatedPair Float}
    (member : pair ∈ pairs) : (listed? pairs pair.first pair.second).isSome = true := by
  rw [listed?, Option.isSome_map, List.find?_isSome]
  exact ⟨pair, member, by simp [CorrelatedPair.joins]⟩

/-- A pair is taken up behind others without a contradiction. -/
def Continues (front : List (CorrelatedPair Float)) (pair : CorrelatedPair Float) : Prop :=
  (pair.first = pair.second → Close pair.coefficient 1.0) ∧
    (pair.first ≠ pair.second → ∀ earlier, listed? front pair.first pair.second = some earlier →
      Close earlier pair.coefficient)

theorem consistent_nil : Consistent [] := ⟨nofun, nofun⟩

theorem consistent_concat_iff {front : List (CorrelatedPair Float)} {pair : CorrelatedPair Float}
    (finite : pair.coefficient.isFinite = true) :
    Consistent (front ++ [pair]) ↔ Consistent front ∧ Continues front pair := by
  -- What a pair of the front is compared with stays the same.
  have kept {other : CorrelatedPair Float} (member : other ∈ front) :
      listed? (front ++ [pair]) other.first other.second =
        listed? front other.first other.second := by
    rw [listed?_concat, Option.or_of_isSome (isSome_listed? member)]
  have joins_self : pair.joins pair.first pair.second = true := by
    simp [CorrelatedPair.joins]
  constructor
  · rintro ⟨self, again⟩
    refine ⟨⟨fun other member => self other (List.mem_append_left _ member), ?_⟩,
      self pair (by simp), ?_⟩
    · intro other member different
      rw [← kept member]
      exact again other (List.mem_append_left _ member) different
    · intro different earlier listed
      refine again pair (by simp) different earlier ?_
      rw [listed?_concat, listed, Option.some_or]
  · rintro ⟨⟨self, again⟩, new_self, new_again⟩
    constructor
    · intro other member
      rcases List.mem_append.mp member with old | new
      · exact self other old
      · rw [List.mem_singleton.mp new]
        exact new_self
    · intro other member different earlier listed
      rcases List.mem_append.mp member with old | new
      · rw [kept old] at listed
        exact again other old different earlier listed
      · obtain rfl := List.mem_singleton.mp new
        rw [listed?_concat, joins_self, if_pos rfl] at listed
        cases front_eq : listed? front other.first other.second with
        | none =>
            rw [front_eq, Option.none_or, Option.some.injEq] at listed
            exact listed ▸ close_self finite
        | some first =>
            rw [front_eq, Option.some_or] at listed
            exact new_again different earlier (front_eq.trans listed)

/-- The pairs in front of others are consistent if all are. -/
theorem Consistent.of_append {front back : List (CorrelatedPair Float)}
    (finite : ∀ pair ∈ back, pair.coefficient.isFinite = true)
    (consistent : Consistent (front ++ back)) : Consistent front := by
  induction back using List.reverseRecOn with
  | nil => simpa using consistent
  | append_singleton back pair ih =>
      rw [← List.append_assoc, consistent_concat_iff (finite pair (by simp))] at consistent
      exact ih (fun other member => finite other (List.mem_append_left _ member)) consistent.1

/-! ## Positions -/

section Positions

variable {names : Vector String n} (injective : Function.Injective names.get)

include injective

theorem position_get (index : Fin n) :
    position (α := Float) names (names.get index) = .ok index := by
  have found : position? names (names.get index) = some index := by
    rw [position?]
    cases found : (List.finRange n).reverse.find? fun other =>
        names.get other = names.get index with
    | none =>
        rw [List.find?_eq_none] at found
        exact absurd (decide_eq_true rfl) (found index (by simp))
    | some other =>
        have get_eq : names.get other = names.get index := by simpa using List.find?_some found
        rw [injective get_eq]
  rw [position, found]

omit injective in
theorem ordered_eq_of_lt {first second : Fin n} (less : first < second) :
    ordered first second = (first, second) := if_pos less.le

omit injective in
theorem ordered_comm (first second : Fin n) : ordered first second = ordered second first := by
  rw [ordered, ordered]
  rcases lt_trichotomy first second with less | rfl | greater
  · rw [if_pos less.le, if_neg less.not_ge]
  · rfl
  · rw [if_neg greater.not_ge, if_pos greater.le]

theorem ordered_eq_iff {pair : CorrelatedPair Float} {first second : Fin n}
    (first_eq : pair.first = names.get first) (second_eq : pair.second = names.get second)
    (row column : Fin n) : ordered first second = ordered row column ↔
      pair.joins (names.get row) (names.get column) = true := by
  rw [CorrelatedPair.joins, first_eq, second_eq]
  simp only [Bool.or_eq_true, Bool.and_eq_true, decide_eq_true_eq, injective.eq_iff]
  simp only [ordered]
  split <;> split <;> simp only [Prod.mk.injEq] <;> grind

end Positions

/-! ## Assembly -/

/-- The coefficients assigned to positions are the first ones that pairs list for their names. -/
def Represents (names : Vector String n) (assigned : Assigned Float n)
    (pairs : List (CorrelatedPair Float)) : Prop :=
  ∀ row column, row ≠ column →
    assigned.find? (ordered row column) = listed? pairs (names.get row) (names.get column)

theorem represents_nil (names : Vector String n) : Represents names [] [] := fun _ _ _ => rfl

theorem find?_concat (assigned : Assigned Float n) (place other : Fin n × Fin n)
    (coefficient : Float) : Assigned.find? (assigned ++ [(place, coefficient)]) other =
      (assigned.find? other).or (if place = other then some coefficient else none) := by
  rw [Assigned.find?, List.find?_append, Option.map_or, ← Assigned.find?]
  by_cases same : place = other <;> simp [same]

section Assembly

variable {names : Vector String n} (injective : Function.Injective names.get)
  {assigned : Assigned Float n} {front : List (CorrelatedPair Float)}
  (represents : Represents names assigned front)

/-- What taking up one pair comes to: the first coefficients of the pairs up to it, or the report of
a contradiction. -/
inductive Takes (names : Vector String n) (front : List (CorrelatedPair Float))
    (pair : CorrelatedPair Float) :
    Except (CorrelationDefect Float) (Assigned Float n) → Prop
  | next {assigned : Assigned Float n} (continues : Continues front pair)
      (represents : Represents names assigned (front ++ [pair])) :
      Takes names front pair (.ok assigned)
  | defect {defect : CorrelationDefect Float} (found : PairDefect names front pair defect) :
      Takes names front pair (.error defect)

include injective represents

/-- A pair of a name with itself assigns nothing. -/
theorem takes_self {pair : CorrelatedPair Float} (finite : pair.coefficient.isFinite = true)
    {index : Fin n} (first_eq : pair.first = names.get index)
    (second_eq : pair.second = names.get index) :
    Takes names front pair (assign names assigned pair) := by
  rw [assign, first_eq, second_eq, position_get injective]
  simp only [bind, Except.bind, if_true]
  split
  · next far =>
    rw [tolerance_lt_iff finite rfl] at far
    exact .defect (.self index first_eq second_eq far)
  · next close =>
    rw [tolerance_lt_iff finite rfl, not_not] at close
    refine .next ⟨fun _ => close, fun different => ?_⟩ fun row column different => ?_
    · exact absurd (first_eq.trans second_eq.symm) different
    · have apart : pair.joins (names.get row) (names.get column) = false := by
        rw [CorrelatedPair.joins, first_eq, second_eq]
        simp only [injective.eq_iff]
        grind
      rw [represents row column different, listed?_concat, apart, if_neg Bool.false_ne_true,
        Option.or_none]

/-- A pair of two names assigns its coefficient, unless they have one already. -/
theorem takes_pair {pair : CorrelatedPair Float} (finite : pair.coefficient.isFinite = true)
    (front_finite : ∀ other ∈ front, other.coefficient.isFinite = true)
    {first second : Fin n} (different : first ≠ second) (first_eq : pair.first = names.get first)
    (second_eq : pair.second = names.get second) :
    Takes names front pair (assign names assigned pair) := by
  have names_ne : pair.first ≠ pair.second := by
    rw [first_eq, second_eq]
    exact injective.ne different
  have found_eq := represents first second different
  rw [← first_eq, ← second_eq] at found_eq
  rw [assign, first_eq, second_eq, position_get injective, position_get injective]
  simp only [bind, Except.bind, if_neg different, found_eq]
  cases listed : listed? front pair.first pair.second with
  | none =>
      refine .next ⟨fun same => absurd same names_ne, fun _ earlier found => ?_⟩
        fun row column apart => ?_
      · rw [listed] at found
        cases found
      · rw [find?_concat, represents row column apart, listed?_concat]
        simp only [ordered_eq_iff injective first_eq second_eq]
  | some earlier =>
      have earlier_finite : earlier.isFinite = true := by
        obtain ⟨other, found, rfl⟩ := Option.map_eq_some_iff.mp listed
        exact front_finite other (List.mem_of_find?_eq_some found)
      dsimp only
      split
      · next far =>
        rw [tolerance_lt_iff earlier_finite finite] at far
        change Takes names front pair (.error (.conflicting (names.get (ordered first second).1)
          (names.get (ordered first second).2) earlier pair.coefficient))
        rcases lt_or_gt_of_ne different with less | greater
        · rw [ordered_eq_of_lt less]
          refine .defect (.conflict first second less ?_ ?_ far)
          · exact (ordered_eq_iff injective first_eq second_eq _ _).mp rfl
          · rw [← first_eq, ← second_eq, listed]
        · rw [ordered_comm, ordered_eq_of_lt greater]
          refine .defect (.conflict second first greater ?_ ?_ far)
          · exact (ordered_eq_iff injective first_eq second_eq _ _).mp (ordered_comm _ _)
          · rw [← first_eq, ← second_eq, listed?_comm, listed]
      · next close =>
        rw [tolerance_lt_iff earlier_finite finite, not_not] at close
        refine .next ⟨fun same => absurd same names_ne, fun _ other found => ?_⟩
          fun row column apart => ?_
        · rw [listed, Option.some.injEq] at found
          exact found ▸ close
        · rw [represents row column apart, listed?_concat]
          cases joins : pair.joins (names.get row) (names.get column) with
          | false => simp
          | true =>
              rw [← represents row column apart,
                ← (ordered_eq_iff injective first_eq second_eq row column).mpr joins, found_eq,
                listed, Option.some_or]

theorem takes_assign {pair : CorrelatedPair Float} (finite : pair.coefficient.isFinite = true)
    (front_finite : ∀ other ∈ front, other.coefficient.isFinite = true)
    (known : ∃ first second, names.get first = pair.first ∧ names.get second = pair.second) :
    Takes names front pair (assign names assigned pair) := by
  obtain ⟨first, second, first_eq, second_eq⟩ := known
  by_cases same : first = second
  · exact takes_self injective represents finite first_eq.symm (same ▸ second_eq.symm)
  · exact takes_pair injective represents finite front_finite same first_eq.symm second_eq.symm

end Assembly

section Pairs

variable {names : Vector String n}

/-- What taking up all pairs comes to: their first coefficients, or the report of the first
contradiction. -/
inductive Assembles (names : Vector String n) (pairs : List (CorrelatedPair Float)) :
    Except (CorrelationDefect Float) (Assigned Float n) → Prop
  | whole {assigned : Assigned Float n} (consistent : Consistent pairs)
      (represents : Represents names assigned pairs) : Assembles names pairs (.ok assigned)
  | defect {front back : List (CorrelatedPair Float)} {pair : CorrelatedPair Float}
      {defect : CorrelationDefect Float} (pairs_eq : pairs = front ++ pair :: back)
      (consistent : Consistent front) (found : PairDefect names front pair defect) :
      Assembles names pairs (.error defect)

/-- From the pairs that have been taken up the others are taken up one by one. -/
theorem assembles_foldlM (injective : Function.Injective names.get)
    (rest : List (CorrelatedPair Float)) {front : List (CorrelatedPair Float)}
    {assigned : Assigned Float n} (represents : Represents names assigned front)
    (consistent : Consistent front)
    (finite : ∀ pair ∈ front ++ rest, pair.coefficient.isFinite = true)
    (known : ∀ pair ∈ rest,
      ∃ first second, names.get first = pair.first ∧ names.get second = pair.second) :
    Assembles names (front ++ rest) (rest.foldlM (assign names) assigned) := by
  induction rest generalizing front assigned with
  | nil =>
      rw [List.append_nil]
      exact .whole consistent represents
  | cons pair rest ih =>
      have pair_finite := finite pair (by simp)
      have takes := takes_assign injective represents pair_finite
        (fun other member => finite other (List.mem_append_left _ member))
        (known pair List.mem_cons_self)
      rw [List.foldlM_cons]
      cases assign_eq : assign names assigned pair with
      | error defect =>
          rw [assign_eq] at takes
          cases takes with
          | defect found => exact .defect rfl consistent found
      | ok next =>
          rw [assign_eq] at takes
          cases takes with
          | next continues next_represents =>
              rw [List.append_cons] at finite ⊢
              exact ih next_represents ((consistent_concat_iff pair_finite).mpr
                ⟨consistent, continues⟩) finite
                fun other member => known other (List.mem_cons_of_mem _ member)

theorem PairDefect.not_continues (injective : Function.Injective names.get)
    {front : List (CorrelatedPair Float)} {pair : CorrelatedPair Float}
    {defect : CorrelationDefect Float} (found : PairDefect names front pair defect) :
    ¬Continues front pair := by
  rintro ⟨self, again⟩
  cases found with
  | self index first_eq second_eq far => exact far (self (first_eq.trans second_eq.symm))
  | conflict low high less joins listed far =>
      have apart : names.get low ≠ names.get high := injective.ne less.ne
      simp only [CorrelatedPair.joins, Bool.or_eq_true, Bool.and_eq_true,
        decide_eq_true_eq] at joins
      rcases joins with ⟨first_eq, second_eq⟩ | ⟨first_eq, second_eq⟩
      · rw [first_eq, second_eq] at again
        exact far (again apart _ listed)
      · rw [first_eq, second_eq] at again
        exact far (again apart.symm _ (listed?_comm front _ _ ▸ listed))

/-- The pairs are assembled exactly where they do not contradict one another. -/
theorem Assembles.isOk_iff {pairs : List (CorrelatedPair Float)}
    {outcome : Except (CorrelationDefect Float) (Assigned Float n)}
    (assembles : Assembles names pairs outcome) (injective : Function.Injective names.get)
    (finite : ∀ pair ∈ pairs, pair.coefficient.isFinite = true) :
    (∃ assigned, outcome = .ok assigned) ↔ Consistent pairs := by
  cases assembles with
  | whole consistent represents => exact iff_of_true ⟨_, rfl⟩ consistent
  | @defect front back pair _ pairs_eq _ found =>
      refine iff_of_false nofun fun consistent => found.not_continues injective ?_
      rw [pairs_eq, List.append_cons] at consistent
      have upTo : Consistent (front ++ [pair]) := consistent.of_append fun other member =>
        finite other (by simp [pairs_eq, member])
      exact ((consistent_concat_iff (finite pair (by simp [pairs_eq]))).mp upTo).2

end Pairs

/-! ## Correlations of a model -/

section Models

variable {model : Model}

theorem map_fst_stochasticParameters (model : Model) : model.stochasticParameters.map Prod.fst =
    (model.parameters.filter Parameter.isStochastic).map Parameter.name := by
  rw [Model.stochasticParameters]
  induction model.parameters with
  | nil => rfl
  | cons parameter rest ih =>
      cases value_eq : parameter.value <;>
        simpa [Parameter.isStochastic, Parameter.marginal?, value_eq] using ih

theorem toList_stochasticNames (model : Model) : (stochasticNames model).toList =
    (model.parameters.filter Parameter.isStochastic).map Parameter.name := by
  rw [← map_fst_stochasticParameters, stochasticNames, Vector.toList_ofFn]
  exact List.ofFn_getElem_eq_map _ _

theorem injective_stochasticNames (distinct : (model.parameters.map Parameter.name).Nodup) :
    Function.Injective (stochasticNames model).get := by
  rw [← List.nodup_ofFn, ← toList_eq_ofFn_get, toList_stochasticNames]
  exact distinct.sublist (List.filter_sublist.map _)

theorem exists_position_of_isDrawn {name : String} (drawn : IsDrawn model name) :
    ∃ index, (stochasticNames model).get index = name := by
  obtain ⟨parameter, member, name_eq, stochastic⟩ := drawn
  have name_mem : name ∈ (stochasticNames model).toList := by
    rw [toList_stochasticNames]
    exact List.mem_map.mpr ⟨parameter, List.mem_filter.mpr ⟨member, stochastic⟩, name_eq⟩
  obtain ⟨index, inside, get_eq⟩ := List.getElem_of_mem name_mem
  rw [Vector.length_toList] at inside
  exact ⟨⟨index, inside⟩, by simpa [Vector.get_eq_getElem] using get_eq⟩

theorem isDrawn_of_mem_listing (drawn : ∀ name ∈ references model, IsDrawn model name)
    {pair : CorrelatedPair Float} (member : pair ∈ listing model) :
    IsDrawn model pair.first ∧ IsDrawn model pair.second := by
  rcases List.mem_append.mp member with own | inline
  · obtain ⟨spec, spec_mem, rfl⟩ := List.mem_map.mp own
    have referred {name : String} (name_mem : name ∈ [spec.first, spec.second]) :
        IsDrawn model name :=
      drawn name (List.mem_append_left _ (List.mem_flatMap.mpr ⟨spec, spec_mem, name_mem⟩))
    exact ⟨referred (by simp), referred (by simp)⟩
  · obtain ⟨parameter, parameter_mem, listed⟩ := List.mem_flatMap.mp inline
    obtain ⟨partner, partner_mem, rfl⟩ := List.mem_map.mp listed
    refine ⟨⟨parameter, parameter_mem, rfl, ?_⟩, drawn partner.parameter ?_⟩
    · cases value_eq : parameter.value with
      | literal value =>
          rw [Parameter.partners, value_eq] at partner_mem
          cases partner_mem
      | distribution => rw [Parameter.isStochastic, value_eq]
    · exact List.mem_append_right _ (List.mem_flatMap.mpr
        ⟨parameter, parameter_mem, List.mem_map.mpr ⟨partner, partner_mem, rfl⟩⟩)

/-- A matrix carries the correlations that a model declares: of every pair the coefficient that is
listed first, and zero where no pair is listed. -/
structure Carries (matrix : SquareMatrix Float model.stochasticParameters.length) : Prop where
  symmetric : ∀ row column, matrix.entry row column = matrix.entry column row
  diagonal : ∀ index, matrix.entry index index = 1.0
  entry_eq : ∀ row column, row ≠ column → matrix.entry row column =
    (listed? (listing model) ((stochasticNames model).get row)
      ((stochasticNames model).get column)).getD 0.0

/-- What is reported of the correlations of a model: the first reference to a name that is not
drawn, or else the first pair that contradicts what stands in front of it. -/
inductive FirstDefect (model : Model) : CorrelationDefect Float → Prop
  | reference {front back : List String} {name : String} {defect : CorrelationDefect Float}
      (references_eq : references model = front ++ name :: back)
      (drawn : ∀ earlier ∈ front, IsDrawn model earlier)
      (found : ReferenceDefect model name defect) : FirstDefect model defect
  | pair {front back : List (CorrelatedPair Float)} {pair : CorrelatedPair Float}
      {defect : CorrelationDefect Float} (drawn : ∀ name ∈ references model, IsDrawn model name)
      (listing_eq : listing model = front ++ pair :: back) (consistent : Consistent front)
      (found : PairDefect (stochasticNames model) front pair defect) : FirstDefect model defect

theorem carries_matrixOf {assigned : Assigned Float model.stochasticParameters.length}
    (represents : Represents (stochasticNames model) assigned (listing model)) :
    Carries (matrixOf assigned) := by
  constructor
  · intro row column
    simp only [matrixOf, SquareMatrix.entry_ofEntries, ordered_comm row column,
      eq_comm (a := row)]
  · intro index
    simp [matrixOf]
  · intro row column different
    rw [← represents row column different, matrixOf, SquareMatrix.entry_ofEntries,
      if_neg different]

/-- What a reference that is not drawn comes to. -/
theorem ofModel_of_not_drawn (distinct : (model.parameters.map Parameter.name).Nodup)
    (some_not : ¬∀ name ∈ references model, IsDrawn model name) :
    ∃ defect, ofModel model = .error defect ∧ FirstDefect model defect := by
  rw [ofModel, declaredPairs_eq]
  cases checked : forM (references model) (checkReference model) with
  | ok _ =>
      refine absurd (fun name member => ?_) some_not
      exact (checkReference_eq_ok_iff distinct name).mp (forM_eq_ok_iff.mp checked name member)
  | error defect =>
      obtain ⟨front, name, back, references_eq, passed, failed⟩ := exists_of_forM_eq_error checked
      refine ⟨defect, rfl, .reference references_eq (fun earlier member => ?_)
        (referenceDefect_of_checkReference name failed)⟩
      exact (checkReference_eq_ok_iff distinct earlier).mp (passed earlier member)

/-- Where every reference is drawn, the listed pairs are assembled. -/
theorem ofModel_of_drawn (distinct : (model.parameters.map Parameter.name).Nodup)
    (drawn : ∀ name ∈ references model, IsDrawn model name) :
    ofModel model = ((listing model).foldlM (assign (stochasticNames model)) []).map matrixOf := by
  have checked : forM (references model) (checkReference model) = .ok () :=
    forM_eq_ok_iff.mpr fun name member =>
      (checkReference_eq_ok_iff distinct name).mpr (drawn name member)
  rw [ofModel, declaredPairs_eq, checked]
  cases assembled : (listing model).foldlM (assign (stochasticNames model)) [] <;>
    simp [ofPairs, assembled, bind, Except.bind, pure, Except.pure, Except.map]

/-- The correlations of a model are assembled exactly where every reference is drawn and no pair
contradicts another one.  The matrix then carries the coefficients that are listed first; otherwise
the first defect is reported. -/
theorem ofModel_carries_listing (distinct : (model.parameters.map Parameter.name).Nodup)
    (finite : ∀ pair ∈ listing model, pair.coefficient.isFinite = true) :
    (stochasticNames model).toList =
        (model.parameters.filter Parameter.isStochastic).map Parameter.name ∧
      ((∃ matrix, ofModel model = .ok matrix) ↔
        (∀ name ∈ references model, IsDrawn model name) ∧ Consistent (listing model)) ∧
      (∀ matrix, ofModel model = .ok matrix → Carries matrix) ∧
      ∀ defect, ofModel model = .error defect → FirstDefect model defect := by
  refine ⟨toList_stochasticNames model, ?_⟩
  by_cases drawn : ∀ name ∈ references model, IsDrawn model name
  · have injective := injective_stochasticNames distinct
    have assembles : Assembles (stochasticNames model) (listing model)
        ((listing model).foldlM (assign (stochasticNames model)) []) := by
      refine assembles_foldlM injective (listing model) (represents_nil _) consistent_nil finite
        fun pair member => ?_
      obtain ⟨first_drawn, second_drawn⟩ := isDrawn_of_mem_listing drawn member
      obtain ⟨first, first_eq⟩ := exists_position_of_isDrawn first_drawn
      obtain ⟨second, second_eq⟩ := exists_position_of_isDrawn second_drawn
      exact ⟨first, second, first_eq, second_eq⟩
    have isOk_iff := assembles.isOk_iff injective finite
    rw [ofModel_of_drawn distinct drawn, ← isOk_iff, and_iff_right drawn]
    cases assembled : (listing model).foldlM (assign (stochasticNames model)) [] with
    | error defect =>
        rw [assembled] at assembles
        refine ⟨iff_of_false nofun nofun, nofun, fun reported same => ?_⟩
        cases same
        cases assembles with
        | defect pairs_eq consistent found => exact .pair drawn pairs_eq consistent found
    | ok assigned =>
        rw [assembled] at assembles
        refine ⟨iff_of_true ⟨_, rfl⟩ ⟨_, rfl⟩, fun matrix same => ?_, nofun⟩
        cases same
        cases assembles with
        | whole _ represents => exact carries_matrixOf represents
  · obtain ⟨defect, failed, first⟩ := ofModel_of_not_drawn distinct drawn
    rw [failed]
    refine ⟨iff_of_false nofun fun both => drawn both.1, nofun, fun reported same => ?_⟩
    cases same
    exact first

end Models

/-- A model of three parameters, one of which is given.  The correlation of the other two is
declared twice, the second time in the other order. -/
def repeatingModel (coefficient again : Float) : Model :=
  { Model.blank "repeating" 1 with
    parameters := [⟨"price", none, .distribution (.normal 0.0 1.0) none [⟨"demand", again⟩]⟩,
      ⟨"tax", none, .literal (.number 0.2)⟩,
      ⟨"demand", none, .distribution (.normal 0.0 1.0) none []⟩]
    correlations := [⟨"demand", "price", coefficient⟩, ⟨"price", "price", 1.0⟩] }

theorem listing_repeatingModel (coefficient again : Float) :
    listing (repeatingModel coefficient again) =
      [⟨"demand", "price", coefficient⟩, ⟨"price", "price", 1.0⟩, ⟨"price", "demand", again⟩] := rfl

theorem references_repeatingModel (coefficient again : Float) :
    references (repeatingModel coefficient again) =
      ["demand", "price", "price", "price", "demand"] := rfl

/-- The coefficient stands at both places of the pair that is declared twice. -/
theorem ofModel_carries_listing_repeating :
    ((repeatingModel 0.5 0.5).parameters.map Parameter.name).Nodup ∧
      (∀ pair ∈ listing (repeatingModel 0.5 0.5), pair.coefficient.isFinite = true) ∧
      ∃ matrix, ofModel (repeatingModel 0.5 0.5) = .ok matrix ∧
        ∀ row column, matrix.entry row column = if row = column then 1.0 else 0.5 := by
  have distinct : ((repeatingModel 0.5 0.5).parameters.map Parameter.name).Nodup := by
    decide +kernel
  have finite : ∀ pair ∈ listing (repeatingModel 0.5 0.5), pair.coefficient.isFinite = true := by
    rw [listing_repeatingModel]
    decide +kernel
  refine ⟨distinct, finite, ?_⟩
  obtain ⟨-, isOk_iff, carries, -⟩ := ofModel_carries_listing distinct finite
  have drawn : ∀ name ∈ references (repeatingModel 0.5 0.5),
      IsDrawn (repeatingModel 0.5 0.5) name := by
    rw [references_repeatingModel]
    unfold IsDrawn
    decide +kernel
  have consistent : Consistent (listing (repeatingModel 0.5 0.5)) := by
    rw [listing_repeatingModel]
    constructor
    · unfold Close
      decide +kernel
    · unfold Close
      decide +kernel
  obtain ⟨matrix, assembled⟩ := isOk_iff.mpr ⟨drawn, consistent⟩
  refine ⟨matrix, assembled, fun row column => ?_⟩
  split
  · next same => rw [same, (carries matrix assembled).diagonal]
  · next different =>
    have listed : ∀ row column : Fin 2, row ≠ column →
        listed? (listing (repeatingModel 0.5 0.5))
          ((stochasticNames (repeatingModel 0.5 0.5)).get row)
          ((stochasticNames (repeatingModel 0.5 0.5)).get column) = some 0.5 := by
      decide +kernel
    rw [(carries matrix assembled).entry_eq row column different, listed row column different]
    rfl

end Correlation

end EconModel
