import EconModel.PolicyRun
import EconModel.Proofs.Evaluation.Extension
import EconModel.Proofs.Log

/-!
# What policies keep

Running policies is a long sequence of five kinds of changes: a mark or a failure is recorded, a
firing is recorded, an event is recorded, a slot is written.  The rule `PolicySetting.run_kept` says
that a property of effects that each of them keeps is kept by the whole run;
`PolicySetting.perform_kept` says it for a single action.  A write or an event comes from an action
of a policy that has fired, and its values from the expressions of that action.
`PolicySetting.Effected` collects what follows: only open slots change, and every record belongs to
the timestep.
-/

namespace EconModel

namespace Action

/-- Induction over actions, where every member of a block has the property. -/
@[induction_eliminator]
theorem inductionOn {motive : Action → Prop}
    (assign : ∀ target value, motive (.assign target value))
    (block : ∀ actions, (∀ action ∈ actions, motive action) → motive (.block actions))
    (emit : ∀ name arguments, motive (.emit name arguments)) :
    ∀ action, motive action
  | .assign target value => assign target value
  | .block actions => block actions fun action _ => inductionOn assign block emit action
  | .emit name arguments => emit name arguments

theorem mem_nodesOfAll_iff (actions : List Action) (node : Action) :
    node ∈ nodesOfAll actions ↔ ∃ action ∈ actions, node ∈ action.nodes := by
  induction actions with
  | nil => simp [nodesOfAll]
  | cons action rest ih => simp [nodesOfAll, ih]

theorem mem_nodes_block {actions : List Action} {action node : Action} (member : action ∈ actions)
    (node_mem : node ∈ action.nodes) : node ∈ (block actions).nodes := by
  rw [nodes, List.mem_cons, mem_nodesOfAll_iff]
  exact .inr ⟨action, member, node_mem⟩

end Action

namespace PolicySetting

variable {setting : PolicySetting} {policies : List Policy} {holds : PolicyEffect → Prop}

/-- The firing of a policy as it is recorded. -/
def firing (setting : PolicySetting) (policy : Policy) : PolicyFiring :=
  ⟨policy.name, setting.stamp⟩

/-! ## The rule for an action -/

/-- A property of effects is kept by everything that is done while an action of a policy is
performed. -/
structure KeptBy (setting : PolicySetting) (policy : String) (action : Action)
    (holds : PolicyEffect → Prop) : Prop where
  /-- The mark of an evaluation is recorded. -/
  mark : ∀ {effect : PolicyEffect} (divided : Bool), holds effect →
    holds (effect.diagnose (Diagnostic.ofMark divided setting.stamp (Policy.location policy)))
  /-- An event is emitted with what its arguments evaluate to. -/
  emit : ∀ {effect : PolicyEffect} {name : String} {arguments : Bindings Expr}
    {values : Bindings Value}, .emit name arguments ∈ action.nodes →
      ((setting.context effect.state).evalArguments arguments).result = .ok values →
        holds effect → holds (effect.emit ⟨name, values, setting.stamp, policy⟩)
  /-- What the expression of an assignment evaluates to is written. -/
  write : ∀ {effect : PolicyEffect} {target : String} {expr : Expr} {value : Value}
    {state : SimulationState}, .assign target expr ∈ action.nodes →
      ((setting.context effect.state).evalFinite expr).result = .ok value →
        effect.state.setCurrent target value = .ok state → holds effect →
          holds { effect with state }

theorem settle_eq_ok {α : Type} {policy : String} {evaluation : Evaluation α} {value : α}
    {effect after : PolicyEffect}
    (settled : setting.settle policy evaluation effect = (.ok value, after)) :
    evaluation.result = .ok value ∧ after.state = effect.state ∧
      after.log.firings = effect.log.firings := by
  unfold settle at settled
  split at settled
  · cases settled
  · next found =>
    cases settled
    exact ⟨found, rfl, rfl⟩

theorem settle_eq_error {α : Type} {policy : String} {evaluation : Evaluation α} {error : EvalError}
    {effect after : PolicyEffect}
    (settled : setting.settle policy evaluation effect = (.error error, after)) :
    evaluation.result = .error error := by
  unfold settle at settled
  split at settled
  · next failed =>
    cases settled
    exact failed
  · cases settled

/-- What every member of a block keeps is kept by its members one after another. -/
theorem performAll_kept (holds : PolicyEffect → Prop) {policy : String} {depth : Nat}
    (rest : List Action) {effect : PolicyEffect} (start : holds effect)
    (each : ∀ action ∈ rest, ∀ {effect : PolicyEffect}, holds effect →
      holds (setting.perform policy depth action effect).2) :
    holds (setting.performAll policy depth rest effect).2 := by
  induction rest generalizing effect with
  | nil => exact start
  | cons action rest ih =>
      have action_kept := each action List.mem_cons_self start
      rw [performAll]
      split
      · next after performed =>
        rw [performed] at action_kept
        exact ih action_kept fun other other_mem =>
          each other (List.mem_cons_of_mem action other_mem)
      · next error after performed =>
        rw [performed] at action_kept
        exact action_kept

section Perform

variable {policy : String} {whole : Action} (kept : KeptBy setting policy whole holds)

include kept

private theorem settle_kept {α : Type} (evaluation : Evaluation α) {effect : PolicyEffect}
    (start : holds effect) : holds (setting.settle policy evaluation effect).2 := by
  unfold settle
  split
  · exact start
  · exact kept.mark _ start

private theorem assign_kept {target : String} {value : Expr}
    (node : .assign target value ∈ whole.nodes) {effect : PolicyEffect} (start : holds effect) :
    holds (setting.assign policy target value effect).2 := by
  have settled_kept := settle_kept kept ((setting.context effect.state).evalFinite value) start
  unfold assign
  split
  · next error after settled =>
    rw [settled] at settled_kept
    exact settled_kept
  · next result after settled =>
    obtain ⟨found, state_eq, _⟩ := settle_eq_ok settled
    rw [settled] at settled_kept
    rw [← state_eq] at found
    split
    · exact settled_kept
    · next state written => exact kept.write node found written settled_kept

private theorem emit_kept {name : String} {arguments : Bindings Expr}
    (node : .emit name arguments ∈ whole.nodes) {effect : PolicyEffect} (start : holds effect) :
    holds (setting.emit policy name arguments effect).2 := by
  have settled_kept :=
    settle_kept kept ((setting.context effect.state).evalArguments arguments) start
  unfold emit
  split
  · next error after settled =>
    rw [settled] at settled_kept
    exact settled_kept
  · next values after settled =>
    obtain ⟨found, state_eq, _⟩ := settle_eq_ok settled
    rw [settled] at settled_kept
    rw [← state_eq] at found
    exact kept.emit node found settled_kept

/-- The rule holds for every action within the one that the policy has. -/
theorem perform_kept (action : Action) (depth : Nat)
    (nodes : ∀ node ∈ action.nodes, node ∈ whole.nodes) {effect : PolicyEffect}
    (start : holds effect) : holds (setting.perform policy depth action effect).2 := by
  induction action generalizing depth effect with
  | assign target value => exact assign_kept kept (nodes _ (by simp [Action.nodes])) start
  | emit name arguments => exact emit_kept kept (nodes _ (by simp [Action.nodes])) start
  | block actions ih =>
      rw [perform]
      split
      · exact start
      · apply performAll_kept holds actions start
        intro action action_mem effect action_start
        exact ih action action_mem (depth + 1)
          (fun node node_mem => nodes node (Action.mem_nodes_block action_mem node_mem))
          action_start

end Perform

/-! ## The rule for policies -/

/-- A property of effects is kept by everything that policies do. -/
structure Kept (setting : PolicySetting) (policies : List Policy) (holds : PolicyEffect → Prop) :
    Prop where
  /-- The mark of an evaluation is recorded. -/
  mark : ∀ {effect : PolicyEffect} (divided : Bool) (location : String), holds effect →
    holds (effect.diagnose (Diagnostic.ofMark divided setting.stamp location))
  /-- The failure of a policy is recorded. -/
  failed : ∀ {effect : PolicyEffect} {policy : Policy} (reason : String), policy ∈ policies →
    holds effect → holds (effect.diagnose [.policyFailed setting.stamp policy.name reason])
  /-- A policy fires. -/
  fire : ∀ {effect : PolicyEffect} {policy : Policy}, policy ∈ policies → holds effect →
    holds (effect.fire (setting.firing policy))
  /-- A policy that has fired emits an event with what its arguments evaluate to. -/
  emit : ∀ {effect : PolicyEffect} {policy : Policy} {name : String} {arguments : Bindings Expr}
    {values : Bindings Value}, policy ∈ policies → setting.firing policy ∈ effect.log.firings →
      .emit name arguments ∈ policy.action.nodes →
        ((setting.context effect.state).evalArguments arguments).result = .ok values →
          holds effect → holds (effect.emit ⟨name, values, setting.stamp, policy.name⟩)
  /-- A policy that has fired writes what the expression of an assignment evaluates to. -/
  write : ∀ {effect : PolicyEffect} {policy : Policy} {target : String} {expr : Expr}
    {value : Value} {state : SimulationState}, policy ∈ policies →
      setting.firing policy ∈ effect.log.firings → .assign target expr ∈ policy.action.nodes →
        ((setting.context effect.state).evalFinite expr).result = .ok value →
          effect.state.setCurrent target value = .ok state → holds effect →
            holds { effect with state }

/-- While a policy is performed, it is known that it has fired. -/
theorem Kept.keptBy (kept : Kept setting policies holds) {policy : Policy}
    (member : policy ∈ policies) : KeptBy setting policy.name policy.action
      fun effect => holds effect ∧ setting.firing policy ∈ effect.log.firings where
  mark divided start := ⟨kept.mark divided _ start.1, start.2⟩
  emit node found start := ⟨kept.emit member start.2 node found start.1, start.2⟩
  write node found written start :=
    ⟨kept.write member start.2 node found written start.1, start.2⟩

theorem runOne_kept (kept : Kept setting policies holds) {policy : Policy}
    (member : policy ∈ policies) {effect : PolicyEffect} (start : holds effect) :
    holds (setting.runOne effect policy) := by
  have settled_kept :
      holds (setting.settle policy.name
        ((setting.context effect.state).evalBoolean policy.trigger) effect).2 := by
    unfold settle
    split
    · exact start
    · exact kept.mark _ _ start
  unfold runOne
  dsimp only
  split
  · next error after settled =>
    rw [settled] at settled_kept
    exact kept.failed _ member settled_kept
  · next after settled =>
    rw [settled] at settled_kept
    exact settled_kept
  · next after settled =>
    rw [settled] at settled_kept
    have fired : setting.firing policy ∈ (after.fire (setting.firing policy)).log.firings :=
      List.mem_append_right _ (List.mem_singleton_self _)
    have performed_kept := perform_kept (kept.keptBy member) policy.action 0 (fun _ node => node)
      ⟨kept.fire member settled_kept, fired⟩
    split
    · next performed =>
      change setting.perform policy.name 0 policy.action (after.fire (setting.firing policy)) = _
        at performed
      rw [performed] at performed_kept
      exact performed_kept.1
    · next performed =>
      change setting.perform policy.name 0 policy.action (after.fire (setting.firing policy)) = _
        at performed
      rw [performed] at performed_kept
      exact kept.failed _ member performed_kept.1

/-- The rule holds for every part of the policies. -/
theorem foldl_kept (kept : Kept setting policies holds) {rest : List Policy}
    (rest_mem : ∀ policy ∈ rest, policy ∈ policies) {effect : PolicyEffect}
    (start : holds effect) : holds (rest.foldl setting.runOne effect) := by
  induction rest generalizing effect with
  | nil => exact start
  | cons policy rest ih =>
      exact ih (fun other other_mem => rest_mem other (List.mem_cons_of_mem policy other_mem))
        (runOne_kept kept (rest_mem policy List.mem_cons_self) start)

/-- What everything that policies do keeps holds after they have run. -/
theorem run_kept (kept : Kept setting policies holds) {state : SimulationState}
    (start : holds ⟨state, .empty⟩) : holds (setting.run policies state) :=
  foldl_kept kept (fun _ member => member) start

/-! ## The effect of policies -/

/-- A policy that assigns to a variable has fired. -/
def Assigned (setting : PolicySetting) (policies : List Policy) (firings : List PolicyFiring)
    (name : String) : Prop :=
  ∃ policy ∈ policies, setting.firing policy ∈ firings ∧
    ∃ value, .assign name value ∈ policy.action.nodes

theorem Assigned.mono {firings firings' : List PolicyFiring} {name : String}
    (assigned : Assigned setting policies firings name)
    (subset : ∀ firing ∈ firings, firing ∈ firings') :
    Assigned setting policies firings' name := by
  obtain ⟨policy, member, fired, node⟩ := assigned
  exact ⟨policy, member, subset _ fired, node⟩

/-- What has been done to an open state, and what has been recorded. -/
structure Effected (setting : PolicySetting) (policies : List Policy) (base : SimulationState)
    (effect : PolicyEffect) : Prop where
  /-- Only open slots have changed. -/
  overwrites : base.Overwrites effect.state setting.timestep
  /-- A slot that has changed was assigned a value by a policy. -/
  slot : ∀ name, effect.state.valueAt? name setting.timestep =
      base.valueAt? name setting.timestep ∨
    Assigned setting policies effect.log.firings name ∧
      ∃ state expr value, ((setting.context state).evalFinite expr).result = .ok value ∧
        effect.state.valueAt? name setting.timestep = some value
  violations_eq : effect.log.violations = []
  events : ∀ event ∈ effect.log.events, event.timestep = setting.stamp
  firings : ∀ firing ∈ effect.log.firings, firing.timestep = setting.stamp
  /-- Diagnostics are marks of the timestep or failures of policies. -/
  diagnostics : ∀ diagnostic ∈ effect.log.diagnostics,
    (∃ location, diagnostic = .divisionByZero setting.stamp location) ∨
      ∃ policy reason, diagnostic = .policyFailed setting.stamp policy reason

variable {base : SimulationState}

theorem kept_effected (opened : base.OpenAt setting.timestep) :
    Kept setting policies (Effected setting policies base) where
  mark := by
    intro effect divided location effected
    refine { effected with diagnostics := ?_ }
    intro diagnostic member
    rcases List.mem_append.mp member with earlier | new
    · exact effected.diagnostics diagnostic earlier
    · exact .inl ⟨location, ((Diagnostic.mem_ofMark_iff _ _ _ _).mp new).2⟩
  failed := by
    intro effect policy reason _ effected
    refine { effected with diagnostics := ?_ }
    intro diagnostic member
    rcases List.mem_append.mp member with earlier | new
    · exact effected.diagnostics diagnostic earlier
    · exact .inr ⟨policy.name, reason, List.mem_singleton.mp new⟩
  fire := by
    intro effect policy _ effected
    refine { effected with slot := ?_, firings := ?_ }
    · intro name
      refine (effected.slot name).imp_right fun ⟨assigned, written⟩ => ⟨?_, written⟩
      exact assigned.mono fun _ earlier => List.mem_append_left _ earlier
    · intro firing member
      rcases List.mem_append.mp member with earlier | new
      · exact effected.firings firing earlier
      · rw [List.mem_singleton.mp new]
        rfl
  emit := by
    intro effect policy name arguments values _ _ _ _ effected
    refine { effected with events := ?_ }
    intro event member
    rcases List.mem_append.mp member with earlier | new
    · exact effected.events event earlier
    · rw [List.mem_singleton.mp new]
  write := by
    intro effect policy target expr value state member fired node found written effected
    have effect_open := effected.overwrites.openAt opened
    refine { effected with overwrites := ?_, slot := ?_ }
    · exact effected.overwrites.trans (.of_setCurrent effect_open written)
    · intro name
      rw [SimulationState.valueAt?_setCurrent effect_open written]
      split
      · next here =>
        obtain ⟨rfl, _⟩ := here
        exact .inr ⟨⟨policy, member, fired, expr, node⟩, effect.state, expr, value, found, rfl⟩
      · exact effected.slot name

/-- Policies write open slots, and record what belongs to the timestep. -/
theorem effected_run (opened : base.OpenAt setting.timestep) :
    Effected setting policies base (setting.run policies base) := by
  apply run_kept (kept_effected opened)
  refine ⟨.refl _ _, fun _ => .inl rfl, rfl, ?_, ?_, ?_⟩ <;>
    exact fun _ member => (List.not_mem_nil member).elim

/-! ## Policies in contexts that read alike -/

/-- Two effects have states that read alike and the same log. -/
structure SameEffect (left right : PolicyEffect) : Prop where
  states : left.state.SameSeries right.state
  log_eq : left.log = right.log

/-- Two results are the same, and so are the effects that come with them. -/
inductive SameResult {α : Type} :
    Except EvalError α × PolicyEffect → Except EvalError α × PolicyEffect → Prop where
  /-- The effects are the same. -/
  | intro {result : Except EvalError α} {effect effect' : PolicyEffect} :
      SameEffect effect effect' → SameResult (result, effect) (result, effect')

/-- Two settings read alike. -/
structure SameSetting (left right : PolicySetting) : Prop where
  environment : Context.SameEnvironment left.environment right.environment
  timestep_eq : left.timestep = right.timestep
  blockLimit_eq : left.blockLimit = right.blockLimit

namespace SameEffect

variable {left right : PolicyEffect}

theorem diagnose (same : SameEffect left right) (diagnostics : List Diagnostic) :
    SameEffect (left.diagnose diagnostics) (right.diagnose diagnostics) :=
  ⟨same.states, by rw [PolicyEffect.diagnose, PolicyEffect.diagnose, same.log_eq]⟩

theorem emit (same : SameEffect left right) (event : EmittedEvent) :
    SameEffect (left.emit event) (right.emit event) :=
  ⟨same.states, by rw [PolicyEffect.emit, PolicyEffect.emit, same.log_eq]⟩

theorem fire (same : SameEffect left right) (firing : PolicyFiring) :
    SameEffect (left.fire firing) (right.fire firing) :=
  ⟨same.states, by rw [PolicyEffect.fire, PolicyEffect.fire, same.log_eq]⟩

end SameEffect

namespace SameSetting

variable {left right : PolicySetting} {effect effect' : PolicyEffect}

theorem stamp_eq (same : SameSetting left right) : left.stamp = right.stamp := by
  rw [stamp, stamp, same.timestep_eq]

theorem context_sameReading (same : SameSetting left right) (effects : SameEffect effect effect') :
    (left.context effect.state).SameReading (right.context effect'.state) := by
  rw [context, context, same.timestep_eq]
  exact .of_environment same.environment effects.states.series _

theorem evalArguments_eq (same : SameSetting left right) (effects : SameEffect effect effect')
    (arguments : Bindings Expr) : (left.context effect.state).evalArguments arguments =
      (right.context effect'.state).evalArguments arguments := by
  have each : (left.context effect.state).evalFinite = (right.context effect'.state).evalFinite :=
    funext (same.context_sameReading effects).evalFinite_eq
  rw [Context.evalArguments, Context.evalArguments, each]

theorem settle (same : SameSetting left right) (effects : SameEffect effect effect') {α : Type}
    (policy : String) (evaluation : Evaluation α) :
    SameResult (left.settle policy evaluation effect) (right.settle policy evaluation effect') := by
  unfold PolicySetting.settle
  rw [same.stamp_eq]
  cases evaluation.result with
  | error error => exact .intro effects
  | ok value => exact .intro (effects.diagnose _)

theorem assign (same : SameSetting left right) (effects : SameEffect effect effect')
    (policy target : String) (value : Expr) :
    SameResult (left.assign policy target value effect)
      (right.assign policy target value effect') := by
  have settled := same.settle effects policy ((left.context effect.state).evalFinite value)
  unfold PolicySetting.assign
  rw [← (same.context_sameReading effects).evalFinite_eq value]
  generalize left.settle policy _ effect = first at settled ⊢
  generalize right.settle policy _ effect' = second at settled ⊢
  obtain @⟨result, after, after', after_same⟩ := settled
  cases result with
  | error error => exact .intro after_same
  | ok found =>
      rcases after_same.states.setCurrent target found with
        ⟨error, failed, failed'⟩ | ⟨next, next', written, written', next_same⟩
      · simp only [failed, failed']
        exact .intro after_same
      · simp only [written, written']
        exact .intro ⟨next_same, after_same.log_eq⟩

theorem emit (same : SameSetting left right) (effects : SameEffect effect effect')
    (policy name : String) (arguments : Bindings Expr) :
    SameResult (left.emit policy name arguments effect)
      (right.emit policy name arguments effect') := by
  have settled := same.settle effects policy
    ((left.context effect.state).evalArguments arguments)
  unfold PolicySetting.emit
  rw [← same.evalArguments_eq effects arguments, same.stamp_eq]
  generalize left.settle policy _ effect = first at settled ⊢
  generalize right.settle policy _ effect' = second at settled ⊢
  obtain @⟨result, after, after', after_same⟩ := settled
  cases result with
  | error error => exact .intro after_same
  | ok values => exact .intro (after_same.emit _)

theorem perform (same : SameSetting left right) (policy : String) (action : Action) (depth : Nat)
    (effects : SameEffect effect effect') :
    SameResult (left.perform policy depth action effect)
      (right.perform policy depth action effect') := by
  induction action generalizing depth effect effect' with
  | assign target value => exact same.assign effects policy target value
  | emit name arguments => exact same.emit effects policy name arguments
  | block actions ih =>
      have performAll (rest : List Action) (rest_mem : ∀ action ∈ rest, action ∈ actions)
          {effect effect' : PolicyEffect} (effects : SameEffect effect effect') :
          SameResult (left.performAll policy (depth + 1) rest effect)
            (right.performAll policy (depth + 1) rest effect') := by
        induction rest generalizing effect effect' with
        | nil => exact .intro effects
        | cons action rest ih_rest =>
            have performed := ih action (rest_mem action List.mem_cons_self) (depth + 1) effects
            rw [PolicySetting.performAll, PolicySetting.performAll]
            generalize left.perform policy (depth + 1) action effect = first at performed ⊢
            generalize right.perform policy (depth + 1) action effect' = second at performed ⊢
            obtain @⟨result, after, after', after_same⟩ := performed
            cases result with
            | error error => exact .intro after_same
            | ok _ =>
                exact ih_rest (fun other other_mem =>
                  rest_mem other (List.mem_cons_of_mem action other_mem)) after_same
      rw [PolicySetting.perform, PolicySetting.perform, same.blockLimit_eq]
      split
      · exact .intro effects
      · exact performAll actions (fun _ member => member) effects

theorem runOne (same : SameSetting left right) (policy : Policy)
    (effects : SameEffect effect effect') :
    SameEffect (left.runOne effect policy) (right.runOne effect' policy) := by
  have settled := same.settle effects policy.name
    ((left.context effect.state).evalBoolean policy.trigger)
  unfold PolicySetting.runOne
  dsimp only
  rw [← (same.context_sameReading effects).evalBoolean_eq policy.trigger, same.stamp_eq]
  generalize left.settle policy.name _ effect = first at settled ⊢
  generalize right.settle policy.name _ effect' = second at settled ⊢
  obtain @⟨result, after, after', after_same⟩ := settled
  cases result with
  | error error => exact after_same.diagnose _
  | ok fires =>
      cases fires with
      | false => exact after_same
      | true =>
          have performed := same.perform policy.name policy.action 0
            (after_same.fire ⟨policy.name, right.stamp⟩)
          dsimp only
          generalize left.perform policy.name 0 policy.action _ = first at performed ⊢
          generalize right.perform policy.name 0 policy.action _ = second at performed ⊢
          obtain @⟨result, final, final', final_same⟩ := performed
          cases result with
          | error error => exact final_same.diagnose _
          | ok _ => exact final_same

/-- Policies do the same in states that read alike. -/
theorem run (same : SameSetting left right) (policies : List Policy)
    {state state' : SimulationState} (states : state.SameSeries state') :
    SameEffect (left.run policies state) (right.run policies state') := by
  have foldl_same {effect effect' : PolicyEffect} (effects : SameEffect effect effect') :
      SameEffect (policies.foldl left.runOne effect) (policies.foldl right.runOne effect') := by
    induction policies generalizing effect effect' with
    | nil => exact effects
    | cons policy rest ih => exact ih (same.runOne policy effects)
  exact foldl_same ⟨states, rfl⟩

end SameSetting

end PolicySetting

end EconModel
