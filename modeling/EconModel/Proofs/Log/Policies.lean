import EconModel.Proofs.Log.Order
import EconModel.Proofs.PolicyRun

/-!
# The order in which policies record

A policy fires once at most, its events come after its firing, and it fails once at most.  Policies
record one after the other; so if their names are distinct, what they record together is in order.
-/

namespace EconModel

namespace PolicyEffect

variable (effect : PolicyEffect)

theorem log_diagnose (diagnostics : List Diagnostic) :
    (effect.diagnose diagnostics).log = effect.log ++ .ofDiagnostics diagnostics := by
  change _ = Log.append _ _
  simp [diagnose, Log.append, Log.ofDiagnostics]

theorem log_emit (event : EmittedEvent) :
    (effect.emit event).log = effect.log ++ ⟨[], [event], [], []⟩ := by
  change _ = Log.append _ _
  simp [emit, Log.append]

theorem log_fire (firing : PolicyFiring) :
    (effect.fire firing).log = effect.log ++ ⟨[], [], [firing], []⟩ := by
  change _ = Log.append _ _
  simp [fire, Log.append]

end PolicyEffect

namespace PolicySetting

variable {setting : PolicySetting} {policy : Policy} {firings : List PolicyFiring}
  {subjects : List Subject} {model : Model}

/-! ## One policy -/

/-- A log consists of firings and events of a policy, of marks and of diagnostics about given
subjects. -/
structure Notes (setting : PolicySetting) (policy : Policy) (firings : List PolicyFiring)
    (subjects : List Subject) (log : Log) : Prop where
  violations_eq : log.violations = []
  firings_eq : log.firings = firings
  /-- Events come from the policy, which has fired. -/
  events : ∀ event ∈ log.events, event.timestep = setting.stamp ∧ event.policy = policy.name ∧
    setting.firing policy ∈ firings
  diagnostics : ∀ diagnostic ∈ log.diagnostics, diagnostic.timestep = setting.stamp
  subjects_eq : log.diagnostics.filterMap Diagnostic.subject? = subjects

namespace Notes

variable {log : Log}

theorem empty (setting : PolicySetting) (policy : Policy) : setting.Notes policy [] [] .empty where
  violations_eq := rfl
  firings_eq := rfl
  events _ member := (List.not_mem_nil member).elim
  diagnostics _ member := (List.not_mem_nil member).elim
  subjects_eq := rfl

theorem diagnose (notes : setting.Notes policy firings subjects log) {diagnostics : List Diagnostic}
    (belong : ∀ diagnostic ∈ diagnostics, diagnostic.timestep = setting.stamp) :
    setting.Notes policy firings (subjects ++ diagnostics.filterMap Diagnostic.subject?)
      (log ++ .ofDiagnostics diagnostics) where
  violations_eq := by rw [Log.violations_append, notes.violations_eq]; rfl
  firings_eq := by rw [Log.firings_append, notes.firings_eq]; exact List.append_nil _
  events event member := by
    rw [Log.events_append, Log.events_ofDiagnostics, List.append_nil] at member
    exact notes.events event member
  diagnostics diagnostic member :=
    (List.mem_append.mp member).elim (notes.diagnostics diagnostic) (belong diagnostic)
  subjects_eq := by
    rw [Log.diagnostics_append, List.filterMap_append, notes.subjects_eq,
      Log.diagnostics_ofDiagnostics]

theorem mark (notes : setting.Notes policy firings subjects log) (divided : Bool)
    (location : String) : setting.Notes policy firings subjects
      (log ++ .ofDiagnostics (Diagnostic.ofMark divided setting.stamp location)) := by
  have belong : ∀ diagnostic ∈ Diagnostic.ofMark divided setting.stamp location,
      diagnostic.timestep = setting.stamp := by
    intro diagnostic member
    rw [((Diagnostic.mem_ofMark_iff _ _ _ _).mp member).2]
    rfl
  have marked := notes.diagnose belong
  rwa [Diagnostic.filterMap_subject?_ofMark, List.append_nil] at marked

theorem emit (notes : setting.Notes policy firings subjects log)
    (fired : setting.firing policy ∈ firings) (name : String) (values : Bindings Value) :
    setting.Notes policy firings subjects
      (log ++ ⟨[], [⟨name, values, setting.stamp, policy.name⟩], [], []⟩) where
  violations_eq := (List.append_nil _).trans notes.violations_eq
  firings_eq := (List.append_nil _).trans notes.firings_eq
  events event member := by
    rcases List.mem_append.mp member with earlier | new
    · exact notes.events event earlier
    · rw [List.mem_singleton.mp new]
      exact ⟨rfl, rfl, fired⟩
  diagnostics diagnostic member := notes.diagnostics diagnostic (by simpa using member)
  subjects_eq := by rw [Log.diagnostics_append, List.append_nil, notes.subjects_eq]

theorem fire (notes : setting.Notes policy firings subjects log) :
    setting.Notes policy (firings ++ [setting.firing policy]) subjects
      (log ++ ⟨[], [], [setting.firing policy], []⟩) where
  violations_eq := (List.append_nil _).trans notes.violations_eq
  firings_eq := by rw [Log.firings_append, notes.firings_eq]
  events event member := by
    obtain ⟨timestep_eq, policy_eq, fired⟩ := notes.events event (by simpa using member)
    exact ⟨timestep_eq, policy_eq, List.mem_append_left _ fired⟩
  diagnostics diagnostic member := notes.diagnostics diagnostic (by simpa using member)
  subjects_eq := by rw [Log.diagnostics_append, List.append_nil, notes.subjects_eq]

end Notes

/-- What an effect records beyond a log are firings and events of a policy, marks and diagnostics
about given subjects. -/
def Adds (setting : PolicySetting) (policy : Policy) (base : Log) (firings : List PolicyFiring)
    (subjects : List Subject) (effect : PolicyEffect) : Prop :=
  ∃ log, effect.log = base ++ log ∧ setting.Notes policy firings subjects log

namespace Adds

variable {base : Log} {effect : PolicyEffect}

theorem start (setting : PolicySetting) (policy : Policy) (effect : PolicyEffect) :
    setting.Adds policy effect.log [] [] effect :=
  ⟨.empty, (Log.append_empty _).symm, .empty setting policy⟩

theorem mark (adds : setting.Adds policy base firings subjects effect) (divided : Bool)
    (location : String) : setting.Adds policy base firings subjects
      (effect.diagnose (Diagnostic.ofMark divided setting.stamp location)) := by
  obtain ⟨log, log_eq, notes⟩ := adds
  exact ⟨_, by rw [PolicyEffect.log_diagnose, log_eq, Log.append_assoc],
    notes.mark divided location⟩

theorem fail (adds : setting.Adds policy base firings [] effect) (reason : String) :
    setting.Adds policy base firings [.policy setting.stamp policy.name]
      (effect.diagnose [.policyFailed setting.stamp policy.name reason]) := by
  obtain ⟨log, log_eq, notes⟩ := adds
  have belong : ∀ diagnostic ∈ [Diagnostic.policyFailed setting.stamp policy.name reason],
      diagnostic.timestep = setting.stamp := by
    intro diagnostic member
    rw [List.mem_singleton.mp member]
    rfl
  exact ⟨_, by rw [PolicyEffect.log_diagnose, log_eq, Log.append_assoc], notes.diagnose belong⟩

theorem fire (adds : setting.Adds policy base [] subjects effect) :
    setting.Adds policy base [setting.firing policy] subjects
      (effect.fire (setting.firing policy)) := by
  obtain ⟨log, log_eq, notes⟩ := adds
  exact ⟨_, by rw [PolicyEffect.log_fire, log_eq, Log.append_assoc], notes.fire⟩

/-- The action of a policy that has fired adds events and marks. -/
theorem perform (adds : setting.Adds policy base [setting.firing policy] [] effect) :
    setting.Adds policy base [setting.firing policy] []
      (setting.perform policy.name 0 policy.action effect).2 := by
  have kept : KeptBy setting policy.name policy.action
      (setting.Adds policy base [setting.firing policy] []) := by
    constructor
    · exact fun divided adds => adds.mark divided _
    · intro effect name arguments values _ _ adds
      obtain ⟨log, log_eq, notes⟩ := adds
      exact ⟨_, by rw [PolicyEffect.log_emit, log_eq, Log.append_assoc],
        notes.emit (List.mem_singleton_self _) name values⟩
    · intro effect target expr value state _ _ _ adds
      exact adds
  exact perform_kept kept policy.action 0 (fun _ node => node) adds

end Adds

/-- A policy fires and fails once at most. -/
theorem exists_adds_runOne (setting : PolicySetting) (policy : Policy) (effect : PolicyEffect) :
    ∃ firings subjects, firings.Sublist [setting.firing policy] ∧
      subjects.Sublist [.policy setting.stamp policy.name] ∧
        setting.Adds policy effect.log firings subjects (setting.runOne effect policy) := by
  have settled_adds : setting.Adds policy effect.log [] []
      (setting.settle policy.name
        ((setting.context effect.state).evalBoolean policy.trigger) effect).2 := by
    unfold settle
    split
    · exact .start setting policy effect
    · exact (Adds.start setting policy effect).mark _ _
  unfold runOne
  dsimp only
  split
  · next error after settled =>
    rw [settled] at settled_adds
    exact ⟨[], _, List.nil_sublist _, .refl _, settled_adds.fail _⟩
  · next after settled =>
    rw [settled] at settled_adds
    exact ⟨[], [], List.nil_sublist _, List.nil_sublist _, settled_adds⟩
  · next after settled =>
    rw [settled] at settled_adds
    have performed_adds := settled_adds.fire.perform
    change setting.Adds policy effect.log [setting.firing policy] []
      (setting.perform policy.name 0 policy.action (after.fire ⟨policy.name, setting.stamp⟩)).2
      at performed_adds
    split
    · next performed =>
      rw [performed] at performed_adds
      exact ⟨_, [], .refl _, List.nil_sublist _, performed_adds⟩
    · next performed =>
      rw [performed] at performed_adds
      exact ⟨_, _, .refl _, .refl _, performed_adds.fail _⟩

/-! ## Policies one after another -/

/-- A log records what policies with some names do. -/
structure Names (setting : PolicySetting) (names : List String) (log : Log) : Prop where
  within : log.Within (· = setting.stamp)
  violations_eq : log.violations = []
  firings : ∀ firing ∈ log.firings, firing.policy ∈ names
  events : ∀ event ∈ log.events, event.policy ∈ names
  subjects : ∀ subject ∈ log.subjects, ∃ name ∈ names, subject = .policy setting.stamp name

namespace Names

variable {names others : List String} {earlier later : Log}

theorem empty (setting : PolicySetting) : setting.Names [] .empty where
  within := Log.within_empty _
  violations_eq := rfl
  firings _ member := (List.not_mem_nil member).elim
  events _ member := (List.not_mem_nil member).elim
  subjects _ member := (List.not_mem_nil member).elim

theorem append (first : setting.Names names earlier) (second : setting.Names others later) :
    setting.Names (names ++ others) (earlier ++ later) where
  within := first.within.append second.within
  violations_eq := by
    rw [Log.violations_append, first.violations_eq, second.violations_eq]
    rfl
  firings firing member :=
    List.mem_append.mpr <|
      (List.mem_append.mp member).imp (first.firings firing) (second.firings firing)
  events event member :=
    List.mem_append.mpr <|
      (List.mem_append.mp member).imp (first.events event) (second.events event)
  subjects subject member := by
    rcases Log.mem_subjects_append_iff.mp member with here | there
    · obtain ⟨name, name_mem, subject_eq⟩ := first.subjects subject here
      exact ⟨name, List.mem_append_left _ name_mem, subject_eq⟩
    · obtain ⟨name, name_mem, subject_eq⟩ := second.subjects subject there
      exact ⟨name, List.mem_append_right _ name_mem, subject_eq⟩

/-- What policies do may stand before what later policies do. -/
theorem precedes (first : setting.Names names earlier) (second : setting.Names others later)
    (ahead : ∀ name ∈ names, ∀ other ∈ others,
      model.policyNames.idxOf name < model.policyNames.idxOf other) :
    Log.Precedes model earlier later where
  firings firing member other other_mem := by
    rw [Model.firingPlace, Model.firingPlace, first.within.firings firing member,
      second.within.firings other other_mem]
    exact recordPlace_lt_of_idxOf <|
      ahead _ (first.firings firing member) _ (second.firings other other_mem)
  events event member other other_mem := by
    rw [Model.eventPlace, Model.eventPlace, first.within.events event member,
      second.within.events other other_mem]
    exact le_of_lt <| recordPlace_lt_of_idxOf <|
      ahead _ (first.events event member) _ (second.events other other_mem)
  violations violation member := by
    rw [first.violations_eq] at member
    exact (List.not_mem_nil member).elim
  diagnostics diagnostic member other other_mem := by
    rw [first.within.diagnostics diagnostic member, second.within.diagnostics other other_mem]
  subjects subject member other_mem := by
    obtain ⟨name, name_mem, rfl⟩ := first.subjects subject member
    obtain ⟨other, other_name_mem, subject_eq⟩ := second.subjects _ other_mem
    cases subject_eq
    exact lt_irrefl _ (ahead name name_mem name other_name_mem)

end Names

namespace Notes

variable {log : Log} (notes : setting.Notes policy firings subjects log)
  (one_firing : firings.Sublist [setting.firing policy])
  (one_subject : subjects.Sublist [.policy setting.stamp policy.name])

include notes one_firing one_subject

theorem names : setting.Names [policy.name] log where
  within :=
    { violations := fun violation member => by
        rw [notes.violations_eq] at member
        exact (List.not_mem_nil member).elim
      events := fun event member => (notes.events event member).1
      firings := fun firing member => by
        rw [notes.firings_eq] at member
        rw [List.mem_singleton.mp (one_firing.subset member)]
        rfl
      diagnostics := notes.diagnostics }
  violations_eq := notes.violations_eq
  firings firing member := by
    rw [notes.firings_eq] at member
    rw [List.mem_singleton.mp (one_firing.subset member)]
    exact List.mem_singleton_self _
  events event member := List.mem_singleton.mpr (notes.events event member).2.1
  subjects subject member := by
    rw [Log.subjects, notes.violations_eq, notes.subjects_eq] at member
    exact ⟨_, List.mem_singleton_self _, List.mem_singleton.mp (one_subject.subset member)⟩

/-- What a single policy does is recorded in order. -/
theorem wellOrdered (declared : policy.name ∈ model.policyNames) : log.WellOrdered model where
  firings := by
    rw [notes.firings_eq]
    exact (List.pairwise_singleton _ _).sublist one_firing
  firing_declared firing member := by
    have of_policy := (notes.names one_firing one_subject).firings firing member
    rwa [List.mem_singleton.mp of_policy]
  events := by
    apply List.pairwise_of_forall_mem_list
    intro event member other other_mem
    obtain ⟨timestep_eq, policy_eq, _⟩ := notes.events event member
    obtain ⟨timestep_eq', policy_eq', _⟩ := notes.events other other_mem
    rw [Model.eventPlace, Model.eventPlace, timestep_eq, policy_eq, timestep_eq', policy_eq']
  event_fired event member := by
    obtain ⟨timestep_eq, policy_eq, fired⟩ := notes.events event member
    rw [notes.firings_eq, timestep_eq, policy_eq]
    exact fired
  violations := by
    rw [notes.violations_eq]
    exact .nil
  violation_declared violation member := by
    rw [notes.violations_eq] at member
    exact (List.not_mem_nil member).elim
  diagnostics := (notes.names one_firing one_subject).within.pairwise_diagnostics
  subjects := by
    rw [Log.subjects, notes.violations_eq, notes.subjects_eq]
    exact (List.nodup_singleton _).sublist one_subject

end Notes

/-- Policies with distinct names that run in the order of their declaration record in order. -/
theorem exists_log_foldl (setting : PolicySetting) (distinct : model.policyNames.Nodup)
    {rest : List Policy} (sublist : (rest.map Policy.name).Sublist model.policyNames)
    (effect : PolicyEffect) :
    ∃ log, (rest.foldl setting.runOne effect).log = effect.log ++ log ∧ log.WellOrdered model ∧
      setting.Names (rest.map Policy.name) log := by
  induction rest generalizing effect with
  | nil => exact ⟨.empty, (Log.append_empty _).symm, Log.wellOrdered_empty model, .empty setting⟩
  | cons policy rest ih =>
      obtain ⟨firings, subjects, one_firing, one_subject, first, first_eq, notes⟩ :=
        exists_adds_runOne setting policy effect
      obtain ⟨later, later_eq, ordered, names⟩ :=
        ih ((List.sublist_cons_self _ _).trans sublist) (setting.runOne effect policy)
      have declared : policy.name ∈ model.policyNames := sublist.subset List.mem_cons_self
      have ahead : ∀ name ∈ [policy.name], ∀ other ∈ rest.map Policy.name,
          model.policyNames.idxOf name < model.policyNames.idxOf other := by
        intro name name_mem other other_mem
        rw [List.mem_singleton.mp name_mem]
        exact List.rel_of_pairwise_cons ((pairwise_idxOf distinct).sublist sublist) other_mem
      have first_names := notes.names one_firing one_subject
      refine ⟨first ++ later, ?_, ?_, first_names.append names⟩
      · rw [List.foldl_cons, later_eq, first_eq, Log.append_assoc]
      · exact (notes.wellOrdered one_firing one_subject declared).append ordered
          (first_names.precedes names ahead)

/-- A run of all policies records in order. -/
theorem wellOrdered_run (setting : PolicySetting) (distinct : model.policyNames.Nodup)
    (state : SimulationState) :
    (setting.run model.policies state).log.WellOrdered model ∧
      setting.Names model.policyNames (setting.run model.policies state).log := by
  obtain ⟨log, log_eq, ordered, names⟩ :=
    exists_log_foldl setting distinct (.refl _) ⟨state, .empty⟩
  rw [Log.empty_append] at log_eq
  rw [run, log_eq]
  exact ⟨ordered, names⟩

end PolicySetting

end EconModel
