import FogFlow.Master.Expansion

namespace FogFlow.Master

open Ngsi Datamodel Loop

variable {marshal : GroupValue → String} {type : String → String}

-- the hash of a group, which no order of the loop over it changes
def groupHash (marshal : GroupValue → String) (g : GroupInfo) : String :=
  getHash marshal (fun _ => 0) g

theorem getHash_eq (rank : String → Nat) (g : GroupInfo) :
    getHash marshal rank g = groupHash marshal g :=
  getHash_congr (fun _ => rfl) _ _

def NoCollision (marshal : GroupValue → String) (subscriptions : GoMap InputSubscription) :
    Prop :=
  ∀ g g', Combination subscriptions g → Combination subscriptions g' →
    groupHash marshal g = groupHash marshal g' → SameGroup g g'

-- one task for each combination of the received entities
structure ProductPlan (marshal : GroupValue → String) (flow : FogFlow) : Prop where
  waiting : ¬ Available flow.subscriptions → ∀ h, flow.executionPlan.get h = none
  keys : Available flow.subscriptions → ∀ h, flow.executionPlan.get h ≠ none ↔
    ∃ g, Combination flow.subscriptions g ∧ groupHash marshal g = h
  inputs : ∀ g task, Combination flow.subscriptions g →
    flow.executionPlan.get (groupHash marshal g) = some task →
      ExactInputs flow.subscriptions g task.inputs

-- each planned task carries its key in its id, and its deployment is known
structure Deployed (flow : FogFlow) : Prop where
  key : ∀ h task, flow.executionPlan.get h = some task → lastItem task.taskID = h
  deployed : ∀ h task, flow.executionPlan.get h = some task →
    flow.deploymentPlan.get task.taskID ≠ none

-- the plan before the loop, as the loop over the groups needs it
structure Expandable (marshal : GroupValue → String) (flow : FogFlow) : Prop extends
    Deployed flow where
  known : ∀ h task, flow.executionPlan.get h = some task →
    ∃ c, Combination flow.subscriptions c ∧ groupHash marshal c = h ∧
      (task.inputs.map InputEntity.id).Nodup ∧
      ∀ id ∈ task.inputs.map InputEntity.id, Matching flow.subscriptions c id

def AddsTask (actions : Actions) (taskID : String) : Prop :=
  ∃ taskInstance, some (.addTask taskInstance) ∈ actions ∧ taskInstance.id = taskID

-- each planned task stands under its key and has been deployed or is added by the actions
structure Prepared (flow : FogFlow) (state : FogFlow × Actions) : Prop where
  frame : PlanOnly flow state.1
  key : ∀ h task, state.1.executionPlan.get h = some task → lastItem task.taskID = h
  actions : ∀ a ∈ state.2, ∃ action, a = some action ∧ ∀ taskInstance,
    action = .addTask taskInstance →
      state.1.executionPlan.get (lastItem taskInstance.id) ≠ none
  deployed : ∀ h task, state.1.executionPlan.get h = some task →
    flow.deploymentPlan.get task.taskID ≠ none ∨ AddsTask state.2 task.taskID

theorem prepared_nil {flow : FogFlow} (h : Deployed flow) : Prepared flow (flow, []) :=
  ⟨.refl flow, h.key, by simp, fun k task hk => Or.inl (h.deployed k task hk)⟩

theorem Prepared.put {flow : FogFlow} {state : FogFlow × Actions} {hashID : String}
    {task : TaskConfig} {new : Actions} (h : Prepared flow state)
    (hkey : lastItem task.taskID = hashID) (hnew : ActionsFor task.taskID new)
    (hdep : flow.deploymentPlan.get task.taskID ≠ none ∨ AddsTask new task.taskID) :
    Prepared flow (state.1.putTask hashID task, state.2 ++ new) := by
  have hget : ∀ k, (state.1.putTask hashID task).executionPlan.get k =
      if k = hashID then some task else state.1.executionPlan.get k :=
    fun k => GoMap.get_set _ _ _ _
  constructor
  · exact h.frame.trans ⟨rfl, rfl, rfl, rfl⟩
  · intro k t hk
    rw [hget] at hk
    split_ifs at hk with he
    · rw [← Option.some.inj hk, hkey, he]
    · exact h.key k t hk
  · intro a ha
    rcases List.mem_append.mp ha with ha | ha
    · obtain ⟨action, rfl, hadd⟩ := h.actions a ha
      refine ⟨action, rfl, fun taskInstance hti => ?_⟩
      rw [hget]
      split_ifs
      · simp
      · exact hadd taskInstance hti
    · obtain ⟨action, rfl, hadd⟩ := hnew a ha
      refine ⟨action, rfl, fun taskInstance hti => ?_⟩
      rw [hget, hadd taskInstance hti, if_pos hkey]
      simp
  · intro k t hk
    rw [hget] at hk
    split_ifs at hk
    · obtain rfl := Option.some.inj hk
      refine hdep.imp id ?_
      rintro ⟨taskInstance, hmem, hid⟩
      exact ⟨taskInstance, List.mem_append_right _ hmem, hid⟩
    · refine (h.deployed k t hk).imp id ?_
      rintro ⟨taskInstance, hmem, hid⟩
      exact ⟨taskInstance, List.mem_append_left _ hmem, hid⟩

-- what holds of the flow and the actions once these groups have been visited
structure Expanded (marshal : GroupValue → String) (flow : FogFlow) (groups : List GroupInfo)
    (state : FogFlow × Actions) : Prop where
  frame : PlanOnly flow state.1
  done : ∀ g ∈ groups, ∃ task, state.1.executionPlan.get (groupHash marshal g) = some task ∧
    ExactInputs flow.subscriptions g task.inputs
  untouched : ∀ h, (∀ g ∈ groups, groupHash marshal g ≠ h) →
    state.1.executionPlan.get h = flow.executionPlan.get h
  key : ∀ h task, state.1.executionPlan.get h = some task → lastItem task.taskID = h
  actions : ∀ a ∈ state.2, ∃ action, a = some action ∧ ∀ taskInstance,
    action = .addTask taskInstance →
      state.1.executionPlan.get (lastItem taskInstance.id) ≠ none
  deployed : ∀ h task, state.1.executionPlan.get h = some task →
    flow.deploymentPlan.get task.taskID ≠ none ∨ AddsTask state.2 task.taskID

theorem expanded_nil {flow : FogFlow} (h : Expandable marshal flow) :
    Expanded marshal flow [] (flow, []) :=
  have hp := prepared_nil h.toDeployed
  ⟨hp.frame, by simp, fun _ _ => rfl, hp.key, hp.actions, hp.deployed⟩

theorem Expanded.prepared {flow : FogFlow} {groups : List GroupInfo} {state : FogFlow × Actions}
    (h : Expanded marshal flow groups state) : Prepared flow state :=
  ⟨h.frame, h.key, h.actions, h.deployed⟩

-- one more group is visited: its task is put under its hash, with these new actions
theorem expanded_put {flow : FogFlow} {groups : List GroupInfo} {state : FogFlow × Actions}
    {g : GroupInfo} {task : TaskConfig} {new : Actions}
    (h : Expanded marshal flow groups state)
    (hfresh : ∀ g' ∈ groups, groupHash marshal g' ≠ groupHash marshal g)
    (hkey : lastItem task.taskID = groupHash marshal g)
    (hexact : ExactInputs flow.subscriptions g task.inputs)
    (hnew : ActionsFor task.taskID new)
    (hdep : flow.deploymentPlan.get task.taskID ≠ none ∨ AddsTask new task.taskID) :
    Expanded marshal flow (groups ++ [g])
      (state.1.putTask (groupHash marshal g) task, state.2 ++ new) := by
  have hget : ∀ k, (state.1.putTask (groupHash marshal g) task).executionPlan.get k =
      if k = groupHash marshal g then some task else state.1.executionPlan.get k :=
    fun k => GoMap.get_set _ _ _ _
  have hp := h.prepared.put hkey hnew hdep
  refine ⟨hp.frame, ?_, ?_, hp.key, hp.actions, hp.deployed⟩
  · intro g' hg'
    rcases List.mem_append.mp hg' with hg' | hg'
    · obtain ⟨old, hold, hin⟩ := h.done g' hg'
      exact ⟨old, by rw [hget, if_neg (hfresh g' hg'), hold], hin⟩
    · obtain rfl := List.mem_singleton.mp hg'
      exact ⟨task, by rw [hget, if_pos rfl], hexact⟩
  · intro k hk
    rw [hget, if_neg (fun he => hk g (by simp) he.symm)]
    exact h.untouched k (fun g' hg' => hk g' (List.mem_append_left _ hg'))

theorem exactInputs_merged {subscriptions : GoMap InputSubscription} {g c : GroupInfo}
    {task : TaskConfig} {actions : Actions} {entities : List InputEntity}
    {result : TaskConfig × Actions} (hs : SameGroup c g)
    (hold : ∀ id ∈ task.inputs.map InputEntity.id, Matching subscriptions c id)
    (hnew : ExactInputs subscriptions g entities)
    (h : MergedFrom task actions (entities.map InputEntity.id) result) :
    ExactInputs subscriptions g result.1.inputs := by
  refine ⟨h.nodup, fun entityID => ?_⟩
  rw [h.mem, hnew.2]
  exact ⟨fun hm => hm.elim (fun hin => (matching_congr hs _).mp (hold _ hin)) id, Or.inr⟩

theorem expanded_step {flow : FogFlow} {choices : Choices} {selector : InputStreamConfig}
    {groups : List GroupInfo} {state : FogFlow × Actions} {g : GroupInfo} (i : Nat)
    (hs : Streams flow.subscriptions) (ht : Typed type flow.subscriptions)
    (hno : NoCollision marshal flow.subscriptions) (hexp : Expandable marshal flow)
    (hbt : selector.isSimpleByType = false) (hg : Combination flow.subscriptions g)
    (hgroups : ∀ g' ∈ groups, Combination flow.subscriptions g' ∧ ¬ SameGroup g' g)
    (h : Expanded marshal flow groups state) :
    ∃ next, expandGroup marshal choices selector state (g, i) = .ok next ∧
      Expanded marshal flow (groups ++ [g]) next := by
  have hfresh : ∀ g' ∈ groups, groupHash marshal g' ≠ groupHash marshal g :=
    fun g' hg' he => (hgroups g' hg').2 (hno g' g (hgroups g' hg').1 hg he)
  have hplan := h.untouched (groupHash marshal g) hfresh
  obtain ⟨entities, hsearch, hin⟩ := exactInputs_search hs ht
    (fun k other hk => (hg.value k other hk).imp (fun v hv => hv.1)) (choices.subRank i)
    (choices.regRank i)
  unfold expandGroup
  simp only [h.frame.subscriptions, hsearch, ok_bind, getHash_eq, hplan, h.frame.intent]
  cases hget : flow.executionPlan.get (groupHash marshal g) with
  | none =>
    have hkey : lastItem (newTask flow.intent (groupHash marshal g) entities
        (generateOutputs marshal flow.intent (fun j => choices.hashRank i (j + 1)) g)).taskID =
        groupHash marshal g := lastItem_taskID flow.intent (fun _ => 0) g entities _
    exact ⟨_, rfl, expanded_put h hfresh hkey hin (by simp [ActionsFor, addNewTask])
      (Or.inr ⟨_, List.mem_singleton_self _, rfl⟩)⟩
  | some task =>
    obtain ⟨c, hc, hhash, hnd, hold⟩ := hexp.known _ _ hget
    have hdep := hexp.deployed _ _ hget
    have hdep' : state.1.deploymentPlan.get task.taskID ≠ none := by
      rwa [h.frame.deploymentPlan]
    have hmerge : ∃ result, entities.zipIdx.foldlM (mergeInput state.1 selector
        (choices.workerSelection i)) (task, state.2) = .ok result ∧
        MergedFrom task state.2 (entities.map InputEntity.id) result :=
      mergedFrom_mergeInputs state.2 entities hbt hdep' hnd
    obtain ⟨result, hres, hmerged⟩ := hmerge
    obtain ⟨new, hnew, hfor⟩ := hmerged.actions
    simp only [hres, ok_bind, hnew]
    refine ⟨_, rfl, expanded_put h hfresh ?_
      (exactInputs_merged (hno c g hc hg hhash) hold hin hmerged) (hmerged.taskID ▸ hfor)
      (Or.inl (hmerged.taskID ▸ hdep))⟩
    rw [hmerged.taskID]
    exact hexp.key _ _ hget

end FogFlow.Master
