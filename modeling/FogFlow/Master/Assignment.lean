import FogFlow.Master.ActionLoop
import FogFlow.Master.Product

namespace FogFlow.Master

open Ngsi Datamodel Loop Execution

variable {marshal : GroupValue → String} {choices : Choices}

-- one event with the actions computed for it and the calls made for them
structure Handled where
  flow : FogFlow
  actions : Actions
  commands : List Command

def handle (marshal : GroupValue → String) (s : Handled) (e : Event) : Option Handled :=
  match metadataDrivenTaskOrchestration marshal e.choices s.flow e.subID e.entityAction
      e.registeredEntity with
  | .error _ => none
  | .ok orchestrated =>
    match runActions e.selectWorker 0 orchestrated.1 orchestrated.2 with
    | .error _ => none
    | .ok result => some ⟨result.1, orchestrated.2, result.2⟩

-- every action of the event is carried out and every planned task is deployed
structure Complete (s : Handled) : Prop where
  carried : List.Forall₂ CarriedOut s.actions s.commands
  deployed : ∀ h task, s.flow.executionPlan.get h = some task →
    s.flow.deploymentPlan.get task.taskID ≠ none

-- the groups that a creation or an update visits
def visitedGroups (flow : FogFlow) (e : Event) : Except Fault (List GroupInfo) :=
  match flow.subscriptions.get e.subID with
  | none => .ok []
  | some sub => do
      let updated := receive sub e.registeredEntity
      let entityID := receivedKey sub e.registeredEntity.id
      let uniqueKeys ← updateGroupedKeyValueTable flow.uniqueKeys updated entityID
      getRelevantGroups e.choices.keyRank uniqueKeys updated entityID

-- the loop over the actions finds a worker for every task, and no two groups of the event are
-- given the same new task
structure Assignable (marshal : GroupValue → String) (s : Handled) (e : Event) : Prop where
  answered : ∀ orchestrated, metadataDrivenTaskOrchestration marshal e.choices s.flow e.subID
      e.entityAction e.registeredEntity = .ok orchestrated →
    Answered e.selectWorker 0 orchestrated.1.executionPlan orchestrated.2
  distinct : e.entityAction ≠ .delete → ∀ groups, visitedGroups s.flow e = .ok groups →
    groups.Pairwise (fun g g' => groupHash marshal g = groupHash marshal g' →
      s.flow.executionPlan.get (groupHash marshal g) ≠ none)

def Sound : Option DeploymentAction → Prop
  | none => False
  | some (.removeTask _ workerID) => workerID ≠ ""
  | _ => True

theorem goEq_avoids (a b : ContextMetadata) : Avoids .nilDereference (a.goEq b) := by
  have hvalue : ∀ v w : Value, Avoids .nilDereference (v.goEq w) := by
    intro v w
    unfold Value.goEq
    split <;> simp [Avoids]
  unfold ContextMetadata.goEq
  split_ifs
  · exact avoids_ok _ _
  · exact avoids_ok _ _
  · refine avoids_bind (hvalue _ _) (fun sameValue _ => ?_)
    split_ifs
    · exact hvalue _ _
    · exact avoids_ok _ _

theorem groupValue_goEq_avoids (a b : GroupValue) : Avoids .nilDereference (a.goEq b) := by
  unfold GroupValue.goEq
  split
  · exact avoids_ok _ _
  · exact goEq_avoids _ _
  · exact avoids_ok _ _

theorem inList_avoids (value : GroupValue) (items : List GroupValue) :
    Avoids .nilDereference (inList value items) := by
  induction items with
  | nil => exact avoids_ok _ _
  | cons item items ih =>
    refine avoids_bind (groupValue_goEq_avoids _ _) (fun same _ => ?_)
    split_ifs
    · exact avoids_ok _ _
    · exact ih

theorem valueOf_avoids {sub : InputSubscription} {entityID : String}
    (h : sub.receivedEntityRegistrations.get entityID ≠ none) :
    Avoids .nilDereference (valueOf sub entityID) := by
  obtain ⟨r, hr⟩ := Option.ne_none_iff_exists'.mp h
  unfold valueOf
  split_ifs
  · exact avoids_ok _ _
  · rw [hr]
    exact avoids_ok _ _

theorem updateGroupedKeyValueTable_avoids {uniqueKeys : GoMap (List GroupValue)}
    {sub : InputSubscription} {entityID : String}
    (h : sub.receivedEntityRegistrations.get entityID ≠ none) :
    Avoids .nilDereference (updateGroupedKeyValueTable uniqueKeys sub entityID) := by
  refine avoids_bind (valueOf_avoids h) (fun value _ => ?_)
  split
  · split_ifs
    · exact avoids_ok _ _
    · exact avoids_bind (inList_avoids _ _) (fun _ _ => avoids_ok _ _)
  · exact avoids_ok _ _

theorem getRelevantGroups_avoids {keyRank : String → Nat} {uniqueKeys : GoMap (List GroupValue)}
    {sub : InputSubscription} {entityID : String}
    (h : sub.receivedEntityRegistrations.get entityID ≠ none) :
    Avoids .nilDereference (getRelevantGroups keyRank uniqueKeys sub entityID) :=
  avoids_bind (valueOf_avoids h) (fun _ _ => avoids_ok _ _)

theorem isMatched_avoids (r : EntityRegistration) (restrictions : GoMap GroupValue) :
    Avoids .nilDereference (isMatched r restrictions) := by
  refine foldlM_avoids (I := fun _ _ => True) trivial (fun _ e _ matched _ _ => ⟨?_, by simp⟩)
  split_ifs
  · exact avoids_ok _ _
  · exact avoids_bind (groupValue_goEq_avoids _ _) (fun _ _ => avoids_ok _ _)

theorem getLocation_avoids (r : EntityRegistration) : Avoids .nilDereference r.getLocation := by
  unfold EntityRegistration.getLocation
  split
  · split <;> simp [Avoids]
  · exact avoids_ok _ _

theorem searchReceived_avoids (selector : InputStreamConfig) (group : GroupInfo)
    (entities : List InputEntity) (r : EntityRegistration) :
    Avoids .nilDereference (searchReceived selector group entities r) := by
  refine avoids_bind (isMatched_avoids _ _) (fun matched _ => ?_)
  split_ifs
  · exact avoids_ok _ _
  · exact avoids_bind (getLocation_avoids _) (fun _ _ => avoids_ok _ _)
  · exact avoids_ok _ _

theorem searchRelevantEntities_avoids (subscriptions : GoMap InputSubscription)
    (group : GroupInfo) (subRank : String → Nat) (regRank : String → String → Nat) :
    Avoids .nilDereference (searchRelevantEntities subscriptions group subRank regRank) := by
  refine foldlM_avoids (I := fun _ _ => True) trivial
    (fun _ inputSub _ entities _ _ => ⟨?_, by simp⟩)
  exact foldlM_avoids (I := fun _ _ => True) trivial
    (fun _ r _ entities _ _ => ⟨searchReceived_avoids _ _ _ _, by simp⟩)

section Merging

variable {flow : FogFlow} {selector : InputStreamConfig}
  {workerSelection : Nat → List Point → String}

theorem mergeInput_avoids {state : TaskConfig × Actions} (entity : InputEntity × Nat)
    (hd : flow.deploymentPlan.get state.1.taskID ≠ none) :
    Avoids .nilDereference (mergeInput flow selector workerSelection state entity) := by
  have htotal : ∃ result new, mergeInput flow selector workerSelection (state.1, state.2) entity =
      .ok result ∧ result.2 = state.2 ++ new ∧ ActionsFor state.1.taskID new :=
    mergeInput_total entity hd
  obtain ⟨result, -, h, -⟩ := htotal
  rw [show (state.1, state.2) = state from rfl] at h
  rw [h]
  exact avoids_ok _ _

theorem sound_mergeStep {task : TaskConfig} {actions : Actions} {entity : InputEntity}
    {next : TaskConfig × Actions} (hd : flow.deploymentPlan.get task.taskID ≠ none)
    (hnamed : ∀ id scheduled, flow.deploymentPlan.get id = some scheduled →
      scheduled.workerID ≠ "")
    (hs : ∀ a ∈ actions, Sound a) (h : MergeStep flow selector task actions entity next) :
    next.1.taskID = task.taskID ∧ ∀ a ∈ next.2, Sound a := by
  cases h with
  | added deployed hisNew hdeployed =>
    refine ⟨rfl, fun a ha => ?_⟩
    rcases List.mem_append.mp ha with ha | ha
    · exact hs a ha
    · obtain rfl := List.mem_singleton.mp ha
      trivial
  | kept hisNew => exact ⟨rfl, hs⟩
  | migrated workerID hisNew hmoved hworker =>
    refine ⟨rfl, fun a ha => ?_⟩
    rw [List.mem_append, List.mem_append, List.mem_singleton] at ha
    rcases ha with (ha | ha) | rfl
    · exact hs a ha
    · obtain ⟨scheduled, hscheduled⟩ := Option.ne_none_iff_exists'.mp hd
      simp only [removeTaskAction, removeExistingTask, hscheduled, Option.map_some] at ha
      split_ifs at ha
      · obtain rfl := List.mem_singleton.mp ha
        exact hnamed _ scheduled hscheduled
      · exact absurd ha List.not_mem_nil
    · trivial

theorem mergeInputs_sound {task : TaskConfig} {actions : Actions} {entities : List InputEntity}
    (hd : flow.deploymentPlan.get task.taskID ≠ none)
    (hnamed : ∀ id scheduled, flow.deploymentPlan.get id = some scheduled →
      scheduled.workerID ≠ "") (hs : ∀ a ∈ actions, Sound a) :
    Avoids .nilDereference (entities.zipIdx.foldlM (mergeInput flow selector workerSelection)
        (task, actions)) ∧
      ∀ result, entities.zipIdx.foldlM (mergeInput flow selector workerSelection)
        (task, actions) = .ok result → ∀ a ∈ result.2, Sound a := by
  let I : List (InputEntity × Nat) → TaskConfig × Actions → Prop := fun _ state =>
    state.1.taskID = task.taskID ∧ ∀ a ∈ state.2, Sound a
  have hinit : I [] (task, actions) := ⟨rfl, hs⟩
  have hnext : ∀ (done : List (InputEntity × Nat)) entity rest acc, entities.zipIdx =
      done ++ entity :: rest → I done acc →
      Avoids .nilDereference (mergeInput flow selector workerSelection acc entity) ∧
      ∀ next, mergeInput flow selector workerSelection acc entity = .ok next →
        I (done ++ [entity]) next := by
    intro done entity rest acc _ hI
    have hacc : flow.deploymentPlan.get acc.1.taskID ≠ none := hI.1 ▸ hd
    refine ⟨mergeInput_avoids entity hacc, fun next hmerge => ?_⟩
    have hsound := sound_mergeStep hacc hnamed hI.2 (mergeInput_cases hmerge)
    exact ⟨hsound.1.trans hI.1, hsound.2⟩
  refine ⟨foldlM_avoids hinit hnext, fun result hresult => ?_⟩
  exact (foldlM_invariant (I := I) hresult hinit
    (fun done entity rest acc next hsplit hI h =>
      (hnext done entity rest acc hsplit hI).2 next h)).2

end Merging

-- what the loop over the actions needs of a flow that was ready before the event
structure Schedulable (flow : FogFlow) (state : FogFlow × Actions) : Prop where
  deploymentPlan : state.1.deploymentPlan = flow.deploymentPlan
  key : ∀ h task, state.1.executionPlan.get h = some task → lastItem task.taskID = h
  deployed : ∀ h task, state.1.executionPlan.get h = some task → task.taskID ∉ adds state.2 →
    ∃ scheduled, flow.deploymentPlan.get task.taskID = some scheduled ∧
      scheduled.workerID = task.workerID ∧ task.workerID ≠ ""
  sound : ∀ a ∈ state.2, Sound a
  added : ∀ id ∈ adds state.2, state.1.executionPlan.get (lastItem id) ≠ none

theorem Schedulable.executable {flow : FogFlow} {state : FogFlow × Actions}
    (h : Schedulable flow state) : ∀ a ∈ state.2, Executable state.1.executionPlan a := by
  intro a ha
  have hsound := h.sound a ha
  match a with
  | none => exact hsound
  | some (.addTask taskInstance) => exact h.added _ (mem_adds.mpr ⟨taskInstance, ha, rfl⟩)
  | some (.removeTask _ _) => exact hsound
  | some (.addInput _) | some (.removeInput _ _ _) => trivial

theorem schedulable_unchanged {flow next : FogFlow} (hr : Ready flow)
    (hplan : next.executionPlan = flow.executionPlan)
    (hdep : next.deploymentPlan = flow.deploymentPlan) : Schedulable flow (next, []) where
  deploymentPlan := hdep
  key := hplan ▸ hr.key
  deployed := fun h task hk _ => hr.deployed h task (hplan ▸ hk)
  sound := by simp
  added := by simp [adds]

theorem ready_of_schedulable {flow : FogFlow} {state : FogFlow × Actions} (hr : Ready flow)
    {selectWorker : Nat → List Point → String} (h : Schedulable flow state)
    (hans : Answered selectWorker 0 state.1.executionPlan state.2) :
    ∃ next commands, runActions selectWorker 0 state.1 state.2 = .ok (next, commands) ∧
      Ran state.1 state.2 next commands ∧ Ready next := by
  obtain ⟨next, commands, hrun, hran⟩ := runActions_answered h.executable hans
  refine ⟨next, commands, hrun, hran, ready_of_ran hran
    (scheduled_runActions hrun).executionPlan h.key ?_ ?_⟩
  · rw [h.deploymentPlan]
    exact h.deployed
  · rw [h.deploymentPlan]
    exact hr.named

section Expanding

variable {flow : FogFlow} {selector : InputStreamConfig}

-- a task that was not planned before the event has been given to one of these groups
structure Growing (marshal : GroupValue → String) (flow : FogFlow) (groups : List GroupInfo)
    (state : FogFlow × Actions) : Prop where
  expanding : Expanding flow state
  sound : ∀ a ∈ state.2, Sound a
  fresh : ∀ h, flow.executionPlan.get h = none → state.1.executionPlan.get h ≠ none →
    ∃ g ∈ groups, groupHash marshal g = h

theorem growing_nil (hr : Ready flow) : Growing marshal flow [] (flow, []) :=
  ⟨expanding_nil hr, by simp, fun _ hnone hsome => absurd hnone hsome⟩

theorem Growing.deployed {groups : List GroupInfo} {state : FogFlow × Actions} {group : GroupInfo}
    {task : TaskConfig} (h : Growing marshal flow groups state) (hr : Ready flow)
    (hdistinct : ∀ g ∈ groups, groupHash marshal g = groupHash marshal group →
      flow.executionPlan.get (groupHash marshal g) ≠ none)
    (hget : state.1.executionPlan.get (groupHash marshal group) = some task) :
    state.1.deploymentPlan.get task.taskID ≠ none := by
  rw [h.expanding.frame.deploymentPlan]
  cases hplan : flow.executionPlan.get (groupHash marshal group) with
  | none =>
    obtain ⟨g, hg, hhash⟩ := h.fresh _ hplan (by simp [hget])
    have hne := hdistinct g hg hhash
    rw [hhash] at hne
    exact absurd hplan hne
  | some old =>
    obtain ⟨t, ht, hid, -⟩ := h.expanding.kept _ old hplan
    obtain rfl := Option.some.inj (hget.symm.trans ht)
    obtain ⟨scheduled, hs, -⟩ := hr.deployed _ old hplan
    simp [hid, hs]

theorem Growing.avoids {groups : List GroupInfo} {state : FogFlow × Actions}
    {group : GroupInfo × Nat} (h : Growing marshal flow groups state) (hr : Ready flow)
    (hdistinct : ∀ g ∈ groups, groupHash marshal g = groupHash marshal group.1 →
      flow.executionPlan.get (groupHash marshal g) ≠ none) :
    Avoids .nilDereference (expandGroup marshal choices selector state group) := by
  unfold expandGroup
  refine avoids_bind (searchRelevantEntities_avoids _ _ _ _) (fun entities _ => ?_)
  simp only [getHash_eq]
  cases hget : state.1.executionPlan.get (groupHash marshal group.1) with
  | some task =>
    have hnamed : ∀ id scheduled, state.1.deploymentPlan.get id = some scheduled →
        scheduled.workerID ≠ "" := by
      rw [h.expanding.frame.deploymentPlan]
      exact hr.named
    have hmerge : Avoids .nilDereference (entities.zipIdx.foldlM (mergeInput state.1 selector
        (choices.workerSelection group.2)) (task, state.2)) :=
      (mergeInputs_sound (h.deployed hr hdistinct hget) hnamed h.sound).1
    exact avoids_bind hmerge (fun _ _ => avoids_ok _ _)
  | none => exact avoids_ok _ _

theorem Growing.step {groups : List GroupInfo} {state next : FogFlow × Actions} {group : GroupInfo}
    {i : Nat} (h : Growing marshal flow groups state) (hr : Ready flow)
    (hdistinct : ∀ g ∈ groups, groupHash marshal g = groupHash marshal group →
      flow.executionPlan.get (groupHash marshal g) ≠ none)
    (hstep : GroupExpansion marshal choices selector state.1 state.2 group i next) :
    Growing marshal flow (groups ++ [group]) next := by
  have hexpanding := h.expanding.step hr hstep
  have hfresh : ∀ (task : TaskConfig) k, flow.executionPlan.get k = none →
      (state.1.putTask (getHash marshal (choices.hashRank i 0) group) task).executionPlan.get k ≠
        none → ∃ g ∈ groups ++ [group], groupHash marshal g = k := by
    intro task k hnone hsome
    rw [FogFlow.putTask, GoMap.get_set, getHash_eq] at hsome
    split_ifs at hsome with heq
    · exact ⟨group, by simp, heq.symm⟩
    · obtain ⟨g, hg, hhash⟩ := h.fresh k hnone hsome
      exact ⟨g, List.mem_append_left _ hg, hhash⟩
  cases hstep with
  | merged task entities result hsearch hget hmerge =>
    refine ⟨hexpanding, ?_, hfresh _⟩
    have hnamed : ∀ id scheduled, state.1.deploymentPlan.get id = some scheduled →
        scheduled.workerID ≠ "" := by
      rw [h.expanding.frame.deploymentPlan]
      exact hr.named
    rw [getHash_eq] at hget
    exact (mergeInputs_sound (h.deployed hr hdistinct hget) hnamed h.sound).2 result hmerge
  | created task hsearch htask hget =>
    refine ⟨hexpanding, fun a ha => ?_, hfresh _⟩
    rcases List.mem_append.mp ha with ha | ha
    · exact h.sound a ha
    · obtain rfl := List.mem_singleton.mp ha
      trivial

theorem schedulable_of_growing {groups : List GroupInfo} {state : FogFlow × Actions}
    (hr : Ready flow) (h : Growing marshal flow groups state) : Schedulable flow state where
  deploymentPlan := h.expanding.frame.deploymentPlan
  key := h.expanding.key
  deployed := fun k task hk hadds => h.expanding.deployed hr hk hadds
  sound := h.sound
  added := by
    intro id hid
    obtain ⟨task, htask, -⟩ := h.expanding.added id hid
    simp [htask]

theorem expandExecutionPlan_schedulable {entityID : String} {sub : InputSubscription}
    (hr : Ready flow) (hheld : sub.receivedEntityRegistrations.get entityID ≠ none)
    (hdistinct : ∀ groups, getRelevantGroups choices.keyRank flow.uniqueKeys sub entityID =
      .ok groups → groups.Pairwise (fun g g' => groupHash marshal g = groupHash marshal g' →
        flow.executionPlan.get (groupHash marshal g) ≠ none)) :
    Avoids .nilDereference (expandExecutionPlan marshal choices flow entityID sub) ∧
      ∀ result, expandExecutionPlan marshal choices flow entityID sub = .ok result →
        Schedulable flow result := by
  have hloop : ∀ groups, getRelevantGroups choices.keyRank flow.uniqueKeys sub entityID =
      .ok groups → ∀ (done : List (GroupInfo × Nat)) group rest acc,
      groups.zipIdx = done ++ group :: rest →
      Growing marshal flow (done.map Prod.fst) acc →
      Avoids .nilDereference (expandGroup marshal choices sub.inputSelector acc group) ∧
        ∀ next, expandGroup marshal choices sub.inputSelector acc group = .ok next →
          Growing marshal flow ((done ++ [group]).map Prod.fst) next := by
    intro groups hgroups done group rest acc hsplit hI
    have hfst := congrArg (List.map Prod.fst) hsplit
    rw [List.zipIdx_map_fst, List.map_append, List.map_cons] at hfst
    have hpairs := hdistinct groups hgroups
    rw [hfst, List.pairwise_append] at hpairs
    have hbefore : ∀ g ∈ done.map Prod.fst, groupHash marshal g = groupHash marshal group.1 →
        flow.executionPlan.get (groupHash marshal g) ≠ none :=
      fun g hg => hpairs.2.2 g hg group.1 List.mem_cons_self
    refine ⟨hI.avoids hr hbefore, fun next hnext => ?_⟩
    rw [List.map_append]
    exact hI.step hr hbefore (expandGroup_cases hnext)
  constructor
  · refine avoids_bind (getRelevantGroups_avoids hheld) (fun groups hgroups => ?_)
    exact foldlM_avoids (I := fun done state => Growing marshal flow (done.map Prod.fst) state)
      (growing_nil hr) (hloop groups hgroups)
  · intro result hresult
    obtain ⟨groups, hgroups, hresult⟩ := bind_eq_ok.mp hresult
    have hgrown := foldlM_invariant
      (I := fun done state => Growing marshal flow (done.map Prod.fst) state) hresult
      (growing_nil hr) (fun done group rest acc next hsplit hI hnext =>
        (hloop groups hgroups done group rest acc hsplit hI).2 next hnext)
    exact schedulable_of_growing hr hgrown

end Expanding

section Reducing

variable {flow : FogFlow} {entityID : String}

-- a deletion takes tasks out of the plan and leaves the workers of the others
structure Reducing (flow : FogFlow) (state : FogFlow × Actions) : Prop where
  frame : PlanOnly flow state.1
  kept : ∀ h task, state.1.executionPlan.get h = some task →
    ∃ old, flow.executionPlan.get h = some old ∧ task.taskID = old.taskID ∧
      task.workerID = old.workerID
  sound : ∀ a ∈ state.2, Sound a
  adds : adds state.2 = []

theorem reducing_nil (flow : FogFlow) : Reducing flow (flow, []) :=
  ⟨.refl flow, fun _ task hk => ⟨task, hk, rfl, rfl⟩, by simp, rfl⟩

theorem Reducing.deployed {state : FogFlow × Actions} {h : String} {task : TaskConfig}
    (hI : Reducing flow state) (hr : Ready flow) (hk : state.1.executionPlan.get h = some task) :
    ∃ scheduled, state.1.deploymentPlan.get task.taskID = some scheduled ∧
      scheduled.workerID = task.workerID ∧ task.workerID ≠ "" := by
  obtain ⟨old, hold, hid, hworker⟩ := hI.kept h task hk
  rw [hI.frame.deploymentPlan, hid, hworker]
  exact hr.deployed h old hold

theorem Reducing.avoids {state : FogFlow × Actions} {group : GroupInfo × Nat}
    (hI : Reducing flow state) (hr : Ready flow) :
    Avoids .nilDereference (removeGroup marshal choices entityID state group) := by
  unfold removeGroup
  cases hget : state.1.executionPlan.get (getHash marshal (choices.hashRank group.2 0) group.1) with
  | none => simp only [hget, avoids_ok]
  | some existing =>
    obtain ⟨scheduled, hs, -⟩ := hI.deployed hr hget
    have hs' : state.1.deploymentPlan.get (existing.removeInput entityID).taskID =
        some scheduled := hs
    simp only [hget, hs', deref, ok_bind]
    split_ifs <;> exact avoids_ok _ _

theorem Reducing.step {state next : FogFlow × Actions} {group : GroupInfo} {i : Nat}
    (hI : Reducing flow state) (hr : Ready flow)
    (hstep : GroupRemoval marshal choices entityID state.1 state.2 group i next) :
    Reducing flow next := by
  cases hstep with
  | absent hnone => exact hI
  | removed task hget hcheck =>
    obtain ⟨scheduled, hs, hworker, hne⟩ := hI.deployed hr hget
    have hs' : removeExistingTask state.1.deploymentPlan (task.removeInput entityID) =
        some (.removeTask task.taskID scheduled.workerID) := by
      simp [removeExistingTask, TaskConfig.removeInput, hs]
    rw [hs']
    refine ⟨hI.frame.trans ⟨rfl, rfl, rfl, rfl⟩, ?_, ?_, ?_⟩
    · intro k t hk
      exact hI.kept k t (GoMap.get_of_get_delete hk).2
    · intro a ha
      rcases List.mem_append.mp ha with ha | ha
      · exact hI.sound a ha
      · obtain rfl := List.mem_singleton.mp ha
        have hne' : scheduled.workerID ≠ "" := hworker ▸ hne
        exact hne'
    · rw [adds_append, hI.adds]
      rfl
  | reduced task deployed hget hcheck hd =>
    refine ⟨hI.frame.trans ⟨rfl, rfl, rfl, rfl⟩, ?_, ?_, ?_⟩
    · intro k t hk
      rw [FogFlow.putTask, GoMap.get_set] at hk
      split_ifs at hk with heq
      · obtain rfl := Option.some.inj hk
        exact hI.kept k task (heq ▸ hget)
      · exact hI.kept k t hk
    · intro a ha
      rcases List.mem_append.mp ha with ha | ha
      · exact hI.sound a ha
      · obtain rfl := List.mem_singleton.mp ha
        trivial
    · rw [adds_append, hI.adds]
      rfl

theorem schedulable_of_reducing {state : FogFlow × Actions} (hr : Ready flow)
    (hI : Reducing flow state) : Schedulable flow state where
  deploymentPlan := hI.frame.deploymentPlan
  key := by
    intro k task hk
    obtain ⟨old, hold, hid, -⟩ := hI.kept k task hk
    rw [hid]
    exact hr.key k old hold
  deployed := fun k task hk _ => hI.frame.deploymentPlan ▸ hI.deployed hr hk
  sound := hI.sound
  added := by simp [hI.adds]

theorem removeExecutionPlan_schedulable {sub : InputSubscription} (hr : Ready flow)
    (hheld : sub.receivedEntityRegistrations.get entityID ≠ none) :
    Avoids .nilDereference (removeExecutionPlan marshal choices flow entityID sub) ∧
      ∀ result, removeExecutionPlan marshal choices flow entityID sub = .ok result →
        Schedulable flow result := by
  constructor
  · refine avoids_bind (getRelevantGroups_avoids hheld) (fun groups _ => ?_)
    refine foldlM_avoids (I := fun _ state => Reducing flow state) (reducing_nil flow) ?_
    exact fun done group rest acc _ hI =>
      ⟨hI.avoids hr, fun next hnext => hI.step hr (removeGroup_cases hnext)⟩
  · intro result hresult
    obtain ⟨groups, -, hresult⟩ := bind_eq_ok.mp hresult
    exact schedulable_of_reducing hr (foldlM_invariant (I := fun _ state => Reducing flow state)
      hresult (reducing_nil flow) (fun _ _ _ _ _ _ hI hnext =>
        hI.step hr (removeGroup_cases hnext)))

end Reducing

theorem visitedGroups_eq_ok {flow : FogFlow} {e : Event} {sub : InputSubscription}
    {uniqueKeys : GoMap (List GroupValue)} {groups : List GroupInfo}
    (hsub : flow.subscriptions.get e.subID = some sub)
    (hkeys : updateGroupedKeyValueTable flow.uniqueKeys (receive sub e.registeredEntity)
      (receivedKey sub e.registeredEntity.id) = .ok uniqueKeys)
    (hgroups : getRelevantGroups e.choices.keyRank uniqueKeys (receive sub e.registeredEntity)
      (receivedKey sub e.registeredEntity.id) = .ok groups) :
    visitedGroups flow e = .ok groups := by
  simp only [visitedGroups, hsub, hkeys, ok_bind, hgroups]

theorem orchestration_avoids {flow : FogFlow} {e : Event} (hr : Ready flow)
    (hdistinct : e.entityAction ≠ .delete → ∀ groups, visitedGroups flow e = .ok groups →
      groups.Pairwise (fun g g' => groupHash marshal g = groupHash marshal g' →
        flow.executionPlan.get (groupHash marshal g) ≠ none)) :
    Avoids .nilDereference (metadataDrivenTaskOrchestration marshal e.choices flow e.subID
      e.entityAction e.registeredEntity) := by
  unfold metadataDrivenTaskOrchestration
  cases hsub : flow.subscriptions.get e.subID with
  | none => exact avoids_ok _ _
  | some sub =>
    have hheld : (receive sub e.registeredEntity).receivedEntityRegistrations.get
        (receivedKey sub e.registeredEntity.id) ≠ none := by
      obtain ⟨r, hr, -⟩ := get_receive_self sub e.registeredEntity
      simp [hr]
    cases haction : e.entityAction with
    | create | update =>
      refine avoids_bind (updateGroupedKeyValueTable_avoids hheld) (fun uniqueKeys hkeys => ?_)
      dsimp only
      split_ifs
      · refine (expandExecutionPlan_schedulable (hr.received _ _ _) hheld ?_).1
        exact fun groups hgroups => hdistinct (by simp [haction]) groups
          (visitedGroups_eq_ok hsub hkeys hgroups)
      · exact avoids_ok _ _
    | delete =>
      cases hget : sub.receivedEntityRegistrations.get (receivedKey sub e.registeredEntity.id) with
      | none => simp only [hget, avoids_ok]
      | some existing =>
        simp only [hget]
        split_ifs
        · exact (removeExecutionPlan_schedulable hr (by simp [hget])).1
        · exact avoids_ok _ _

theorem orchestration_schedulable {flow : FogFlow} {e : Event} {result : FogFlow × Actions}
    (hr : Ready flow)
    (hdistinct : e.entityAction ≠ .delete → ∀ groups, visitedGroups flow e = .ok groups →
      groups.Pairwise (fun g g' => groupHash marshal g = groupHash marshal g' →
        flow.executionPlan.get (groupHash marshal g) ≠ none))
    (h : metadataDrivenTaskOrchestration marshal e.choices flow e.subID e.entityAction
      e.registeredEntity = .ok result) : Schedulable flow result := by
  cases orchestration_cases h with
  | unknown hsub => exact schedulable_unchanged hr rfl rfl
  | received sub uniqueKeys hsub hact hkeys hno => exact schedulable_unchanged hr rfl rfl
  | expanded sub uniqueKeys _ hsub hact hkeys hyes hexp =>
    have hheld : (receive sub e.registeredEntity).receivedEntityRegistrations.get
        (receivedKey sub e.registeredEntity.id) ≠ none := by
      obtain ⟨r, hr, -⟩ := get_receive_self sub e.registeredEntity
      simp [hr]
    have hgrown := (expandExecutionPlan_schedulable (hr.received e.subID _ uniqueKeys) hheld
      (fun groups hgroups => hdistinct hact groups
        (visitedGroups_eq_ok hsub hkeys hgroups))).2 result hexp
    exact ⟨hgrown.deploymentPlan, hgrown.key, hgrown.deployed, hgrown.sound, hgrown.added⟩
  | absent sub hsub hact hnone => exact schedulable_unchanged hr rfl rfl
  | removed sub _ hsub hact hheld hyes hremove =>
    exact (removeExecutionPlan_schedulable hr hheld).2 result hremove
  | forgotten sub hsub hact hheld hno => exact schedulable_unchanged hr rfl rfl

theorem handle_eq_some {s t : Handled} {e : Event} : handle marshal s e = some t ↔
    ∃ orchestrated, metadataDrivenTaskOrchestration marshal e.choices s.flow e.subID
        e.entityAction e.registeredEntity = .ok orchestrated ∧ t.actions = orchestrated.2 ∧
      runActions e.selectWorker 0 orchestrated.1 orchestrated.2 = .ok (t.flow, t.commands) := by
  unfold handle
  cases ho : metadataDrivenTaskOrchestration marshal e.choices s.flow e.subID e.entityAction
      e.registeredEntity with
  | error fault => simp
  | ok orchestrated =>
    cases hrun : runActions e.selectWorker 0 orchestrated.1 orchestrated.2 with
    | error fault => simp [hrun]
    | ok result =>
      simp only [hrun, Option.some.injEq, Except.ok.injEq, exists_eq_left']
      constructor
      · rintro rfl
        exact ⟨rfl, rfl⟩
      · rintro ⟨hactions, hresult⟩
        rw [hresult, ← hactions]

-- the flow goes through the same steps with the log of the event and without it
theorem step_flow (s : Handled) (e : Event) :
    step marshal s.flow e = (handle marshal s e).map Handled.flow := by
  unfold step handleUpdate handle
  cases ho : metadataDrivenTaskOrchestration marshal e.choices s.flow e.subID e.entityAction
      e.registeredEntity with
  | error fault => rfl
  | ok orchestrated =>
    cases hrun : runActions e.selectWorker 0 orchestrated.1 orchestrated.2 <;>
      simp [hrun, Except.toOption]

theorem complete_step {s t : Handled} {e : Event} (hr : Ready s.flow)
    (hc : Assignable marshal s e) (h : handle marshal s e = some t) :
    Ready t.flow ∧ Complete t := by
  obtain ⟨orchestrated, ho, hactions, hrun⟩ := handle_eq_some.mp h
  obtain ⟨next, commands, hrun', hran, hready⟩ := ready_of_schedulable hr
    (orchestration_schedulable hr hc.distinct ho) (hc.answered orchestrated ho)
  obtain ⟨rfl, rfl⟩ := Prod.mk.inj (Except.ok.inj (hrun.symm.trans hrun'))
  refine ⟨hready, hactions ▸ hran.carried, fun k task hk => ?_⟩
  obtain ⟨scheduled, hs, -⟩ := hready.deployed k task hk
  simp [hs]

theorem handleUpdate_avoids {s : Handled} {e : Event} (hr : Ready s.flow)
    (hc : Assignable marshal s e) : Avoids .nilDereference (handleUpdate marshal s.flow e) := by
  refine avoids_bind (orchestration_avoids hr hc.distinct) (fun orchestrated ho => ?_)
  obtain ⟨next, commands, hrun, -⟩ := ready_of_schedulable hr
    (orchestration_schedulable hr hc.distinct ho) (hc.answered orchestrated ho)
  rw [hrun]
  exact avoids_ok _ _

theorem ready_run {flow₀ : FogFlow} {events : List Event} {s : Handled} (h₀ : Established flow₀)
    (hm : Meets (handle marshal) (Assignable marshal) ⟨flow₀, [], []⟩ events)
    (h : exec (handle marshal) ⟨flow₀, [], []⟩ events = some s) : Ready s.flow :=
  exec_induction_of_meets (motive := fun _ s => Ready s.flow) hm h (ready_established h₀)
    (fun _ _ _ _ _ _ hr hc hs => (complete_step hr hc hs).1)

def DeploymentComplete (marshal : GroupValue → String) : Prop :=
  ∀ flow₀ events, Established flow₀ → Always (handle marshal) Complete ⟨flow₀, [], []⟩ events ∧
    ∀ before e s, before ++ [e] <+: events → exec (handle marshal) ⟨flow₀, [], []⟩ before = some s →
      handleUpdate marshal s.flow e ≠ .error .nilDereference

def scopedStream (entityType : String) : InputStreamConfig :=
  { exampleStream entityType "ALL" with isScoped := true }

def refused (e : Event) : Event := { e with selectWorker := fun _ _ => "" }

def createRefused : List Event :=
  [refused (exampleEvent "subCar" .create "car1" "Car"), exampleEvent "subCar" .create "car2" "Car"]

def faultOf {α : Type} : Except Fault α → Option Fault
  | .error fault => some fault
  | .ok _ => none

theorem faultOf_eq_some {α : Type} {x : Except Fault α} {fault : Fault} :
    faultOf x = some fault ↔ x = .error fault := by
  cases x <;> simp [faultOf]

-- no worker is found for the task of the first car, so the second car has nowhere to go
theorem undeployed_task_dereferenced : ¬ DeploymentComplete exampleMarshal := by
  intro h
  have hrun : ((exec (handle exampleMarshal) ⟨exampleFlow [scopedStream "Car"], [], []⟩
      (createRefused.take 1)).map (fun s => faultOf (handleUpdate exampleMarshal s.flow
        (exampleEvent "subCar" .create "car2" "Car")))) = some (some .nilDereference) := by
    decide +kernel
  obtain ⟨s, hs, hfault⟩ := Option.map_eq_some_iff.mp hrun
  exact (h _ createRefused (established_exampleFlow _)).2 (createRefused.take 1) _ s
    (List.prefix_refl _) hs (faultOf_eq_some.mp hfault)

theorem deployment_complete {flow₀ : FogFlow} {events : List Event} (h₀ : Established flow₀)
    (hm : Meets (handle marshal) (Assignable marshal) ⟨flow₀, [], []⟩ events) :
    Always (handle marshal) Complete ⟨flow₀, [], []⟩ events ∧
      ∀ before e s, before ++ [e] <+: events →
        exec (handle marshal) ⟨flow₀, [], []⟩ before = some s →
        handleUpdate marshal s.flow e ≠ .error .nilDereference := by
  constructor
  · refine always_of_meets (I := fun _ s => Ready s.flow ∧ Complete s) hm ?_ ?_
      (fun _ _ hI => hI.2)
    · exact ⟨ready_established h₀, .nil, by simp [h₀.executionPlan]⟩
    · exact fun _ _ _ _ _ _ hI hc hs => complete_step hI.1 hc hs
  · intro before e s hp hs
    have hbefore := hm.shorter ((List.prefix_append before [e]).trans hp)
    exact handleUpdate_avoids (ready_run h₀ hbefore hs) (hm before e s hp hs)

def createTwice : List Event :=
  [exampleEvent "subCar" .create "car1" "Car", exampleEvent "subCar" .create "car2" "Car"]

def groupCount (flow : FogFlow) (e : Event) : Option Nat :=
  (visitedGroups flow e).toOption.map List.length

theorem assignable_of_groupCount {s : Handled} {e : Event}
    (hw : ∀ n locations, e.selectWorker n locations ≠ "") (hone : groupCount s.flow e = some 1) :
    Assignable marshal s e := by
  refine ⟨fun _ _ i _ _ _ _ => hw _ _, fun _ groups hgroups => ?_⟩
  simp only [groupCount, hgroups, Except.toOption, Option.map_some, Option.some.injEq] at hone
  obtain ⟨g, rfl⟩ := List.length_eq_one_iff.mp hone
  exact List.pairwise_singleton _ _

theorem second_car_added :
    ∃ s, exec (handle exampleMarshal) ⟨exampleFlow [scopedStream "Car"], [], []⟩ createTwice =
      some s ∧ Complete s ∧ s.commands.length = 1 := by
  have hfirst : groupCount (exampleFlow [scopedStream "Car"])
      (exampleEvent "subCar" .create "car1" "Car") = some 1 := by
    decide +kernel
  have hsecond : (exec (handle exampleMarshal) ⟨exampleFlow [scopedStream "Car"], [], []⟩
      [exampleEvent "subCar" .create "car1" "Car"]).map (fun s => groupCount s.flow
        (exampleEvent "subCar" .create "car2" "Car")) = some (some 1) := by
    decide +kernel
  have hlast : (exec (handle exampleMarshal) ⟨exampleFlow [scopedStream "Car"], [], []⟩
      createTwice).map (fun s => s.commands.length) = some 1 := by
    decide +kernel
  obtain ⟨s, hs, hsecond⟩ := Option.map_eq_some_iff.mp hsecond
  obtain ⟨last, hlast, hcommands⟩ := Option.map_eq_some_iff.mp hlast
  have hm : Meets (handle exampleMarshal) (Assignable exampleMarshal)
      ⟨exampleFlow [scopedStream "Car"], [], []⟩
      ([exampleEvent "subCar" .create "car1" "Car"] ++
        [exampleEvent "subCar" .create "car2" "Car"]) := by
    refine (meets_concat hs).mpr ⟨meets_singleton.mpr ?_, ?_⟩
    · exact assignable_of_groupCount (by simp [exampleEvent]) hfirst
    · exact assignable_of_groupCount (by simp [exampleEvent]) hsecond
  exact ⟨last, hlast, (deployment_complete (established_exampleFlow _) hm).1 createTwice last
    (List.prefix_refl _) hlast, hcommands⟩

end FogFlow.Master
