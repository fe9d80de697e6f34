import FogFlow.Master.Hash
import FogFlow.Master.Inputs
import FogFlow.Master.Received

namespace FogFlow.Master

open Ngsi Datamodel Loop

variable {marshal : GroupValue → String} {choices : Choices}

inductive MergeStep (flow : FogFlow) (selector : InputStreamConfig) (task : TaskConfig)
    (actions : Actions) (entity : InputEntity) : TaskConfig × Actions → Prop where
  | added (deployed : ScheduledTaskInstance) :
      isNewInput selector task entity = true →
      flow.deploymentPlan.get task.taskID = some deployed →
      MergeStep flow selector task actions entity
        ({ task with inputs := task.inputs ++ [newInputEntity selector entity] },
          actions ++ [some (.addInput ⟨inputStream (newInputEntity selector entity), task.taskID,
            deployed.workerID⟩)])
  | kept : isNewInput selector task entity = false →
      MergeStep flow selector task actions entity
        ({ task with inputs := (relocate entity task.inputs).1 }, actions)
  | migrated (workerID : String) : isNewInput selector task entity = false →
      (relocate entity task.inputs).2 = true → workerID ≠ task.workerID →
      MergeStep flow selector task actions entity
        ({ task with inputs := (relocate entity task.inputs).1, workerID := workerID },
          actions ++ removeTaskAction flow
              { task with inputs := (relocate entity task.inputs).1 } ++
            [some (addNewTask flow.intent
              { task with inputs := (relocate entity task.inputs).1, workerID := workerID })])

theorem mergeInput_cases {flow : FogFlow} {selector : InputStreamConfig}
    {workerSelection : Nat → List Point → String} {state result : TaskConfig × Actions}
    {entity : InputEntity × Nat}
    (h : mergeInput flow selector workerSelection state entity = .ok result) :
    MergeStep flow selector state.1 state.2 entity.1 result := by
  unfold mergeInput at h
  cases hnew : isNewInput selector state.1 entity.1 with
  | true =>
    simp only [hnew, if_true] at h
    obtain ⟨deployed, hd, h⟩ := bind_eq_ok.mp h
    rw [← Except.ok.inj h]
    exact .added deployed hnew (deref_eq_ok.mp hd)
  | false =>
    simp only [hnew, Bool.false_eq_true, if_false] at h
    split_ifs at h with hworker
    · rw [← Except.ok.inj h]
      refine .migrated _ hnew ?_ hworker
      by_contra hmoved
      exact hworker (by simp [newOptimalWorkerID, hmoved])
    · rw [← Except.ok.inj h]
      exact .kept hnew

def addedID : Option DeploymentAction → Option String
  | some (.addTask taskInstance) => some taskInstance.id
  | _ => none

-- the tasks that the actions add, once for each time
def adds (actions : Actions) : List String := actions.filterMap addedID

theorem adds_append (as bs : Actions) : adds (as ++ bs) = adds as ++ adds bs :=
  List.filterMap_append

theorem mem_adds {actions : Actions} {id : String} : id ∈ adds actions ↔
    ∃ taskInstance, some (.addTask taskInstance) ∈ actions ∧ taskInstance.id = id := by
  simp only [adds, List.mem_filterMap]
  constructor
  · rintro ⟨action, hmem, haction⟩
    match action with
    | some (.addTask taskInstance) => exact ⟨taskInstance, hmem, Option.some.inj haction⟩
  · rintro ⟨taskInstance, hmem, rfl⟩
    exact ⟨_, hmem, rfl⟩

-- a new task is added, a task that has a worker is first removed from it
inductive Blocks (assigned : String → Option String) : Actions → Prop where
  | nil : Blocks assigned []
  | input (flowInfo : FlowInfo) {rest : Actions} : Blocks assigned rest →
      Blocks assigned (some (.addInput flowInfo) :: rest)
  | create (taskInstance : ScheduledTaskInstance) {rest : Actions} :
      assigned taskInstance.id = none → Blocks assigned rest →
      Blocks assigned (some (.addTask taskInstance) :: rest)
  | migrate (taskInstance : ScheduledTaskInstance) (taskID workerID : String) {rest : Actions} :
      taskInstance.id = taskID → assigned taskID = some workerID → Blocks assigned rest →
      Blocks assigned (some (.removeTask taskID workerID) :: some (.addTask taskInstance) :: rest)

theorem Blocks.append {assigned : String → Option String} {as bs : Actions}
    (ha : Blocks assigned as) (hb : Blocks assigned bs) : Blocks assigned (as ++ bs) := by
  induction ha with
  | nil => exact hb
  | input flowInfo _ ih => exact .input flowInfo ih
  | create taskInstance hnone _ ih => exact .create taskInstance hnone ih
  | migrate taskInstance taskID workerID hid hsome _ ih =>
    exact .migrate taskInstance taskID workerID hid hsome ih

theorem blocks_migrate {assigned : String → Option String} (intent : TaskIntent)
    (task : TaskConfig) {workerID : String} (h : assigned task.taskID = some workerID) :
    Blocks assigned ([some (.removeTask task.taskID workerID)] ++
      [some (addNewTask intent task)]) :=
  .migrate _ _ workerID rfl h .nil

theorem blocks_create {assigned : String → Option String} (intent : TaskIntent)
    (task : TaskConfig) (h : assigned task.taskID = none) :
    Blocks assigned [some (addNewTask intent task)] :=
  .create _ h .nil

-- the worker of a task that is planned and deployed
def assigned (flow : FogFlow) (id : String) : Option String :=
  ((flow.executionPlan.get (lastItem id)).filter (fun task => task.taskID == id)).bind
    (fun task => (flow.deploymentPlan.get task.taskID).map ScheduledTaskInstance.workerID)

-- every planned task is deployed to the worker that the plan names
structure Ready (flow : FogFlow) : Prop where
  key : ∀ h task, flow.executionPlan.get h = some task → lastItem task.taskID = h
  deployed : ∀ h task, flow.executionPlan.get h = some task →
    ∃ scheduled, flow.deploymentPlan.get task.taskID = some scheduled ∧
      scheduled.workerID = task.workerID ∧ task.workerID ≠ ""
  named : ∀ id scheduled, flow.deploymentPlan.get id = some scheduled → scheduled.workerID ≠ ""

-- the flow as the event finds it, but for what it has received
structure SamePlans (flow before : FogFlow) : Prop where
  executionPlan : before.executionPlan = flow.executionPlan
  deploymentPlan : before.deploymentPlan = flow.deploymentPlan

theorem Ready.congr {flow before : FogFlow} (h : Ready flow) (hsame : SamePlans flow before) :
    Ready before := by
  refine ⟨?_, ?_, ?_⟩
  · rw [hsame.executionPlan]
    exact h.key
  · rw [hsame.executionPlan, hsame.deploymentPlan]
    exact h.deployed
  · rw [hsame.deploymentPlan]
    exact h.named

theorem Ready.received {flow : FogFlow} (hr : Ready flow) (subID : String)
    (sub : InputSubscription) (uniqueKeys : GoMap (List GroupValue)) :
    Ready { flow.putSubscription subID sub with uniqueKeys := uniqueKeys } :=
  ⟨hr.key, hr.deployed, hr.named⟩

theorem ready_established {flow : FogFlow} (h : Established flow) : Ready flow :=
  ⟨by simp [h.executionPlan], by simp [h.executionPlan], by simp [h.deploymentPlan]⟩

theorem Ready.assigned {flow : FogFlow} (hr : Ready flow) {h : String} {task : TaskConfig}
    (hk : flow.executionPlan.get h = some task) :
    assigned flow task.taskID = some task.workerID := by
  obtain ⟨scheduled, hs, hw, -⟩ := hr.deployed h task hk
  simp [Master.assigned, hr.key h task hk, hk, Option.filter, hs, hw]

theorem assigned_of_unplanned {flow : FogFlow} {id : String}
    (h : flow.executionPlan.get (lastItem id) = none) : assigned flow id = none := by
  simp [assigned, h]

theorem assigned_eq_some {flow : FogFlow} {id workerID : String}
    (h : assigned flow id = some workerID) :
    (flow.deploymentPlan.get id).map ScheduledTaskInstance.workerID = some workerID := by
  obtain ⟨task, htask, hdeployed⟩ := Option.bind_eq_some_iff.mp h
  obtain ⟨-, hid⟩ := Option.filter_eq_some_iff.mp htask
  exact (beq_iff_eq.mp hid) ▸ hdeployed

theorem removeTaskAction_eq {flow : FogFlow} (task : TaskConfig) {workerID : String}
    (hne : task.workerID ≠ "") (h : (flow.deploymentPlan.get task.taskID).map
      ScheduledTaskInstance.workerID = some workerID) :
    removeTaskAction flow task = [some (.removeTask task.taskID workerID)] := by
  obtain ⟨scheduled, hs, rfl⟩ := Option.map_eq_some_iff.mp h
  simp [removeTaskAction, hne, removeExistingTask, hs]

theorem adds_removeTaskAction (flow : FogFlow) (task : TaskConfig) :
    adds (removeTaskAction flow task) = [] := by
  unfold removeTaskAction
  split_ifs
  · cases h : flow.deploymentPlan.get task.taskID <;> simp [adds, removeExistingTask, h, addedID]
  · rfl

theorem eq_nil_of_nodup_concat {ids : List String} {id : String} (hall : ∀ x ∈ ids, x = id)
    (hnd : (ids ++ [id]).Nodup) : ids = [] := by
  rw [List.eq_nil_iff_forall_not_mem]
  intro x hx
  obtain rfl := hall x hx
  exact (List.nodup_append.mp hnd).2.2 x hx x (List.mem_singleton_self x) rfl

-- what the entities found for a group do to its task
structure Merged (assigned : String → Option String) (task : TaskConfig) (actions : Actions)
    (result : TaskConfig × Actions) : Prop where
  taskID : result.1.taskID = task.taskID
  actions : ∃ new, result.2 = actions ++ new ∧ (∀ id ∈ adds new, id = task.taskID) ∧
    (adds new = [] → result.1.workerID = task.workerID ∧ Blocks assigned new) ∧
    (task.workerID ≠ "" → assigned task.taskID ≠ none → (adds new).Nodup → Blocks assigned new)

theorem Merged.step {assigned : String → Option String} {flow : FogFlow}
    {selector : InputStreamConfig} {task : TaskConfig} {actions : Actions}
    {state next : TaskConfig × Actions} {entity : InputEntity}
    (hd : ∀ id workerID, assigned id = some workerID →
      (flow.deploymentPlan.get id).map ScheduledTaskInstance.workerID = some workerID)
    (h : Merged assigned task actions state)
    (hstep : MergeStep flow selector state.1 state.2 entity next) :
    Merged assigned task actions next := by
  obtain ⟨new, hnew, hids, hnone, hblocks⟩ := h.actions
  cases hstep with
  | added deployed hisNew hdeployed =>
    refine ⟨h.taskID, new ++ [_], by rw [hnew, List.append_assoc], ?_, ?_, ?_⟩
    · simpa [adds_append, adds, addedID] using hids
    · intro hempty
      rw [adds_append, List.append_eq_nil_iff] at hempty
      exact ⟨(hnone hempty.1).1, (hnone hempty.1).2.append (.input _ .nil)⟩
    · intro hw ha hnd
      rw [adds_append] at hnd
      exact (hblocks hw ha hnd.of_append_left).append (.input _ .nil)
  | kept hisNew => exact ⟨h.taskID, new, hnew, hids, hnone, hblocks⟩
  | migrated migratedTo hisNew hmoved hworker =>
    have hadds : ∀ t : TaskConfig, adds (new ++ (removeTaskAction flow
        { state.1 with inputs := (relocate entity state.1.inputs).1 } ++
          [some (addNewTask flow.intent t)])) = adds new ++ [t.taskID] := by
      intro t
      rw [adds_append, adds_append, adds_removeTaskAction]
      rfl
    refine ⟨h.taskID, _, by rw [hnew, List.append_assoc, List.append_assoc], ?_, ?_, ?_⟩
    · intro id hid
      rw [hadds, List.mem_append, List.mem_singleton] at hid
      rcases hid with hid | rfl
      · exact hids id hid
      · exact h.taskID
    · intro hempty
      rw [hadds] at hempty
      simp at hempty
    · intro hw ha hnd
      rw [hadds] at hnd
      have hnil : adds new = [] :=
        eq_nil_of_nodup_concat (fun x hx => (hids x hx).trans h.taskID.symm) hnd
      have hsame := (hnone hnil).1
      obtain ⟨workerID, ha⟩ := Option.ne_none_iff_exists'.mp ha
      have ha' : assigned state.1.taskID = some workerID := h.taskID ▸ ha
      rw [removeTaskAction_eq { state.1 with inputs := (relocate entity state.1.inputs).1 }
        (by simpa [hsame] using hw) (hd _ _ ha')]
      exact (hnone hnil).2.append (blocks_migrate flow.intent _ ha')

theorem merged_mergeInputs {assigned : String → Option String} {flow : FogFlow}
    {selector : InputStreamConfig} {workerSelection : Nat → List Point → String}
    {task : TaskConfig} {actions : Actions} {entities : List InputEntity}
    {result : TaskConfig × Actions}
    (hd : ∀ id workerID, assigned id = some workerID →
      (flow.deploymentPlan.get id).map ScheduledTaskInstance.workerID = some workerID)
    (h : entities.zipIdx.foldlM (mergeInput flow selector workerSelection) (task, actions) =
      .ok result) : Merged assigned task actions result := by
  refine foldlM_invariant (I := fun _ state => Merged assigned task actions state) h ?_ ?_
  · exact ⟨rfl, [], by simp, by simp [adds], fun _ => ⟨rfl, .nil⟩, fun _ _ _ => .nil⟩
  · exact fun _ _ _ _ _ _ hI hnext => hI.step hd (mergeInput_cases hnext)

-- what the groups visited so far have done to the plan of a ready flow
structure Expanding (flow : FogFlow) (state : FogFlow × Actions) : Prop where
  frame : PlanOnly flow state.1
  key : ∀ h task, state.1.executionPlan.get h = some task → lastItem task.taskID = h
  kept : ∀ h old, flow.executionPlan.get h = some old →
    ∃ task, state.1.executionPlan.get h = some task ∧ task.taskID = old.taskID ∧
      (old.taskID ∉ adds state.2 → task.workerID = old.workerID)
  new : ∀ h task, flow.executionPlan.get h = none → state.1.executionPlan.get h = some task →
    task.taskID ∈ adds state.2
  added : ∀ id ∈ adds state.2, ∃ task,
    state.1.executionPlan.get (lastItem id) = some task ∧ task.taskID = id
  blocks : (adds state.2).Nodup → Blocks (assigned flow) state.2

theorem expanding_nil {flow : FogFlow} (hr : Ready flow) : Expanding flow (flow, []) where
  frame := .refl flow
  key := hr.key
  kept := fun _ old hold => ⟨old, hold, rfl, fun _ => rfl⟩
  new := fun h task hnone hsome => by simp [hnone] at hsome
  added := by simp [adds]
  blocks := fun _ => .nil

theorem Expanding.put {flow : FogFlow} {state : FogFlow × Actions} {task : TaskConfig}
    {new : Actions} {hashID : String} (h : Expanding flow state)
    (hkey : lastItem task.taskID = hashID)
    (hold : ∀ old, flow.executionPlan.get hashID = some old → task.taskID = old.taskID ∧
      (old.taskID ∉ adds (state.2 ++ new) → task.workerID = old.workerID))
    (hnew : flow.executionPlan.get hashID = none → task.taskID ∈ adds (state.2 ++ new))
    (hstate : ∀ before, state.1.executionPlan.get hashID = some before →
      task.taskID = before.taskID)
    (hadds : ∀ id ∈ adds new, id = task.taskID)
    (hblocks : (adds (state.2 ++ new)).Nodup → Blocks (assigned flow) new) :
    Expanding flow (state.1.putTask hashID task, state.2 ++ new) := by
  have hget : ∀ k, (state.1.putTask hashID task).executionPlan.get k =
      if k = hashID then some task else state.1.executionPlan.get k :=
    fun k => GoMap.get_set _ _ _ _
  refine ⟨h.frame.trans ⟨rfl, rfl, rfl, rfl⟩, ?_, ?_, ?_, ?_, ?_⟩
  · intro k t hk
    rw [hget] at hk
    split_ifs at hk with heq
    · rw [← Option.some.inj hk, hkey, heq]
    · exact h.key k t hk
  · intro k old hk
    rw [hget]
    split_ifs with heq
    · subst heq
      exact ⟨task, rfl, hold old hk⟩
    · obtain ⟨t, ht, hid, hworker⟩ := h.kept k old hk
      refine ⟨t, ht, hid, fun hnot => hworker (fun hin => hnot ?_)⟩
      rw [adds_append]
      exact List.mem_append_left _ hin
  · intro k t hnone hk
    rw [hget] at hk
    split_ifs at hk with heq
    · obtain rfl := Option.some.inj hk
      exact hnew (heq ▸ hnone)
    · rw [adds_append]
      exact List.mem_append_left _ (h.new k t hnone hk)
  · intro id hid
    rw [adds_append, List.mem_append] at hid
    rw [hget]
    split_ifs with heq
    · refine ⟨task, rfl, ?_⟩
      rcases hid with hid | hid
      · obtain ⟨before, hbefore, hbid⟩ := h.added id hid
        rw [hstate before (heq ▸ hbefore), hbid]
      · exact (hadds id hid).symm
    · rcases hid with hid | hid
      · exact h.added id hid
      · exact absurd (hadds id hid ▸ hkey) heq
  · intro hnd
    have hboth := hnd
    rw [adds_append] at hnd
    exact (h.blocks hnd.of_append_left).append (hblocks hboth)

theorem Expanding.step {flow : FogFlow} {selector : InputStreamConfig}
    {state next : FogFlow × Actions} {group : GroupInfo} {i : Nat} (hr : Ready flow)
    (h : Expanding flow state)
    (hstep : GroupExpansion marshal choices selector state.1 state.2 group i next) :
    Expanding flow next := by
  have hdeployed : ∀ id workerID, assigned flow id = some workerID →
      (state.1.deploymentPlan.get id).map ScheduledTaskInstance.workerID = some workerID := by
    intro id workerID ha
    rw [h.frame.deploymentPlan]
    exact assigned_eq_some ha
  cases hstep with
  | merged task entities result hsearch hget hmerge =>
    have hmerged := merged_mergeInputs hdeployed hmerge
    obtain ⟨new, hnew, hids, hnone, hblocks⟩ := hmerged.actions
    rw [hnew]
    refine h.put (by rw [hmerged.taskID]; exact h.key _ _ hget) ?_ ?_ ?_ ?_ ?_
    · intro old hold
      obtain ⟨t, ht, hid, hworker⟩ := h.kept _ old hold
      obtain rfl := Option.some.inj (hget.symm.trans ht)
      refine ⟨hmerged.taskID.trans hid, fun hnot => ?_⟩
      rw [adds_append, List.mem_append, not_or] at hnot
      have hempty : adds new = [] := by
        rw [List.eq_nil_iff_forall_not_mem]
        intro x hx
        exact hnot.2 (hid ▸ hids x hx ▸ hx)
      exact (hnone hempty).1.trans (hworker hnot.1)
    · intro hplan
      rw [hmerged.taskID, adds_append]
      exact List.mem_append_left _ (h.new _ task hplan hget)
    · intro before hbefore
      obtain rfl := Option.some.inj (hget.symm.trans hbefore)
      exact hmerged.taskID
    · intro id hid
      rw [hids id hid, hmerged.taskID]
    · intro hnd
      rw [adds_append] at hnd
      by_cases hempty : adds new = []
      · exact (hnone hempty).2
      obtain ⟨x, hx⟩ := List.exists_mem_of_ne_nil _ hempty
      have hfresh : task.taskID ∉ adds state.2 := fun hin =>
        (List.nodup_append.mp hnd).2.2 _ hin x hx (hids x hx).symm
      cases hplan : flow.executionPlan.get (getHash marshal (choices.hashRank i 0) group) with
      | none => exact absurd (h.new _ task hplan hget) hfresh
      | some old =>
        obtain ⟨t, ht, hid, hworker⟩ := h.kept _ old hplan
        obtain rfl := Option.some.inj (hget.symm.trans ht)
        obtain ⟨scheduled, -, -, hne⟩ := hr.deployed _ old hplan
        refine hblocks ?_ ?_ hnd.of_append_right
        · rw [hworker (hid ▸ hfresh)]
          exact hne
        · rw [hid, hr.assigned hplan]
          simp
  | created task hsearch htask hget =>
    have hkey : lastItem task.taskID = getHash marshal (choices.hashRank i 0) group := by
      rw [htask]
      exact lastItem_taskID _ _ _ _ _
    have hplan : flow.executionPlan.get (getHash marshal (choices.hashRank i 0) group) = none := by
      cases hold : flow.executionPlan.get (getHash marshal (choices.hashRank i 0) group) with
      | none => rfl
      | some old =>
        obtain ⟨t, ht, -⟩ := h.kept _ old hold
        simp [hget] at ht
    have hadds : adds [some (addNewTask state.1.intent task)] = [task.taskID] := rfl
    refine h.put hkey (fun old hold => by simp [hplan] at hold) (fun _ => ?_)
      (fun before hbefore => by simp [hget] at hbefore) (by simp [hadds]) (fun _ => ?_)
    · rw [adds_append, hadds]
      simp
    · exact blocks_create _ _ (assigned_of_unplanned (hkey ▸ hplan))

-- a task that is not added again is still at its worker
theorem Expanding.deployed {flow : FogFlow} {state : FogFlow × Actions} (h : Expanding flow state)
    (hr : Ready flow) {k : String} {task : TaskConfig}
    (hk : state.1.executionPlan.get k = some task) (hadds : task.taskID ∉ adds state.2) :
    ∃ scheduled, flow.deploymentPlan.get task.taskID = some scheduled ∧
      scheduled.workerID = task.workerID ∧ task.workerID ≠ "" := by
  cases hplan : flow.executionPlan.get k with
  | none => exact absurd (h.new k task hplan hk) hadds
  | some old =>
    obtain ⟨t, ht, hid, hworker⟩ := h.kept k old hplan
    obtain rfl := Option.some.inj (hk.symm.trans ht)
    rw [hid, hworker (hid ▸ hadds)]
    exact hr.deployed k old hplan

theorem expanding_expandExecutionPlan {flow : FogFlow} {entityID : String}
    {sub : InputSubscription} {result : FogFlow × Actions} (hr : Ready flow)
    (h : expandExecutionPlan marshal choices flow entityID sub = .ok result) :
    Expanding flow result := by
  obtain ⟨groups, -, h⟩ := bind_eq_ok.mp h
  exact foldlM_invariant (I := fun _ state => Expanding flow state) h (expanding_nil hr)
    (fun _ _ _ _ _ _ hI hnext => hI.step hr (expandGroup_cases hnext))

end FogFlow.Master
