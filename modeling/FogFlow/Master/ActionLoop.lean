import FogFlow.Master.Planning

namespace FogFlow.Master

open Ngsi Datamodel Loop

-- the call to the master that the action asks for
def CarriedOut : Option DeploymentAction → Command → Prop
  | some (.addTask taskInstance), .deployTask scheduled =>
    scheduled.workerID ≠ "" ∧ scheduled = { taskInstance with workerID := scheduled.workerID }
  | some (.removeTask taskID workerID), .terminateTask taskID' workerID' =>
    taskID' = taskID ∧ workerID' = workerID
  | some (.addInput flowInfo), .addInputEntity flowInfo' => flowInfo' = flowInfo
  | some (.removeInput entityID taskInstanceID workerID),
      .removeInputEntity entityID' taskInstanceID' workerID' =>
    entityID' = entityID ∧ taskInstanceID' = taskInstanceID ∧ workerID' = workerID
  | _, _ => False

-- a worker is found for every task that the actions add
def Answered (selectWorker : Nat → List Point → String) (n : Nat) (plan : GoMap TaskConfig)
    (actions : Actions) : Prop :=
  ∀ i taskInstance locations, actions[i]? = some (some (.addTask taskInstance)) →
    getLocationOfInputs plan (lastItem taskInstance.id) = .ok locations →
    selectWorker (n + i) locations ≠ ""

-- an action that can be carried out on this plan
def Executable (plan : GoMap TaskConfig) : Option DeploymentAction → Prop
  | none => False
  | some (.addTask taskInstance) => plan.get (lastItem taskInstance.id) ≠ none
  | some (.removeTask _ workerID) => workerID ≠ ""
  | some (.addInput _) => True
  | some (.removeInput _ _ _) => True

structure Ran (flow : FogFlow) (actions : Actions) (next : FogFlow) (commands : List Command) :
    Prop where
  carried : List.Forall₂ CarriedOut actions commands
  kept : ∀ id, id ∉ adds actions →
    next.deploymentPlan.get id = flow.deploymentPlan.get id ∧
    ∀ h task, task.taskID = id →
      (next.executionPlan.get h = some task ↔ flow.executionPlan.get h = some task)
  assigned : ∀ id ∈ adds actions, ∃ scheduled, .deployTask scheduled ∈ commands ∧
    scheduled.id = id ∧ next.deploymentPlan.get id = some scheduled ∧
    scheduled.workerID ≠ "" ∧ ∀ h task, next.executionPlan.get h = some task →
      task.taskID = id → task.workerID = scheduled.workerID

def assign (flow : FogFlow) (scheduledTask : ScheduledTaskInstance) : FogFlow :=
  updateExecutionPlan (updateDeploymentPlan flow scheduledTask) scheduledTask

section

variable {flow next : FogFlow} {selectWorker : Nat → List Point → String} {n : Nat}
  {actions : Actions} {commands : List Command} {plan plan' : GoMap TaskConfig}
  {scheduledTask : ScheduledTaskInstance}

theorem carriedOut_addTask {taskInstance : ScheduledTaskInstance} {command : Command}
    (h : CarriedOut (some (.addTask taskInstance)) command) : ∃ scheduled : ScheduledTaskInstance,
      command = .deployTask scheduled ∧ scheduled.id = taskInstance.id := by
  cases command with
  | deployTask scheduled => exact ⟨scheduled, rfl, by rw [h.2]⟩
  | _ => exact absurd h id

theorem carriedOut_removeTask {taskID workerID : String} {command : Command}
    (h : CarriedOut (some (.removeTask taskID workerID)) command) :
    command = .terminateTask taskID workerID := by
  cases command with
  | terminateTask _ _ =>
    obtain ⟨rfl, rfl⟩ := h
    rfl
  | _ => exact absurd h id

theorem carriedOut_addInput {flowInfo : FlowInfo} {command : Command}
    (h : CarriedOut (some (.addInput flowInfo)) command) :
    command = .addInputEntity flowInfo := by
  cases command with
  | addInputEntity _ =>
    obtain rfl := h
    rfl
  | _ => exact absurd h id

theorem deploymentPlan_assign (flow : FogFlow) (scheduledTask : ScheduledTaskInstance)
    (id : String) : (assign flow scheduledTask).deploymentPlan.get id =
      if id = scheduledTask.id then some scheduledTask else flow.deploymentPlan.get id :=
  GoMap.get_set _ _ _ _

theorem executionPlan_assign (flow : FogFlow) (scheduledTask : ScheduledTaskInstance)
    (h : String) : (assign flow scheduledTask).executionPlan.get h =
      (flow.executionPlan.get h).map (assignWorker scheduledTask) := by
  simp [assign, updateExecutionPlan, updateDeploymentPlan]

theorem assignWorker_ne {task : TaskConfig} (h : task.taskID ≠ scheduledTask.id) :
    assignWorker scheduledTask task = task := by
  simp [assignWorker, h]

theorem executionPlan_assign_ne {h : String} {task : TaskConfig}
    (hne : task.taskID ≠ scheduledTask.id) :
    (assign flow scheduledTask).executionPlan.get h = some task ↔
      flow.executionPlan.get h = some task := by
  rw [executionPlan_assign, Option.map_eq_some_iff]
  constructor
  · rintro ⟨old, hold, rfl⟩
    rw [assignWorker_taskID] at hne
    rw [assignWorker_ne hne, hold]
  · exact fun hget => ⟨task, hget, assignWorker_ne hne⟩

theorem getLocationOfInputs_congr (h : SameTasks plan plan') (hashID : String) :
    getLocationOfInputs plan' hashID = getLocationOfInputs plan hashID := by
  have hget := h hashID
  unfold getLocationOfInputs
  cases hp : plan.get hashID with
  | none =>
    rw [hp, Option.map_none, Option.map_eq_none_iff] at hget
    rw [hget]
  | some task =>
    rw [hp, Option.map_some, Option.map_eq_some_iff] at hget
    obtain ⟨task', hp', heq⟩ := hget
    rw [hp', deref, deref, ok_bind, ok_bind, (Prod.mk.inj heq).2]

theorem Answered.tail {action : Option DeploymentAction}
    (h : Answered selectWorker n plan (action :: actions)) (hs : SameTasks plan plan') :
    Answered selectWorker (n + 1) plan' actions := by
  intro i taskInstance locations hget hloc
  rw [getLocationOfInputs_congr hs] at hloc
  have hne := h (i + 1) taskInstance locations hget hloc
  rwa [Nat.add_assoc, Nat.add_comm 1 i]

theorem Executable.congr {action : Option DeploymentAction} (h : Executable plan action)
    (hs : SameTasks plan plan') : Executable plan' action := by
  match action with
  | none => exact h
  | some (.addTask taskInstance) =>
    intro hnone
    have hget := hs (lastItem taskInstance.id)
    rw [hnone, Option.map_none, eq_comm, Option.map_eq_none_iff] at hget
    exact h hget
  | some (.removeTask _ _) | some (.addInput _) | some (.removeInput _ _ _) => exact h

theorem ran_nil (flow : FogFlow) : Ran flow [] flow [] :=
  ⟨.nil, fun _ _ => ⟨rfl, fun _ _ _ => Iff.rfl⟩, by simp [adds]⟩

-- an action that adds no task leaves the plans as they are
theorem Ran.other {action : Option DeploymentAction} {command : Command}
    (h : Ran flow actions next commands) (hcarried : CarriedOut action command)
    (hadds : addedID action = none) : Ran flow (action :: actions) next (command :: commands) := by
  have heq : adds (action :: actions) = adds actions := by simp [adds, hadds]
  refine ⟨.cons hcarried h.carried, heq ▸ h.kept, fun id hid => ?_⟩
  obtain ⟨scheduled, hmem, hscheduled⟩ := h.assigned id (heq ▸ hid)
  exact ⟨scheduled, List.mem_cons_of_mem _ hmem, hscheduled⟩

theorem Ran.add {taskInstance : ScheduledTaskInstance}
    (h : Ran (assign flow scheduledTask) actions next commands)
    (hne : scheduledTask.workerID ≠ "")
    (heq : scheduledTask = { taskInstance with workerID := scheduledTask.workerID }) :
    Ran flow (some (.addTask taskInstance) :: actions) next (.deployTask scheduledTask :: commands)
    where
  carried := .cons ⟨hne, heq⟩ h.carried
  kept := by
    intro id hid
    have hcons : adds (some (.addTask taskInstance) :: actions) = taskInstance.id :: adds actions :=
      rfl
    have hsid : scheduledTask.id = taskInstance.id := by rw [heq]
    rw [hcons, List.mem_cons, not_or] at hid
    obtain ⟨hdep, hplan⟩ := h.kept id hid.2
    refine ⟨?_, fun k task htask => (hplan k task htask).trans (executionPlan_assign_ne ?_)⟩
    · rw [hdep, deploymentPlan_assign, if_neg (hsid ▸ hid.1)]
    · rw [htask, hsid]
      exact hid.1
  assigned := by
    intro id hid
    have hsid : scheduledTask.id = taskInstance.id := by rw [heq]
    by_cases hlater : id ∈ adds actions
    · obtain ⟨later, hmem, hscheduled⟩ := h.assigned id hlater
      exact ⟨later, List.mem_cons_of_mem _ hmem, hscheduled⟩
    · have hid : id = scheduledTask.id := by
        rw [hsid]
        exact (List.mem_cons.mp hid).resolve_right hlater
      obtain ⟨hdep, hplan⟩ := h.kept id hlater
      refine ⟨scheduledTask, List.mem_cons_self, hid.symm, ?_, hne, fun k task hk htask => ?_⟩
      · rw [hdep, deploymentPlan_assign, if_pos hid]
      · have hk := (hplan k task htask).mp hk
        rw [executionPlan_assign, Option.map_eq_some_iff] at hk
        obtain ⟨old, -, rfl⟩ := hk
        rw [assignWorker_taskID] at htask
        simp [assignWorker, htask, hid]

-- a loop that is never refused a worker carries every action out
theorem runActions_answered (hexec : ∀ action ∈ actions, Executable flow.executionPlan action)
    (hans : Answered selectWorker n flow.executionPlan actions) :
    ∃ next commands, runActions selectWorker n flow actions = .ok (next, commands) ∧
      Ran flow actions next commands := by
  induction actions generalizing n flow with
  | nil => exact ⟨flow, [], rfl, ran_nil flow⟩
  | cons action actions ih =>
    have hhead := hexec action List.mem_cons_self
    have hrest : ∀ a ∈ actions, Executable flow.executionPlan a :=
      fun a ha => hexec a (List.mem_cons_of_mem _ ha)
    match action with
    | none => exact hhead.elim
    | some (.addTask taskInstance) =>
      obtain ⟨task, htask⟩ := Option.ne_none_iff_exists'.mp hhead
      have hloc : getLocationOfInputs flow.executionPlan (lastItem taskInstance.id) =
          .ok (task.inputs.map InputEntity.location) := by
        rw [getLocationOfInputs, htask, deref, ok_bind]
      have hne := hans 0 taskInstance _ rfl hloc
      rw [Nat.add_zero] at hne
      generalize hsch : { taskInstance with
        workerID := selectWorker n (task.inputs.map InputEntity.location) } = scheduled
      have hsame : SameTasks flow.executionPlan (assign flow scheduled).executionPlan :=
        (scheduled_assign flow scheduled).executionPlan
      obtain ⟨next, commands, hrun, hran⟩ := ih (fun a ha => (hrest a ha).congr hsame)
        (hans.tail hsame)
      refine ⟨next, .deployTask scheduled :: commands, ?_, hran.add ?_ ?_⟩
      · simp only [runActions, hloc, ok_bind, if_neg hne, hsch]
        rw [show updateExecutionPlan (updateDeploymentPlan flow scheduled) scheduled =
          assign flow scheduled from rfl, hrun]
        rfl
      · rw [← hsch]
        exact hne
      · rw [← hsch]
    | some (.removeTask taskID workerID) =>
      obtain ⟨next, commands, hrun, hran⟩ := ih hrest (hans.tail (.refl _))
      have hne : workerID ≠ "" := hhead
      refine ⟨next, .terminateTask taskID workerID :: commands, ?_, hran.other ⟨rfl, rfl⟩ rfl⟩
      simp [runActions, hrun, hne]
    | some (.addInput flowInfo) =>
      obtain ⟨next, commands, hrun, hran⟩ := ih hrest (hans.tail (.refl _))
      refine ⟨next, .addInputEntity flowInfo :: commands, ?_, hran.other rfl rfl⟩
      rw [runActions, hrun, ok_bind]
    | some (.removeInput entityID taskInstanceID workerID) =>
      obtain ⟨next, commands, hrun, hran⟩ := ih hrest (hans.tail (.refl _))
      refine ⟨next, .removeInputEntity entityID taskInstanceID workerID :: commands, ?_,
        hran.other ⟨rfl, rfl, rfl⟩ rfl⟩
      rw [runActions, hrun, ok_bind]

-- when all tasks that were not added are ready, they are so after the loop
theorem ready_of_ran (h : Ran flow actions next commands)
    (hsame : SameTasks flow.executionPlan next.executionPlan)
    (hkey : ∀ k task, flow.executionPlan.get k = some task → lastItem task.taskID = k)
    (hdeployed : ∀ k task, flow.executionPlan.get k = some task → task.taskID ∉ adds actions →
      ∃ scheduled, flow.deploymentPlan.get task.taskID = some scheduled ∧
        scheduled.workerID = task.workerID ∧ task.workerID ≠ "")
    (hnamed : ∀ id scheduled, flow.deploymentPlan.get id = some scheduled →
      scheduled.workerID ≠ "") : Ready next where
  key := by
    intro k task hk
    obtain ⟨old, hold, heq⟩ := Option.map_eq_some_iff.mp ((hsame k).symm.trans (by rw [hk]; rfl))
    rw [← (Prod.mk.inj heq).1]
    exact hkey k old hold
  deployed := by
    intro k task hk
    by_cases hadded : task.taskID ∈ adds actions
    · obtain ⟨scheduled, -, -, hs, hne, hworker⟩ := h.assigned _ hadded
      exact ⟨scheduled, hs, (hworker k task hk rfl).symm, hworker k task hk rfl ▸ hne⟩
    · obtain ⟨hdep, hplan⟩ := h.kept _ hadded
      rw [hdep]
      exact hdeployed k task ((hplan k task rfl).mp hk) hadded
  named := by
    intro id scheduled hs
    by_cases hadded : id ∈ adds actions
    · obtain ⟨scheduled', -, -, hs', hne, -⟩ := h.assigned id hadded
      obtain rfl := Option.some.inj (hs.symm.trans hs')
      exact hne
    · exact hnamed id scheduled ((h.kept id hadded).1 ▸ hs)

end

end FogFlow.Master
