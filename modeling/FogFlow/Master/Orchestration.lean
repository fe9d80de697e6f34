import FogFlow.Library.Execution
import FogFlow.Master.FogFlow

namespace FogFlow.Master

open Ngsi Datamodel Loop

-- the calls to the master that send the commands to the workers
inductive Command where
  | deployTask (taskInstance : ScheduledTaskInstance)
  | terminateTask (taskID workerID : String)
  | addInputEntity (flowInfo : FlowInfo)
  | removeInputEntity (entityID taskInstanceID workerID : String)
deriving DecidableEq, Repr

-- the last item of the id split at its dots
def lastItem (id : String) : String :=
  String.ofList (id.toList.foldl (fun item c => if c = '.' then [] else item ++ [c]) [])

def getLocationOfInputs (executionPlan : GoMap TaskConfig) (hashID : String) :
    Except Fault (List Point) := do
  let task ← deref (executionPlan.get hashID)
  .ok (task.inputs.map InputEntity.location)

def updateDeploymentPlan (flow : FogFlow) (scheduledTask : ScheduledTaskInstance) : FogFlow :=
  { flow with deploymentPlan := flow.deploymentPlan.set scheduledTask.id scheduledTask }

def assignWorker (scheduledTask : ScheduledTaskInstance) (task : TaskConfig) : TaskConfig :=
  if task.taskID = scheduledTask.id then { task with workerID := scheduledTask.workerID } else task

def updateExecutionPlan (flow : FogFlow) (scheduledTask : ScheduledTaskInstance) : FogFlow :=
  { flow with executionPlan := flow.executionPlan.mapVals (assignWorker scheduledTask) }

def runActions (selectWorker : Nat → List Point → String) :
    Nat → FogFlow → Actions → Except Fault (FogFlow × List Command)
  | _, flow, [] => .ok (flow, [])
  | _, _, none :: _ => .error .nilDereference
  | n, flow, some (.addTask taskInstance) :: rest => do
      let locations ← getLocationOfInputs flow.executionPlan (lastItem taskInstance.id)
      let selectedWorkerID := selectWorker n locations
      if selectedWorkerID = "" then .ok (flow, [])
      else do
        let scheduled := { taskInstance with workerID := selectedWorkerID }
        let flow := updateExecutionPlan (updateDeploymentPlan flow scheduled) scheduled
        let result ← runActions selectWorker (n + 1) flow rest
        .ok (result.1, .deployTask scheduled :: result.2)
  | n, flow, some (.removeTask taskID workerID) :: rest => do
      let result ← runActions selectWorker (n + 1) flow rest
      .ok (result.1, (if workerID ≠ "" then [.terminateTask taskID workerID] else []) ++ result.2)
  | n, flow, some (.addInput flowInfo) :: rest => do
      let result ← runActions selectWorker (n + 1) flow rest
      .ok (result.1, .addInputEntity flowInfo :: result.2)
  | n, flow, some (.removeInput entityID taskInstanceID workerID) :: rest => do
      let result ← runActions selectWorker (n + 1) flow rest
      .ok (result.1, .removeInputEntity entityID taskInstanceID workerID :: result.2)

structure Event where
  subID : String
  entityAction : EntityAction
  registeredEntity : EntityRegistration
  choices : Choices
  selectWorker : Nat → List Point → String

variable (marshal : GroupValue → String)

-- what HandleContextAvailabilityUpdate does with the flow it has looked up
def handleUpdate (flow : FogFlow) (e : Event) : Except Fault (FogFlow × List Command) := do
  let orchestrated ← metadataDrivenTaskOrchestration marshal e.choices flow e.subID e.entityAction
    e.registeredEntity
  runActions e.selectWorker 0 orchestrated.1 orchestrated.2

-- a fault ends the master, so the run has no further step
def step (flow : FogFlow) (e : Event) : Option FogFlow :=
  (handleUpdate marshal flow e).toOption.map (fun result => result.1)

-- the two plans of inputs agree: only the worker of a task may differ
def SameTasks (plan plan' : GoMap TaskConfig) : Prop :=
  ∀ k, (plan'.get k).map (fun task => (task.taskID, task.inputs)) =
    (plan.get k).map (fun task => (task.taskID, task.inputs))

variable {marshal}

theorem SameTasks.refl (plan : GoMap TaskConfig) : SameTasks plan plan := fun _ => rfl

theorem SameTasks.trans {p q r : GoMap TaskConfig} (h : SameTasks p q) (h' : SameTasks q r) :
    SameTasks p r :=
  fun k => (h' k).trans (h k)

@[simp] theorem assignWorker_taskID (scheduledTask : ScheduledTaskInstance) (task : TaskConfig) :
    (assignWorker scheduledTask task).taskID = task.taskID := by
  unfold assignWorker
  split_ifs <;> rfl

@[simp] theorem assignWorker_inputs (scheduledTask : ScheduledTaskInstance) (task : TaskConfig) :
    (assignWorker scheduledTask task).inputs = task.inputs := by
  unfold assignWorker
  split_ifs <;> rfl

theorem sameTasks_updateExecutionPlan (flow : FogFlow) (scheduledTask : ScheduledTaskInstance) :
    SameTasks flow.executionPlan (updateExecutionPlan flow scheduledTask).executionPlan := by
  intro k
  simp [updateExecutionPlan, Function.comp_def]

theorem step_eq_some {flow next : FogFlow} {e : Event} :
    step marshal flow e = some next ↔
      ∃ orchestrated commands, metadataDrivenTaskOrchestration marshal e.choices flow e.subID
          e.entityAction e.registeredEntity = .ok orchestrated ∧
        runActions e.selectWorker 0 orchestrated.1 orchestrated.2 = .ok (next, commands) := by
  unfold step handleUpdate
  cases h : metadataDrivenTaskOrchestration marshal e.choices flow e.subID e.entityAction
      e.registeredEntity with
  | error fault => simp [bind, Except.bind, Except.toOption]
  | ok orchestrated =>
    rw [ok_bind]
    cases h' : runActions e.selectWorker 0 orchestrated.1 orchestrated.2 with
    | error fault => simp [Except.toOption, h']
    | ok result =>
      simp only [Except.toOption, Option.map_some, Option.some.injEq]
      constructor
      · rintro rfl
        exact ⟨orchestrated, result.2, rfl, h'⟩
      · rintro ⟨orchestrated', commands, ho, hr⟩
        obtain rfl := Except.ok.inj ho
        rw [h'] at hr
        rw [Except.ok.inj hr]

-- running the actions assigns workers and touches nothing else of the flow
structure Scheduled (flow next : FogFlow) : Prop where
  intent : next.intent = flow.intent
  uniqueKeys : next.uniqueKeys = flow.uniqueKeys
  subscriptions : next.subscriptions = flow.subscriptions
  executionPlan : SameTasks flow.executionPlan next.executionPlan

theorem Scheduled.refl (flow : FogFlow) : Scheduled flow flow := ⟨rfl, rfl, rfl, .refl _⟩

theorem Scheduled.trans {f g h : FogFlow} (hfg : Scheduled f g) (hgh : Scheduled g h) :
    Scheduled f h :=
  ⟨hgh.intent.trans hfg.intent, hgh.uniqueKeys.trans hfg.uniqueKeys,
    hgh.subscriptions.trans hfg.subscriptions, hfg.executionPlan.trans hgh.executionPlan⟩

theorem scheduled_assign (flow : FogFlow) (scheduledTask : ScheduledTaskInstance) :
    Scheduled flow (updateExecutionPlan (updateDeploymentPlan flow scheduledTask) scheduledTask) :=
  ⟨rfl, rfl, rfl, sameTasks_updateExecutionPlan (updateDeploymentPlan flow scheduledTask) _⟩

theorem scheduled_runActions {selectWorker : Nat → List Point → String} {n : Nat}
    {flow next : FogFlow} {actions : Actions} {commands : List Command}
    (h : runActions selectWorker n flow actions = .ok (next, commands)) :
    Scheduled flow next := by
  induction actions generalizing n flow commands with
  | nil =>
    obtain ⟨rfl, -⟩ := Prod.mk.inj (Except.ok.inj h)
    exact .refl flow
  | cons action rest ih =>
    match action with
    | none => simp [runActions] at h
    | some (.addTask taskInstance) =>
      simp only [runActions] at h
      obtain ⟨locations, -, h⟩ := bind_eq_ok.mp h
      split_ifs at h
      · obtain ⟨rfl, -⟩ := Prod.mk.inj (Except.ok.inj h)
        exact .refl flow
      · obtain ⟨result, hr, h⟩ := bind_eq_ok.mp h
        obtain ⟨rfl, -⟩ := Prod.mk.inj (Except.ok.inj h)
        exact (scheduled_assign flow _).trans (ih hr)
    | some (.removeTask _ _) | some (.addInput _) | some (.removeInput _ _ _) =>
      simp only [runActions] at h
      obtain ⟨result, hr, h⟩ := bind_eq_ok.mp h
      obtain ⟨rfl, -⟩ := Prod.mk.inj (Except.ok.inj h)
      exact ih hr

end FogFlow.Master
