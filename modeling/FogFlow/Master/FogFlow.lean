import FogFlow.Master.Groups

set_option linter.dupNamespace false

namespace FogFlow.Master

open Ngsi Datamodel

structure InputEntity where
  id : String
  type : String
  attributeList : List String
  location : Point
  informationModel : String
  provisionMethod : String
  ngsildDelivery : String
  ngsildNotificationPath : String
deriving DecidableEq, Repr

structure TaskConfig where
  taskID : String
  name : String
  operator : String
  workerID : String
  status : TaskStatus
  inputs : List InputEntity
  outputs : List ContextElement
deriving DecidableEq, Repr

def TaskConfig.removeInput (taskCfg : TaskConfig) (entityID : String) : TaskConfig :=
  { taskCfg with inputs := taskCfg.inputs.filter (fun input => input.id != entityID) }

inductive DeploymentAction where
  | addTask (taskInstance : ScheduledTaskInstance)
  | removeTask (taskID workerID : String)
  | addInput (flowInfo : FlowInfo)
  | removeInput (entityID taskInstanceID workerID : String)
deriving DecidableEq, Repr

structure FogFlow where
  intent : TaskIntent
  uniqueKeys : GoMap (List GroupValue)
  subscriptions : GoMap InputSubscription
  executionPlan : GoMap TaskConfig
  deploymentPlan : GoMap ScheduledTaskInstance

def FogFlow.init (intent : TaskIntent) : FogFlow := ⟨intent, ∅, ∅, ∅, ∅⟩

def FogFlow.putTask (flow : FogFlow) (hashID : String) (task : TaskConfig) : FogFlow :=
  { flow with executionPlan := flow.executionPlan.set hashID task }

def FogFlow.dropTask (flow : FogFlow) (hashID : String) : FogFlow :=
  { flow with executionPlan := flow.executionPlan.delete hashID }

def FogFlow.putSubscription (flow : FogFlow) (subID : String) (sub : InputSubscription) :
    FogFlow :=
  { flow with subscriptions := flow.subscriptions.set subID sub }

inductive EntityAction where
  | create
  | update
  | delete
deriving DecidableEq, Repr

-- every map loop and every call of the worker selection of one event has an answer of its own:
-- the first index counts the groups, the second the calls made for that group
structure Choices where
  keyRank : String → Nat
  hashRank : Nat → Nat → String → Nat
  subRank : Nat → String → Nat
  regRank : Nat → String → String → Nat
  workerSelection : Nat → Nat → List Point → String

def inputEntity (selector : InputStreamConfig) (r : EntityRegistration) (location : Point) :
    InputEntity where
  id := if selector.isSimpleByType then "" else r.id
  type := r.type
  attributeList := selector.selectedAttributes
  location := location
  informationModel := selector.informationModel
  provisionMethod := selector.provisionMethod
  ngsildDelivery := selector.ngsildDelivery
  ngsildNotificationPath := selector.ngsildNotificationPath

def searchReceived (selector : InputStreamConfig) (group : GroupInfo)
    (entities : List InputEntity) (r : EntityRegistration) : Except Fault (List InputEntity) := do
  let matched ← isMatched r (restrictionsOf selector group)
  if matched then
    -- the type of the new input entity is still empty when it is compared
    if selector.isSimpleByType && entities.any (fun entity => entity.type == "") then .ok entities
    else do
      let location ← r.getLocation
      .ok (entities ++ [inputEntity selector r location])
  else .ok entities

def searchRelevantEntities (subscriptions : GoMap InputSubscription) (group : GroupInfo)
    (subRank : String → Nat) (regRank : String → String → Nat) :
    Except Fault (List InputEntity) :=
  (subscriptions.range subRank).foldlM (fun entities inputSub =>
    (inputSub.2.receivedEntityRegistrations.range (regRank inputSub.1)).foldlM
      (fun entities registration =>
        searchReceived inputSub.2.inputSelector group entities registration.2) entities) []

variable (marshal : GroupValue → String)

def generateOutputs (intent : TaskIntent) (hashRank : Nat → String → Nat) (group : GroupInfo) :
    List ContextElement :=
  intent.taskObject.outputStreams.zipIdx.map (fun outputStream =>
    ⟨⟨outputStream.1.entityType, false, outputStream.1.entityType ++ "." ++
        getHash marshal (hashRank outputStream.2) group ++ "." ++ toString (outputStream.2 + 1)⟩,
      "", [], []⟩)

def inputStream (inputEntity : InputEntity) : InputStream where
  type := inputEntity.type
  id := inputEntity.id
  attributeList := inputEntity.attributeList
  informationModel := inputEntity.informationModel
  provisionMethod := inputEntity.provisionMethod
  ngsildDelivery := inputEntity.ngsildDelivery
  ngsildNotificationPath := inputEntity.ngsildNotificationPath

def addNewTask (intent : TaskIntent) (task : TaskConfig) : DeploymentAction :=
  .addTask {
    id := task.taskID
    topologyName := intent.topologyName
    taskName := task.name
    serviceIntentID := intent.serviceIntentID
    operatorName := task.operator
    workerID := ""
    isExclusive := intent.priority.isExclusive
    priorityLevel := intent.priority.level
    status := .scheduled
    inputs := task.inputs.map inputStream
    outputs := task.outputs.map (fun ctxElem =>
      ⟨ctxElem.entity.type, ctxElem.entity.id, ctxElem.attributes⟩) }

def removeExistingTask (deploymentPlan : GoMap ScheduledTaskInstance) (task : TaskConfig) :
    Option DeploymentAction :=
  (deploymentPlan.get task.taskID).map (fun deployed => .removeTask task.taskID deployed.workerID)

def isNewInput (selector : InputStreamConfig) (task : TaskConfig) (entity : InputEntity) : Bool :=
  !task.inputs.any (fun input =>
    if !selector.isSimpleByType then input.id == entity.id else input.type == entity.type)

-- the first input of the entity that is at another place gets the new location
def relocate (entity : InputEntity) : List InputEntity → List InputEntity × Bool
  | [] => ([], false)
  | input :: rest =>
      if input.id == entity.id && !input.location.isEqual entity.location then
        ({ input with location := entity.location } :: rest, true)
      else (input :: (relocate entity rest).1, (relocate entity rest).2)

def newInputEntity (selector : InputStreamConfig) (entity : InputEntity) : InputEntity :=
  { entity with
    attributeList := selector.selectedAttributes
    informationModel := selector.informationModel
    provisionMethod := selector.provisionMethod
    ngsildDelivery := selector.ngsildDelivery
    ngsildNotificationPath := selector.ngsildNotificationPath }

abbrev Actions := List (Option DeploymentAction)

def newOptimalWorkerID (workerSelection : List Point → String)
    (moved : List InputEntity × Bool) (task : TaskConfig) : String :=
  if moved.2 then workerSelection (moved.1.map InputEntity.location) else task.workerID

def removeTaskAction (flow : FogFlow) (task : TaskConfig) : Actions :=
  if task.workerID ≠ "" then [removeExistingTask flow.deploymentPlan task] else []

def mergeInput (flow : FogFlow) (selector : InputStreamConfig)
    (workerSelection : Nat → List Point → String) (state : TaskConfig × Actions)
    (entity : InputEntity × Nat) : Except Fault (TaskConfig × Actions) :=
  let task := state.1
  if isNewInput selector task entity.1 then do
    let deployed ← deref (flow.deploymentPlan.get task.taskID)
    let input := newInputEntity selector entity.1
    .ok ({ task with inputs := task.inputs ++ [input] },
      state.2 ++ [some (.addInput ⟨inputStream input, task.taskID, deployed.workerID⟩)])
  else
    let moved := relocate entity.1 task.inputs
    let workerID := newOptimalWorkerID (workerSelection entity.2) moved task
    let task := { task with inputs := moved.1 }
    if workerID ≠ task.workerID then
      let migrated := { task with workerID := workerID }
      .ok (migrated,
        state.2 ++ removeTaskAction flow task ++ [some (addNewTask flow.intent migrated)])
    else .ok (task, state.2)

def newTask (intent : TaskIntent) (hashID : String) (inputs : List InputEntity)
    (outputs : List ContextElement) : TaskConfig where
  taskID := "Task." ++ intent.topologyName ++ "." ++ intent.taskObject.name ++ "." ++ hashID
  name := intent.taskObject.name
  operator := intent.taskObject.operator
  workerID := ""
  status := .scheduled
  inputs := inputs
  outputs := outputs

def expandGroup (choices : Choices) (selector : InputStreamConfig) (state : FogFlow × Actions)
    (group : GroupInfo × Nat) : Except Fault (FogFlow × Actions) := do
  let flow := state.1
  let i := group.2
  let hashID := getHash marshal (choices.hashRank i 0) group.1
  let entitiesList ← searchRelevantEntities flow.subscriptions group.1 (choices.subRank i)
    (choices.regRank i)
  match flow.executionPlan.get hashID with
  | some task =>
      let merged ← entitiesList.zipIdx.foldlM
        (mergeInput flow selector (choices.workerSelection i)) (task, state.2)
      .ok (flow.putTask hashID merged.1, merged.2)
  | none =>
      let task := newTask flow.intent hashID entitiesList
        (generateOutputs marshal flow.intent (fun j => choices.hashRank i (j + 1)) group.1)
      .ok (flow.putTask hashID task, state.2 ++ [some (addNewTask flow.intent task)])

def expandExecutionPlan (choices : Choices) (flow : FogFlow) (entityID : String)
    (inputSubscription : InputSubscription) : Except Fault (FogFlow × Actions) := do
  let groups ← getRelevantGroups choices.keyRank flow.uniqueKeys inputSubscription entityID
  groups.zipIdx.foldlM (expandGroup marshal choices inputSubscription.inputSelector) (flow, [])

def checkInputsOfTaskInstance (intent : TaskIntent) (taskCfg : TaskConfig) : Bool :=
  intent.taskObject.inputStreams.all (fun inputstream =>
    taskCfg.inputs.any (fun input => input.type == inputstream.entityType))

def removeGroup (choices : Choices) (entityID : String) (state : FogFlow × Actions)
    (group : GroupInfo × Nat) : Except Fault (FogFlow × Actions) :=
  let flow := state.1
  let hashID := getHash marshal (choices.hashRank group.2 0) group.1
  match flow.executionPlan.get hashID with
  | none => .ok state
  | some existing =>
      let task := existing.removeInput entityID
      if !checkInputsOfTaskInstance flow.intent task then
        let deploymentAction := (removeExistingTask flow.deploymentPlan task).toList
        .ok (flow.dropTask hashID, state.2 ++ deploymentAction.map some)
      else do
        let deployed ← deref (flow.deploymentPlan.get task.taskID)
        .ok (flow.putTask hashID task,
          state.2 ++ [some (.removeInput entityID task.taskID deployed.workerID)])

def removeExecutionPlan (choices : Choices) (flow : FogFlow) (entityID : String)
    (inputSubscription : InputSubscription) : Except Fault (FogFlow × Actions) := do
  let groups ← getRelevantGroups choices.keyRank flow.uniqueKeys inputSubscription entityID
  groups.zipIdx.foldlM (removeGroup marshal choices entityID) (flow, [])

def checkInputAvailability (subscriptions : GoMap InputSubscription) : Bool :=
  subscriptions.values.all (fun inputSubscription =>
    !inputSubscription.receivedEntityRegistrations.values.isEmpty)

def receivedKey (sub : InputSubscription) (entityID : String) : String :=
  if sub.inputSelector.isSimpleByType then "*" else entityID

def receive (sub : InputSubscription) (registeredEntity : EntityRegistration) :
    InputSubscription :=
  let entityID := receivedKey sub registeredEntity.id
  let registrations := sub.receivedEntityRegistrations
  match registrations.get entityID with
  | some existEntityRegistration =>
      if !sub.inputSelector.isSimpleByType then
        { sub with receivedEntityRegistrations :=
            registrations.set entityID (existEntityRegistration.update registeredEntity) }
      else sub
  | none => { sub with receivedEntityRegistrations := registrations.set entityID registeredEntity }

def forget (sub : InputSubscription) (entityID : String) : InputSubscription :=
  { sub with
    receivedEntityRegistrations := sub.receivedEntityRegistrations.delete entityID }

def metadataDrivenTaskOrchestration (choices : Choices) (flow : FogFlow) (subID : String)
    (entityAction : EntityAction) (registeredEntity : EntityRegistration) :
    Except Fault (FogFlow × Actions) :=
  match flow.subscriptions.get subID with
  | none => .ok (flow, [])
  | some inputSubscription =>
      let entityID := receivedKey inputSubscription registeredEntity.id
      match entityAction with
      | .create | .update => do
          let updated := receive inputSubscription registeredEntity
          let uniqueKeys ← updateGroupedKeyValueTable flow.uniqueKeys updated entityID
          let flow := { flow.putSubscription subID updated with uniqueKeys := uniqueKeys }
          if checkInputAvailability flow.subscriptions then
            expandExecutionPlan marshal choices flow entityID updated
          else .ok (flow, [])
      | .delete =>
          match inputSubscription.receivedEntityRegistrations.get entityID with
          | none => .ok (flow, [])
          | some _ =>
              if checkInputAvailability flow.subscriptions then
                removeExecutionPlan marshal choices flow entityID inputSubscription
              else
                .ok (flow.putSubscription subID (forget inputSubscription entityID), [])

end FogFlow.Master
