import FogFlow.Datamodel
import FogFlow.Library.Execution

namespace FogFlow.Worker

open Ngsi Datamodel

structure TaskContext where
  refURL : String
  subscriptions : List String
  entityID2SubID : GoMap String
  outputStreams : List EntityId
  containerID : Nat
  taskID : String
  topologyName : String
  taskName : String
  serviceIntentID : String

-- what a TerminateTask has read in its first section
structure Terminating where
  taskID : String
  paused : Bool
  containerID : Nat
  topologyName : String
  taskName : String
  serviceIntentID : String
deriving DecidableEq, Repr

-- an operation between two of its steps, of which at most one takes taskMap_lock
inductive Goroutine where
  | startTask (task : ScheduledTaskInstance)
  | register (task : ScheduledTaskInstance) (containerID : Nat) (refURL : String)
  | delayedInputs (taskInstanceID : String)
  | lookUp (taskID : String) (paused : Bool)
  | stopTask (termination : Terminating)
  | cleanUp (termination : Terminating)

-- the requests to the broker and the reports to the master
inductive Call where
  | subscribe (reference correlatorID : String) (inputStream : InputStream)
  | unsubscribe (sid : String)
  | deleteContext (eid : EntityId)
  | taskUpdate (topologyName taskName taskID serviceIntentID state : String)
deriving DecidableEq, Repr

structure Executor where
  taskInstances : GoMap TaskContext
  delayedAddInputCommands : GoMap (List FlowInfo)
  containers : List (Nat × String)
  started : Nat
  goroutines : List Goroutine
  calls : List Call
  crashed : Bool

def Executor.init : Executor := ⟨∅, ∅, [], 0, [], [], false⟩

def taskContext (task : ScheduledTaskInstance) (containerID : Nat) (refURL : String) :
    TaskContext where
  refURL := refURL
  subscriptions := []
  entityID2SubID := ∅
  outputStreams := task.outputs.map (fun outStream => ⟨outStream.type, false, outStream.streamID⟩)
  containerID := containerID
  taskID := task.id
  topologyName := task.topologyName
  taskName := task.taskName
  serviceIntentID := task.serviceIntentID

-- a failed subscription is logged and leaves no trace in the context
def subscribed (taskCtx : TaskContext) (inputStream : InputStream) (answer : Option String) :
    TaskContext :=
  match answer with
  | some subID => { taskCtx with
      subscriptions := taskCtx.subscriptions ++ [subID]
      entityID2SubID := taskCtx.entityID2SubID.set inputStream.id subID }
  | none => taskCtx

def subscribeInputs (taskCtx : TaskContext) (inputs : List InputStream)
    (answers : Nat → Option String) : TaskContext :=
  inputs.zipIdx.foldl (fun taskCtx input => subscribed taskCtx input.1 (answers input.2)) taskCtx

def pubSub (inputs : List InputStream) : List InputStream :=
  inputs.filter (fun inputStream => inputStream.provisionMethod == "Pub-Sub")

def subscribeCalls (taskCtx : TaskContext) (inputs : List InputStream) : List Call :=
  inputs.map (fun inputStream => .subscribe taskCtx.refURL taskCtx.taskID inputStream)

def cleanUpCalls (taskCtx : TaskContext) (termination : Terminating) : List Call :=
  taskCtx.subscriptions.map .unsubscribe ++ taskCtx.outputStreams.map .deleteContext ++
    [.taskUpdate termination.topologyName termination.taskName termination.taskID
      termination.serviceIntentID (if termination.paused then "paused" else "removed")]

def handleDelayedAddInputCommands (e : Executor) (taskInstanceID : String)
    (answers : Nat → Option String) : Executor :=
  match e.delayedAddInputCommands.get taskInstanceID with
  | none => e
  | some flowList =>
      match e.taskInstances.get taskInstanceID, flowList with
      | _, [] => { e with
          delayedAddInputCommands := e.delayedAddInputCommands.delete taskInstanceID }
      | none, _ :: _ => { e with crashed := true }
      | some taskCtx, _ :: _ =>
          let inputs := flowList.map FlowInfo.inputStream
          { e with
            taskInstances := e.taskInstances.set taskInstanceID
              (subscribeInputs taskCtx inputs answers)
            delayedAddInputCommands := e.delayedAddInputCommands.delete taskInstanceID
            calls := e.calls ++ subscribeCalls taskCtx inputs }

-- what the environment answers: the engine a URL or an error, the broker an id or an error
structure Answers where
  refURL : Option String
  subIDs : Nat → Option String

def runGoroutine (e : Executor) (i : Nat) (answers : Answers) : Goroutine → Executor
  | .startTask task =>
      match answers.refURL with
      | none => { e with goroutines := e.goroutines.eraseIdx i }
      | some refURL => { e with
          containers := e.containers ++ [(e.started, task.id)]
          started := e.started + 1
          goroutines := e.goroutines.set i (.register task e.started refURL) }
  | .register task containerID refURL =>
      let taskCtx := taskContext task containerID refURL
      { e with
        taskInstances := e.taskInstances.set task.id
          (subscribeInputs taskCtx (pubSub task.inputs) answers.subIDs)
        goroutines := e.goroutines.set i (.delayedInputs task.id)
        calls := e.calls ++ subscribeCalls taskCtx (pubSub task.inputs) }
  | .delayedInputs taskInstanceID =>
      handleDelayedAddInputCommands { e with goroutines := e.goroutines.eraseIdx i } taskInstanceID
        answers.subIDs
  | .lookUp taskID paused =>
      match e.taskInstances.get taskID with
      | none => { e with goroutines := e.goroutines.eraseIdx i }
      | some taskCtx => { e with
          goroutines := e.goroutines.set i (.stopTask ⟨taskID, paused, taskCtx.containerID,
            taskCtx.topologyName, taskCtx.taskName, taskCtx.serviceIntentID⟩) }
  | .stopTask termination => { e with
      containers := e.containers.filter (fun container => container.1 != termination.containerID)
      goroutines := e.goroutines.set i (.cleanUp termination) }
  | .cleanUp termination =>
      match e.taskInstances.get termination.taskID with
      | none => { e with crashed := true }
      | some taskCtx => { e with
          taskInstances := e.taskInstances.delete termination.taskID
          goroutines := e.goroutines.eraseIdx i
          calls := e.calls ++ cleanUpCalls taskCtx termination }

def onAddInput (startActualTask : Bool) (e : Executor) (flow : FlowInfo)
    (answer : Option String) : Executor :=
  if startActualTask = false then e
  else
    match e.taskInstances.get flow.taskInstanceID with
    | some taskCtx => { e with
        taskInstances := e.taskInstances.set flow.taskInstanceID
          (subscribed taskCtx flow.inputStream answer)
        calls := e.calls ++ subscribeCalls taskCtx [flow.inputStream] }
    | none => { e with
        delayedAddInputCommands := e.delayedAddInputCommands.set flow.taskInstanceID
          (e.delayedAddInputCommands.slice flow.taskInstanceID ++ [flow]) }

-- an input that was never subscribed has the empty subscription id
def onRemoveInput (startActualTask : Bool) (e : Executor) (flow : FlowInfo) : Executor :=
  if startActualTask = false then e
  else
    match e.taskInstances.get flow.taskInstanceID with
    | none => { e with crashed := true }
    | some taskCtx =>
        let subID := (taskCtx.entityID2SubID.get flow.inputStream.id).getD ""
        { e with
          taskInstances := e.taskInstances.set flow.taskInstanceID { taskCtx with
            subscriptions := taskCtx.subscriptions.erase subID
            entityID2SubID := taskCtx.entityID2SubID.delete flow.inputStream.id }
          calls := e.calls ++ [.unsubscribe subID] }

inductive Operation where
  | launchTask (task : ScheduledTaskInstance)
  | terminateTask (taskID : String) (paused : Bool)
  | onAddInput (flow : FlowInfo) (answer : Option String)
  | onRemoveInput (flow : FlowInfo)
  | run (i : Nat) (answers : Answers)

-- a nil dereference stops the worker
def operate (startActualTask : Bool) (e : Executor) (operation : Operation) : Option Executor :=
  if e.crashed then none
  else
    match operation with
    | .launchTask task => some { e with goroutines := e.goroutines ++ [.startTask task] }
    | .terminateTask taskID paused =>
        some { e with goroutines := e.goroutines ++ [.lookUp taskID paused] }
    | .onAddInput flow answer => some (onAddInput startActualTask e flow answer)
    | .onRemoveInput flow => some (onRemoveInput startActualTask e flow)
    | .run i answers => (e.goroutines[i]?).map (runGoroutine e i answers)

end FogFlow.Worker
