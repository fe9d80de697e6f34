import FogFlow.Library.Inbox
import FogFlow.Worker.Containers

namespace FogFlow.Designer

open Datamodel Worker

-- a TASK_UPDATE has a Status and no Info
structure UpdateMsg where
  taskID : String
  topologyName : String
  taskName : String
  serviceIntentID : String
  status : String
deriving DecidableEq, Repr

structure JsonMsg where
  fromWorker : String
  payLoad : UpdateMsg
deriving DecidableEq, Repr

structure TaskEntry where
  updateMsg : UpdateMsg
  worker : String
deriving DecidableEq, Repr

abbrev TaskMap := GoMap TaskEntry

-- a task that is listed keeps its worker
def updateTaskList (taskMap : TaskMap) (updateMsg : UpdateMsg) (fromWorker : String) :
    TaskMap :=
  match taskMap.get updateMsg.taskID with
  | some entry => taskMap.set updateMsg.taskID
      { entry with updateMsg := { entry.updateMsg with status := updateMsg.status } }
  | none => taskMap.set updateMsg.taskID ⟨updateMsg, fromWorker⟩

def removeTask (taskMap : TaskMap) (taskID : String) : TaskMap := taskMap.delete taskID

def onTaskUpdate (taskMap : TaskMap) (msg : JsonMsg) : TaskMap :=
  if msg.payLoad.status == "removed" then removeTask taskMap msg.payLoad.taskID
  else updateTaskList taskMap msg.payLoad msg.fromWorker

-- what a message makes of the entry of its task
def entryAfter (entry : Option TaskEntry) (msg : JsonMsg) : Option TaskEntry :=
  if msg.payLoad.status == "removed" then none
  else
    match entry with
    | some entry =>
        some { entry with updateMsg := { entry.updateMsg with status := msg.payLoad.status } }
    | none => some ⟨msg.payLoad, msg.fromWorker⟩

def JsonMsg.taskID (msg : JsonMsg) : String := msg.payLoad.taskID

theorem get_onTaskUpdate (taskMap : TaskMap) (msg : JsonMsg) (t : String) :
    (onTaskUpdate taskMap msg).get t =
      if msg.taskID = t then entryAfter (taskMap.get t) msg else taskMap.get t := by
  unfold onTaskUpdate entryAfter JsonMsg.taskID
  by_cases ht : msg.payLoad.taskID = t
  · subst ht
    rw [if_pos rfl]
    split_ifs
    · simp [removeTask, GoMap.get_delete]
    · unfold updateTaskList
      cases hget : taskMap.get msg.payLoad.taskID with
      | none => simp
      | some entry => simp
  · have hne : t ≠ msg.payLoad.taskID := Ne.symm ht
    rw [if_neg ht]
    split_ifs
    · exact GoMap.get_delete_ne _ hne
    · unfold updateTaskList
      cases hget : taskMap.get msg.payLoad.taskID with
      | none => exact GoMap.get_set_ne _ _ hne
      | some entry => exact GoMap.get_set_ne _ _ hne

def TaskStatus.text : TaskStatus → String
  | .scheduled => "scheduled"
  | .running => "running"
  | .paused => "paused"

def messageOf (task : ScheduledTaskInstance) (state : TaskStatus) : UpdateMsg :=
  ⟨task.id, task.topologyName, task.taskName, task.serviceIntentID, TaskStatus.text state⟩

-- the message that TaskUpdate publishes from a goroutine of its own
def sent : Effect → Option UpdateMsg
  | .taskUpdate update => some ⟨update.taskID, update.topologyName, update.taskName,
      update.serviceIntentID, TaskStatus.text update.status⟩
  | _ => none

def reported : Call → Option UpdateMsg
  | .taskUpdate topologyName taskName taskID serviceIntentID state =>
      some ⟨taskID, topologyName, taskName, serviceIntentID, state⟩
  | _ => none

inductive SiteEvent where
  | scheduled (task : ScheduledTaskInstance)
  | terminated (taskID : String)
  | run (i : Nat) (answers : Answers)

-- one step of a worker and what it publishes
def siteStep (s : WorkerSystem) (event : SiteEvent) :
    Option (WorkerSystem × List UpdateMsg) :=
  if s.executor.crashed then none
  else
    match event with
    | .scheduled task =>
        let handled := onScheduledTask s.allTasks task
        some (⟨handled.1, spawn s.executor handled.2⟩, handled.2.filterMap sent)
    | .terminated taskID =>
        let handled := onTerminateTask s.allTasks taskID
        some (⟨handled.1, spawn s.executor handled.2⟩, handled.2.filterMap sent)
    | .run i answers =>
        (s.executor.goroutines[i]?).map (fun goroutine =>
          let e := runGoroutine s.executor i answers goroutine
          (⟨s.allTasks, e⟩, (e.calls.drop s.executor.calls.length).filterMap reported))

-- the workers, the messages under way in the order of their publication, and the designer
structure Deployment where
  sites : String → WorkerSystem
  underWay : List JsonMsg
  taskMap : TaskMap

def Deployment.init : Deployment := ⟨fun _ => .init, [], ∅⟩

inductive Event where
  | site (wid : String) (event : SiteEvent)
  | arrive (i : Nat)

def step (s : Deployment) : Event → Option Deployment
  | .site wid event =>
      (siteStep (s.sites wid) event).map (fun next =>
        { s with
          sites := Function.update s.sites wid next.1
          underWay := s.underWay ++ next.2.map (JsonMsg.mk wid) })
  | .arrive i =>
      (s.underWay[i]?).map (fun msg =>
        { s with
          underWay := s.underWay.eraseIdx i
          taskMap := onTaskUpdate s.taskMap msg })

end FogFlow.Designer
