import FogFlow.Datamodel
import FogFlow.Library.Execution
import FogFlow.Library.Preemption

namespace FogFlow.Worker

open Datamodel Execution Preemption

abbrev Tasks := GoMap ScheduledTaskInstance

-- the goroutines and messages that a handler starts
inductive Effect where
  | launchTask (task : ScheduledTaskInstance)
  | terminateTask (taskID : String) (paused : Bool)
  | taskUpdate (update : TaskUpdate)
deriving DecidableEq, Repr

def updateOf (task : ScheduledTaskInstance) (state : TaskStatus) : Effect :=
  .taskUpdate ⟨task.topologyName, task.taskName, task.id, task.serviceIntentID, state⟩

-- the incoming new task can not run against the existing task
def cannotRun (task existTask : ScheduledTaskInstance) : Bool :=
  (task.isExclusive == false && existTask.isExclusive == true) ||
  (task.isExclusive == true && existTask.isExclusive == true &&
    decide (existTask.priorityLevel > task.priorityLevel))

-- the existing task is overtaken by the incoming new task
def overTaken (task existTask : ScheduledTaskInstance) : Bool :=
  (task.isExclusive == true && existTask.isExclusive == false) ||
  (task.isExclusive == true && existTask.isExclusive == true &&
    decide (existTask.priorityLevel < task.priorityLevel))

def pause (task existTask : ScheduledTaskInstance) : ScheduledTaskInstance :=
  if overTaken task existTask then { existTask with status := .paused } else existTask

def onScheduledTask (allTasks : Tasks) (task : ScheduledTaskInstance) : Tasks × List Effect :=
  let runnable := !allTasks.values.any (cannotRun task)
  let pauses := (allTasks.values.filter (overTaken task)).flatMap (fun existTask =>
    [.terminateTask existTask.id true, updateOf existTask .paused])
  if runnable then
    ((allTasks.mapVals (pause task)).set task.id { task with status := .running },
      pauses ++ [.launchTask task, updateOf task .running])
  else
    ((allTasks.mapVals (pause task)).set task.id { task with status := .paused },
      pauses ++ [updateOf task .paused])

-- the loop that looks for the highest level among the paused exclusive tasks
def searchUrgent (tasks : List ScheduledTaskInstance) : Bool × Int :=
  tasks.foldl (fun found task =>
    if task.isExclusive == true && task.status != .running && decide (task.priorityLevel > found.2)
    then (true, task.priorityLevel) else found) (false, 0)

def resume (toResume : ScheduledTaskInstance → Bool) (task : ScheduledTaskInstance) :
    ScheduledTaskInstance :=
  if toResume task then { task with status := .running } else task

def resumeAll (allTasks : Tasks) (toResume : ScheduledTaskInstance → Bool) :
    Tasks × List Effect :=
  (allTasks.mapVals (resume toResume),
    (allTasks.values.filter toResume).flatMap (fun task =>
      [.launchTask task, updateOf task .running]))

def onTerminateTask (allTasks : Tasks) (taskID : String) : Tasks × List Effect :=
  match allTasks.get taskID with
  | none => (allTasks, [])
  | some myTask =>
      let stops := if myTask.status == .running then [Effect.terminateTask taskID false] else []
      let rest := allTasks.delete myTask.id
      if myTask.isExclusive == false then (rest, stops)
      else if rest.values.any (fun t => t.isExclusive == true && t.status == .running) then
        (rest, stops)
      else
        let urgent := searchUrgent rest.values
        let resumed :=
          if urgent.1 then resumeAll rest (fun task => task.priorityLevel == urgent.2)
          else resumeAll rest (fun task => task.status != .running)
        (resumed.1, stops ++ resumed.2)

inductive Command where
  | scheduled (task : ScheduledTaskInstance)
  | terminated (taskID : String)
deriving DecidableEq, Repr

def step (allTasks : Tasks) : Command → Option Tasks
  | .scheduled task => some (onScheduledTask allTasks task).1
  | .terminated taskID => some (onTerminateTask allTasks taskID).1

def scheduledTasks (commands : List Command) : List ScheduledTaskInstance :=
  commands.filterMap (fun
    | .scheduled task => some task
    | .terminated _ => none)

def exampleTask (id : String) (isExclusive : Bool) (priorityLevel : Int) :
    ScheduledTaskInstance :=
  ⟨id, "topology", "task", "intent", "operator", "worker", isExclusive, priorityLevel,
    .scheduled, [], []⟩

end FogFlow.Worker
