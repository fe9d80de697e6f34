import FogFlow.Library.Bus
import FogFlow.Worker.TaskList

namespace FogFlow.Communicator

open Datamodel Execution Worker

inductive MessageType where
  | addTask
  | removeTask
deriving DecidableEq, Repr

structure SendMessage where
  type : MessageType
  routingKey : String
  payLoad : ScheduledTaskInstance
deriving DecidableEq, Repr

def addTask (task : ScheduledTaskInstance) : SendMessage :=
  ⟨.addTask, task.workerID ++ ".", task⟩

def removeTask (task : ScheduledTaskInstance) : SendMessage :=
  ⟨.removeTask, task.workerID ++ ".", task⟩

structure WorkerProfile where
  wid : String
  capacity : Int
  workload : Int
deriving DecidableEq, Repr

-- the master's part, the bus and the part of the one worker that the queue belongs to
structure System where
  workers : GoMap WorkerProfile
  curNumOfTasks : Nat
  bus : Bus SendMessage
  allTasks : Tasks

def System.initial : System := ⟨∅, 0, .empty, ∅⟩

inductive Event where
  | onWorkerJoin (profile : WorkerProfile)
  | onHeartbeat (profile : WorkerProfile)
  | onWorkerLeave (profile : WorkerProfile)
  | onTimer (notLive : List String)
  | deployTask (taskInstance : ScheduledTaskInstance)
  | terminateTask (taskInstance : ScheduledTaskInstance)
  | publish (msg : SendMessage)
  | consume
  | process (msg : SendMessage)
deriving DecidableEq, Repr

def onWorkerJoin (workers : GoMap WorkerProfile) (profile : WorkerProfile) :
    GoMap WorkerProfile :=
  match workers.get profile.wid with
  | some worker => workers.set profile.wid { worker with capacity := profile.capacity }
  | none => workers.set profile.wid { profile with workload := 0 }

def onHeartbeat (workers : GoMap WorkerProfile) (profile : WorkerProfile) :
    GoMap WorkerProfile :=
  match workers.get profile.wid with
  | some worker =>
      workers.set profile.wid
        { worker with capacity := profile.capacity, workload := profile.workload }
  | none => workers.set profile.wid { profile with workload := 0 }

def process (allTasks : Tasks) (msg : SendMessage) : Tasks :=
  match msg.type with
  | .addTask => (onScheduledTask allTasks msg.payLoad).1
  | .removeTask => (onTerminateTask allTasks msg.payLoad.id).1

-- of the keys that the master uses only the worker's own one matches the topic of its queue
def bound (wid : String) (msg : SendMessage) : Bool := msg.routingKey == wid ++ "."

def prefetchCount : Nat := 3

def step (wid : String) (s : System) : Event → Option System
  | .onWorkerJoin profile => some { s with workers := onWorkerJoin s.workers profile }
  | .onHeartbeat profile => some { s with workers := onHeartbeat s.workers profile }
  | .onWorkerLeave profile => some { s with workers := s.workers.delete profile.wid }
  | .onTimer notLive => some { s with workers := notLive.foldl GoMap.delete s.workers }
  | .deployTask taskInstance =>
      -- for an unknown worker the nil profile is dereferenced, which ends the master
      (s.workers.get taskInstance.workerID).map (fun workerProfile =>
        { s with
          curNumOfTasks := s.curNumOfTasks + 1
          bus := s.bus.spawn (addTask taskInstance)
          workers := s.workers.set taskInstance.workerID
            { workerProfile with workload := workerProfile.workload + 1 } })
  | .terminateTask taskInstance =>
      match s.workers.get taskInstance.workerID with
      | none => some s
      | some workerProfile =>
          some { s with
            bus := s.bus.post (bound wid) (removeTask taskInstance)
            workers := s.workers.set taskInstance.workerID
              { workerProfile with workload := workerProfile.workload - 1 } }
  | .publish msg => (s.bus.publish (bound wid) msg).map (fun bus => { s with bus := bus })
  | .consume => (s.bus.consume prefetchCount).map (fun bus => { s with bus := bus })
  | .process msg =>
      (s.bus.ack msg).map (fun bus => { s with bus := bus, allTasks := process s.allTasks msg })

-- the kind of the last message about the task that the worker has handled
def lastHandled (taskID : String) (events : List Event) : Option MessageType :=
  events.foldl (fun last event =>
    match event with
    | .process msg => if msg.payLoad.id = taskID then some msg.type else last
    | _ => last) none

-- the message that the master hands to the bus in this step
def SentBy (s : System) (msg : SendMessage) : Event → Prop
  | .deployTask taskInstance => msg = addTask taskInstance
  | .terminateTask taskInstance =>
      s.workers.get taskInstance.workerID ≠ none ∧ msg = removeTask taskInstance
  | _ => False

def Sent (wid : String) (msg : SendMessage) (events : List Event) : Prop :=
  ∃ before event s, before ++ [event] <+: events ∧
    exec (step wid) .initial before = some s ∧ SentBy s msg event

@[simp] theorem bound_addTask (wid : String) (task : ScheduledTaskInstance) :
    bound wid (addTask task) = true ↔ task.workerID = wid := by
  simp [bound, addTask]

theorem lastHandled_concat (k : String) (events : List Event) (event : Event) :
    lastHandled k (events ++ [event]) =
      match event with
      | .process msg => if msg.payLoad.id = k then some msg.type else lastHandled k events
      | _ => lastHandled k events := by
  simp only [lastHandled, List.foldl_append, List.foldl_cons, List.foldl_nil]

theorem lastHandled_of_mem {m : SendMessage} {events : List Event}
    (h : .process m ∈ events) : lastHandled m.payLoad.id events ≠ none := by
  induction events using List.reverseRecOn with
  | nil => simp at h
  | append_singleton events event ih =>
    rw [lastHandled_concat]
    rcases List.mem_append.mp h with hm | hm
    · cases event with
      | process m' => simp only; split_ifs <;> simp [ih hm]
      | _ => exact ih hm
    · obtain rfl : .process m = event := by simpa using hm
      simp

theorem sent_concat {wid : String} {msg : SendMessage} {events : List Event} {event : Event}
    {s : System} (hs : exec (step wid) .initial events = some s) :
    Sent wid msg (events ++ [event]) ↔ Sent wid msg events ∨ SentBy s msg event := by
  constructor
  · rintro ⟨before, e, r, hpre, hr, hsent⟩
    rcases List.prefix_concat_iff.mp hpre with heq | hpre
    · obtain ⟨rfl, he⟩ := List.append_inj' heq rfl
      obtain rfl : e = event := by simpa using he
      obtain rfl : s = r := by simpa [hs] using hr
      exact Or.inr hsent
    · exact Or.inl ⟨before, e, r, hpre, hr, hsent⟩
  · rintro (⟨before, e, r, hpre, hr, hsent⟩ | hsent)
    · exact ⟨before, e, r, hpre.trans (List.prefix_append _ _), hr, hsent⟩
    · exact ⟨events, event, s, List.prefix_refl _, hs, hsent⟩

theorem pending_step {wid : String} {s t : System} {event : Event} {msg : SendMessage}
    (hb : bound wid msg = true) (h : step wid s event = some t) :
    (msg ∈ s.bus.pending (bound wid) ∨ SentBy s msg event) ↔
      (msg ∈ t.bus.pending (bound wid) ∨ .process msg = event) := by
  cases event with
  | onWorkerJoin profile => obtain rfl := Option.some.inj h; simp [SentBy]
  | onHeartbeat profile => obtain rfl := Option.some.inj h; simp [SentBy]
  | onWorkerLeave profile => obtain rfl := Option.some.inj h; simp [SentBy]
  | onTimer notLive => obtain rfl := Option.some.inj h; simp [SentBy]
  | deployTask task =>
    obtain ⟨profile, -, rfl⟩ := Option.map_eq_some_iff.mp h
    simp only [SentBy, (Bus.pending_spawn _ _).mem_iff, List.mem_append, List.mem_filter,
      List.mem_singleton, reduceCtorEq, or_false]
    constructor
    · rintro (hm | rfl)
      · exact Or.inr hm
      · exact Or.inl ⟨rfl, hb⟩
    · rintro (⟨rfl, -⟩ | hm)
      · exact Or.inr rfl
      · exact Or.inl hm
  | terminateTask task =>
    cases hw : s.workers.get task.workerID with
    | none =>
      obtain rfl : s = t := by simpa [step, hw] using h
      simp [SentBy, hw]
    | some profile =>
      simp only [step, hw, Option.some.injEq] at h
      subst h
      simp only [SentBy, hw, (Bus.pending_post _ _).mem_iff, List.mem_append, List.mem_filter,
        List.mem_singleton, reduceCtorEq, or_false, ne_eq, not_false_eq_true, true_and]
      constructor
      · rintro (hm | rfl)
        · exact Or.inr hm
        · exact Or.inl ⟨rfl, hb⟩
      · rintro (⟨rfl, -⟩ | hm)
        · exact Or.inr rfl
        · exact Or.inl hm
  | publish m =>
    obtain ⟨bus, hbus, rfl⟩ := Option.map_eq_some_iff.mp h
    simp [SentBy, (Bus.pending_publish hbus).mem_iff]
  | consume =>
    obtain ⟨bus, hbus, rfl⟩ := Option.map_eq_some_iff.mp h
    simp [SentBy, (Bus.pending_consume hbus).mem_iff]
  | process m =>
    obtain ⟨bus, hbus, rfl⟩ := Option.map_eq_some_iff.mp h
    simp [SentBy, (Bus.pending_ack hbus).mem_iff, or_comm]

-- a message of this worker is never lost and never made up
theorem sent_iff {wid : String} {events : List Event} {s : System} {msg : SendMessage}
    (hb : bound wid msg = true) (hrun : exec (step wid) .initial events = some s) :
    Sent wid msg events ↔ msg ∈ s.bus.pending (bound wid) ∨ .process msg ∈ events := by
  refine exec_induction
    (motive := fun es s => Sent wid msg es ↔ msg ∈ s.bus.pending (bound wid) ∨ .process msg ∈ es)
    hrun ?_ ?_
  · simp [Sent, System.initial]
  · intro es e r t _ hr ih hs
    rw [sent_concat hr, ih, List.mem_append, List.mem_singleton]
    have hp := pending_step hb hs
    rw [or_right_comm, hp, or_right_comm, or_assoc]

theorem process_step {wid : String} {s t : System} {event : Event}
    (h : step wid s event = some t) :
    (∃ msg, event = .process msg ∧ t.allTasks = process s.allTasks msg) ∨
      ((∀ msg, event ≠ .process msg) ∧ t.allTasks = s.allTasks) := by
  cases event with
  | process msg =>
    obtain ⟨bus, -, rfl⟩ := Option.map_eq_some_iff.mp h
    exact Or.inl ⟨msg, rfl, rfl⟩
  | terminateTask task =>
    refine Or.inr ⟨by simp, ?_⟩
    cases hw : s.workers.get task.workerID <;> simp only [step, hw, Option.some.injEq] at h <;>
      subst h <;> rfl
  | deployTask task | publish m | consume =>
    obtain ⟨x, -, rfl⟩ := Option.map_eq_some_iff.mp h
    exact Or.inr ⟨by simp, rfl⟩
  | onWorkerJoin _ | onHeartbeat _ | onWorkerLeave _ | onTimer _ =>
    obtain rfl := Option.some.inj h
    exact Or.inr ⟨by simp, rfl⟩

theorem keyed_process {allTasks : Tasks} (h : Keyed allTasks) (msg : SendMessage) :
    Keyed (process allTasks msg) := by
  unfold process
  cases msg.type with
  | addTask => exact keyed_onScheduledTask h
  | removeTask => exact keyed_onTerminateTask h

theorem absent_process_iff {allTasks : Tasks} (h : Keyed allTasks) (msg : SendMessage)
    (k : String) :
    (process allTasks msg).get k = none ↔
      if msg.payLoad.id = k then msg.type ≠ .addTask else allTasks.get k = none := by
  unfold process
  cases msg.type with
  | addTask =>
    rw [mem_onScheduledTask_iff]
    split_ifs with hk
    · simp [hk]
    · simp [Ne.symm hk]
  | removeTask =>
    rw [mem_onTerminateTask_iff h]
    split_ifs with hk
    · simp [hk]
    · simp [Ne.symm hk]

theorem absent_iff {wid : String} {events : List Event} {s : System}
    (hrun : exec (step wid) .initial events = some s) (k : String) :
    s.allTasks.get k = none ↔ lastHandled k events ≠ some .addTask := by
  have key : Keyed s.allTasks ∧
      (s.allTasks.get k = none ↔ lastHandled k events ≠ some .addTask) := by
    refine exec_induction
      (motive := fun es s => Keyed s.allTasks ∧
        (s.allTasks.get k = none ↔ lastHandled k es ≠ some .addTask)) hrun
      ⟨keyed_empty, by simp [lastHandled, System.initial]⟩ ?_
    intro es e r t _ _ ⟨hkeyed, ih⟩ hs
    rw [lastHandled_concat]
    rcases process_step hs with ⟨msg, rfl, ht⟩ | ⟨hne, ht⟩
    · rw [ht]
      refine ⟨keyed_process hkeyed msg, ?_⟩
      rw [absent_process_iff hkeyed]
      split_ifs with hk
      · simp [hk]
      · simpa [hk] using ih
    · rw [ht]
      cases e with
      | process msg => exact absurd rfl (hne msg)
      | _ => exact ⟨hkeyed, ih⟩
  exact key.2

theorem terminated_task_absent_iff {wid : String} {events : List Event} {s : System}
    {t : ScheduledTaskInstance} (hrun : exec (step wid) .initial events = some s)
    (hdeploy : .deployTask t ∈ events) (hwid : t.workerID = wid) (hquiet : s.bus.Quiescent) :
    s.allTasks.get t.id = none ↔ lastHandled t.id events = some .removeTask := by
  rw [absent_iff hrun]
  have hhandled : lastHandled t.id events ≠ none := by
    have hsent : Sent wid (addTask t) events := by
      obtain ⟨before, after, rfl⟩ := List.append_of_mem hdeploy
      have hpre : before ++ [.deployTask t] <+: before ++ .deployTask t :: after := by simp
      obtain ⟨r, hr⟩ := exec_of_shorter hrun (List.prefix_append _ _)
      exact ⟨before, .deployTask t, r, hpre, hr, rfl⟩
    have h := (sent_iff ((bound_addTask wid t).mpr hwid) hrun).mp hsent
    rw [hquiet.pending_eq] at h
    exact lastHandled_of_mem (m := addTask t) (h.resolve_left (List.not_mem_nil))
  cases hl : lastHandled t.id events with
  | none => exact absurd hl hhandled
  | some type => cases type <;> simp

def TerminationRemoves (wid : String) : Prop :=
  ∀ before between after task s,
    exec (step wid) .initial
      (before ++ .deployTask task :: between ++ .terminateTask task :: after) = some s →
    task.workerID = wid →
    (∀ t, .deployTask t ∈ between ++ after → t.id ≠ task.id) →
    s.bus.Quiescent → s.allTasks.get task.id = none

-- the goroutine of DeployTask publishes only after TerminateTask has
def overtaken (task : ScheduledTaskInstance) : List Event :=
  [.consume, .process (removeTask task), .publish (addTask task), .consume,
    .process (addTask task)]

theorem termination_overtakes : ¬ TerminationRemoves "worker" := by
  intro h
  let task := exampleTask "task" false 0
  have hrun : ∃ s, exec (step "worker") .initial
      ([.onWorkerJoin ⟨"worker", 1, 0⟩] ++ .deployTask task :: [] ++
        .terminateTask task :: overtaken task) = some s ∧
      s.bus.Quiescent ∧ s.allTasks.get task.id ≠ none := by
    refine ⟨_, rfl, ?_, ?_⟩ <;> decide
  obtain ⟨s, hs, hquiet, hpresent⟩ := hrun
  refine hpresent (h _ [] _ task s hs rfl ?_ hquiet)
  simp [overtaken]

def inOrder (task : ScheduledTaskInstance) : List Event :=
  [.onWorkerJoin ⟨"worker", 1, 0⟩, .deployTask task, .publish (addTask task), .consume,
    .terminateTask task, .consume, .process (addTask task), .process (removeTask task)]

theorem terminated_task_absent :
    ∃ s, exec (step "worker") .initial (inOrder (exampleTask "task" false 0)) = some s ∧
      s.allTasks.get "task" = none := by
  have hrun : ∃ s, exec (step "worker") .initial (inOrder (exampleTask "task" false 0)) = some s ∧
      s.bus.Quiescent := ⟨_, rfl, by decide⟩
  obtain ⟨s, hs, hquiet⟩ := hrun
  exact ⟨s, hs, (terminated_task_absent_iff (t := exampleTask "task" false 0) hs (by decide) rfl
    hquiet).mpr (by decide)⟩

end FogFlow.Communicator
