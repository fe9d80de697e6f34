import FogFlow.Master.Received
import FogFlow.Master.Workers

namespace FogFlow.Master.WorkerRemoval

open Ngsi Datamodel Execution Workers

structure DockerImage where
  imageName : String
  imageTag : String
  targetedHWType : String
  targetedOSType : String

structure Operator where
  dockerImages : List DockerImage

-- the distance of two points, the encoder of the group values and what no step changes
structure Environment where
  distance : Point → Point → UInt64
  marshal : GroupValue → String
  operatorList : GoMap Operator
  subID2FogFunc : GoMap String

inductive Message where
  | addTask (taskInstance : ScheduledTaskInstance) (dockerImage : String)
  | removeTask (taskID workerID : String)
  | addInput (flowInfo : FlowInfo)
  | removeInput (entityID taskInstanceID workerID : String)

-- which section of its action the loop comes to next
inductive Phase where
  | next
  | selected (taskInstance : ScheduledTaskInstance)
  | deploying (taskInstance : ScheduledTaskInstance) (dockerImage : String)

-- the handler that holds fogFlows_lock
structure ActionLoop where
  funcName : String
  fogflow : FogFlow
  deploymentActions : Actions
  phase : Phase

inductive Panic where
  | inDeployTask
  | elsewhere (fault : Fault)

structure System where
  workers : WorkerList
  workerListLocked : Bool
  curNumOfTasks : Int
  prevNumOfTask : Int
  counterLocked : Bool
  fogFlows : GoMap FogFlow
  fogFlowsLocked : Bool
  running : Option ActionLoop
  messages : List Message
  panic : Option Panic

def System.initial (fogFlows : GoMap FogFlow) : System :=
  ⟨∅, false, 0, 0, false, fogFlows, false, none, [], none⟩

inductive Label where
  | onTimer (notLive : List String)
  | onWorkerLeave (profile : WorkerProfile)
  | onWorkerJoin (profile : WorkerProfile)
  | onHeartbeat (profile : WorkerProfile)
  | handleUpdate (subID : String) (entityAction : EntityAction)
      (entityRegistration : EntityRegistration) (choices : Choices)
  | proceed (rank : String → Nat)

-- a critical section of workerList_lock that ends with the lock free again
def critical (s : System) (body : WorkerList → WorkerList) : Option System :=
  if s.workerListLocked then none else some { s with workers := body s.workers }

def onTimer (notLive : List String) (s : System) : Option System :=
  if s.counterLocked then none
  else critical { s with prevNumOfTask := s.curNumOfTasks } (notLive.foldl GoMap.delete)

def onWorkerLeave (profile : WorkerProfile) (s : System) : Option System :=
  critical s (fun workers => workers.delete profile.wid)

def onWorkerJoin (profile : WorkerProfile) (s : System) : Option System :=
  critical s (fun workers =>
    match workers.get profile.wid with
    | some worker => workers.set profile.wid { worker with capacity := profile.capacity }
    | none => workers.set profile.wid { profile with workload := 0 })

def onHeartbeat (profile : WorkerProfile) (s : System) : Option System :=
  critical s (fun workers =>
    match workers.get profile.wid with
    | some worker =>
        workers.set profile.wid
          { worker with capacity := profile.capacity, workload := profile.workload }
    | none => workers.set profile.wid { profile with workload := 0 })

-- the deferred unlock, also when the handler panics
def System.unlockFogFlows (s : System) : System := { s with fogFlowsLocked := false, running := none }

def System.finish (s : System) (loop : ActionLoop) : System :=
  { s.unlockFogFlows with fogFlows := s.fogFlows.set loop.funcName loop.fogflow }

def System.crash (s : System) (panic : Panic) : System :=
  { s.unlockFogFlows with panic := some panic }

def System.continueWith (s : System) (loop : ActionLoop) : System := { s with running := some loop }

def System.publish (s : System) (message : Message) : System :=
  { s with messages := s.messages ++ [message] }

-- the selections that the orchestration makes itself are answered by the choices
def handleUpdate (env : Environment) (subID : String) (entityAction : EntityAction)
    (entityRegistration : EntityRegistration) (choices : Choices) (s : System) : Option System :=
  if s.fogFlowsLocked then none
  else match env.subID2FogFunc.get subID with
    | none => some s
    | some funcName =>
        match s.fogFlows.get funcName with
        | none => some s
        | some fogflow =>
            match metadataDrivenTaskOrchestration env.marshal choices fogflow subID entityAction
                entityRegistration with
            | .error fault => some (s.crash (.elsewhere fault))
            | .ok (fogflow, deploymentActions) =>
                some (({ s with fogFlowsLocked := true }).continueWith
                  ⟨funcName, fogflow, deploymentActions, .next⟩)

def determineDockerImage (operatorList : GoMap Operator) (workers : WorkerList)
    (operatorName wID : String) : String :=
  match workers.get wID with
  | none => ""
  | some wProfile =>
      let hwType := if wProfile.hwType = "arm" then "ARM" else "X86"
      let dockerimages := ((operatorList.get operatorName).map Operator.dockerImages).getD []
      ((dockerimages.find? (fun image =>
        image.targetedOSType == "Linux" && image.targetedHWType == hwType)).map (fun image =>
          image.imageName ++ ":" ++ image.imageTag)).getD ""

def selectFor (env : Environment) (rank : String → Nat) (loop : ActionLoop)
    (taskInstance : ScheduledTaskInstance) (rest : Actions) (s : System) : Option System :=
  match getLocationOfInputs loop.fogflow.executionPlan (lastItem taskInstance.id) with
  | .error fault => some (s.crash (.elsewhere fault))
  | .ok locations =>
      if s.workerListLocked then none
      else
        let selectedWorkerID := selectWorker env.distance rank s.workers locations
        if selectedWorkerID = "" then some (s.finish loop)
        else some (s.continueWith
          ⟨loop.funcName, loop.fogflow, rest,
            .selected { taskInstance with workerID := selectedWorkerID }⟩)

-- a nil profile is dereferenced while workerList_lock is held, and nothing unlocks it
def deployTask (loop : ActionLoop) (taskInstance : ScheduledTaskInstance) (dockerImage : String)
    (s : System) : Option System :=
  if s.counterLocked || s.workerListLocked then none
  else
    let sent := ({ s with curNumOfTasks := s.curNumOfTasks + 1 }).publish
      (.addTask taskInstance dockerImage)
    match s.workers.get taskInstance.workerID with
    | none => some (({ sent with workerListLocked := true }).crash .inDeployTask)
    | some workerProfile =>
        let workers := s.workers.set taskInstance.workerID
          { workerProfile with workload := workerProfile.workload + 1 }
        let fogflow := updateExecutionPlan (updateDeploymentPlan loop.fogflow taskInstance)
          taskInstance
        some (({ sent with workers := workers }).continueWith
          ⟨loop.funcName, fogflow, loop.deploymentActions, .next⟩)

def terminateTask (taskID workerID : String) (s : System) : Option System :=
  if s.workerListLocked then none
  else match s.workers.get workerID with
    | none => some s
    | some workerProfile =>
        let workers := s.workers.set workerID
          { workerProfile with workload := workerProfile.workload - 1 }
        some (({ s with workers := workers }).publish (.removeTask taskID workerID))

def nextAction (env : Environment) (rank : String → Nat) (loop : ActionLoop) (s : System) :
    Option System :=
  match loop.deploymentActions with
  | [] => some (s.finish loop)
  | none :: _ => some (s.crash (.elsewhere .nilDereference))
  | some (.addTask taskInstance) :: rest => selectFor env rank loop taskInstance rest s
  | some (.removeTask taskID workerID) :: rest =>
      let next := s.continueWith { loop with deploymentActions := rest }
      if workerID ≠ "" then terminateTask taskID workerID next else some next
  | some (.addInput flowInfo) :: rest =>
      some ((s.continueWith { loop with deploymentActions := rest }).publish (.addInput flowInfo))
  | some (.removeInput entityID taskInstanceID workerID) :: rest =>
      some ((s.continueWith { loop with deploymentActions := rest }).publish
        (.removeInput entityID taskInstanceID workerID))

def proceed (env : Environment) (rank : String → Nat) (s : System) : Option System :=
  s.running.bind (fun loop =>
    match loop.phase with
    | .next => nextAction env rank loop s
    | .selected taskInstance =>
        if s.workerListLocked then none
        else
          let dockerImage := determineDockerImage env.operatorList s.workers
            taskInstance.operatorName taskInstance.workerID
          some (s.continueWith { loop with phase := .deploying taskInstance dockerImage })
    | .deploying taskInstance dockerImage => deployTask loop taskInstance dockerImage s)

-- the panic of one goroutine ends the master
def step (env : Environment) (s : System) (label : Label) : Option System :=
  if s.panic.isSome then none
  else match label with
    | .onTimer notLive => onTimer notLive s
    | .onWorkerLeave profile => onWorkerLeave profile s
    | .onWorkerJoin profile => onWorkerJoin profile s
    | .onHeartbeat profile => onHeartbeat profile s
    | .handleUpdate subID entityAction entityRegistration choices =>
        handleUpdate env subID entityAction entityRegistration choices s
    | .proceed rank => proceed env rank s

structure Safe (s : System) : Prop where
  listed : ∀ panic, s.panic = some panic → panic ≠ .inDeployTask
  unlocked : s.running = none →
    s.workerListLocked = false ∧ s.counterLocked = false ∧ s.fogFlowsLocked = false

-- the worker that a task has been given but not yet sent to
def System.selected (s : System) : Option String :=
  s.running.bind (fun loop =>
    match loop.phase with
    | .next => none
    | .selected taskInstance | .deploying taskInstance _ => some taskInstance.workerID)

def System.deploysTo (s : System) : Option String :=
  s.running.bind (fun loop =>
    match loop.phase with
    | .next | .selected _ => none
    | .deploying taskInstance _ => some taskInstance.workerID)

-- whether the worker is listed after the section of another handler
def listedStep (wid : String) (listed : Bool) : Label → Bool
  | .onTimer notLive => listed && !notLive.contains wid
  | .onWorkerLeave profile => listed && profile.wid != wid
  | .onWorkerJoin profile | .onHeartbeat profile => listed || profile.wid == wid
  | .handleUpdate _ _ _ _ | .proceed _ => listed

def listedAfter (wid : String) (labels : List Label) : Bool := labels.foldl (listedStep wid) true

-- from the selection of a worker to DeployTask the last section about it is not a removal
def KeptUntilDeployed (env : Environment) (s₀ : System) (labels : List Label) : Prop :=
  ∀ js rank ks rank' s t u wid, js ++ .proceed rank :: (ks ++ [.proceed rank']) <+: labels →
    exec (step env) s₀ js = some s → s.selected = none → step env s (.proceed rank) = some t →
    t.selected = some wid → exec (step env) t ks = some u → u.deploysTo = some wid →
    listedAfter wid ks = true

variable {env : Environment} {s t u : System} {label : Label} {labels js ks : List Label}
  {workers workers' : WorkerList} {wid : String}

def Keyed (workers : WorkerList) : Prop :=
  ∀ k worker, workers.get k = some worker → worker.wid = k

-- what a section may do to the list
structure Relisted (label : Label) (workers workers' : WorkerList) : Prop where
  listed : ∀ wid, (workers'.get wid).isSome = listedStep wid (workers.get wid).isSome label
  keyed : Keyed workers → Keyed workers'

theorem relisted_refl {rank : String → Nat} : Relisted (.proceed rank) workers workers :=
  ⟨fun _ => rfl, fun h => h⟩

theorem relisted_workload {rank : String → Nat} {worker : WorkerProfile} {workload : Int}
    (h : workers.get wid = some worker) :
    Relisted (.proceed rank) workers (workers.set wid { worker with workload := workload }) := by
  refine ⟨fun k => ?_, fun hkeyed k other hk => ?_⟩
  · rw [GoMap.get_set]
    split_ifs with heq
    · rw [heq, h]
      rfl
    · rfl
  · rw [GoMap.get_set] at hk
    split_ifs at hk with heq
    · rw [← Option.some.inj hk, heq]
      exact hkeyed wid worker h
    · exact hkeyed k other hk

theorem keyed_delete {k : String} (h : Keyed workers) : Keyed (workers.delete k) := by
  intro k' worker hk
  rw [GoMap.get_delete] at hk
  split_ifs at hk
  exact h k' worker hk

theorem get_foldl_delete (notLive : List String) (workers : WorkerList) (wid : String) :
    (notLive.foldl GoMap.delete workers).get wid =
      if wid ∈ notLive then none else workers.get wid := by
  induction notLive generalizing workers with
  | nil => simp
  | cons k notLive ih =>
    rw [List.foldl_cons, ih, GoMap.get_delete]
    by_cases hk : wid = k
    · simp [hk]
    · simp [hk]

theorem relisted_onTimer (notLive : List String) :
    Relisted (.onTimer notLive) workers (notLive.foldl GoMap.delete workers) := by
  refine ⟨fun wid => ?_, fun hkeyed k worker hk => ?_⟩
  · rw [get_foldl_delete, listedStep]
    by_cases hmem : wid ∈ notLive
    · simp [hmem]
    · simp [hmem]
  · rw [get_foldl_delete] at hk
    split_ifs at hk
    exact hkeyed k worker hk

theorem relisted_onWorkerLeave (profile : WorkerProfile) :
    Relisted (.onWorkerLeave profile) workers (workers.delete profile.wid) := by
  refine ⟨fun wid => ?_, keyed_delete⟩
  rw [GoMap.get_delete, listedStep]
  by_cases heq : wid = profile.wid
  · simp [heq]
  · simp [heq, Ne.symm heq]

theorem relisted_set {worker : WorkerProfile} {k : String}
    (hlabel : ∀ wid listed, listedStep wid listed label = (listed || k == wid))
    (hwid : Keyed workers → worker.wid = k) : Relisted label workers (workers.set k worker) := by
  refine ⟨fun wid => ?_, fun hkeyed k' other hk => ?_⟩
  · rw [GoMap.get_set, hlabel]
    by_cases heq : wid = k
    · simp [heq]
    · simp [heq, Ne.symm heq]
  · rw [GoMap.get_set] at hk
    split_ifs at hk with heq
    · rw [← Option.some.inj hk, heq]
      exact hwid hkeyed
    · exact hkeyed k' other hk

theorem relisted_onWorkerJoin (profile : WorkerProfile) :
    Relisted (.onWorkerJoin profile) workers
      (match workers.get profile.wid with
        | some worker => workers.set profile.wid { worker with capacity := profile.capacity }
        | none => workers.set profile.wid { profile with workload := 0 }) := by
  cases hget : workers.get profile.wid with
  | none => exact relisted_set (fun _ _ => rfl) (fun _ => rfl)
  | some worker => exact relisted_set (fun _ _ => rfl) (fun hkeyed => hkeyed _ worker hget)

theorem relisted_onHeartbeat (profile : WorkerProfile) :
    Relisted (.onHeartbeat profile) workers
      (match workers.get profile.wid with
        | some worker =>
            workers.set profile.wid
              { worker with capacity := profile.capacity, workload := profile.workload }
        | none => workers.set profile.wid { profile with workload := 0 }) := by
  cases hget : workers.get profile.wid with
  | none => exact relisted_set (fun _ _ => rfl) (fun _ => rfl)
  | some worker => exact relisted_set (fun _ _ => rfl) (fun hkeyed => hkeyed _ worker hget)

-- all that a step can do
inductive Taken (s : System) : Label → System → Prop where
  | other {label : Label} {workers : WorkerList} {prevNumOfTask : Int} :
      (∀ rank, label ≠ .proceed rank) → Relisted label s.workers workers →
      Taken s label { s with workers := workers, prevNumOfTask := prevNumOfTask }
  | began {label : Label} {loop : ActionLoop} : (∀ rank, label ≠ .proceed rank) →
      Relisted label s.workers s.workers → loop.phase = .next →
      Taken s label (({ s with fogFlowsLocked := true }).continueWith loop)
  | crashed {label : Label} {fault : Fault} : Relisted label s.workers s.workers →
      Taken s label (s.crash (.elsewhere fault))
  | finished {rank : String → Nat} {loop : ActionLoop} :
      Taken s (.proceed rank) (s.finish loop)
  | passed {rank : String → Nat} {loop : ActionLoop} {workers : WorkerList}
      {curNumOfTasks : Int} {messages : List Message} : Relisted (.proceed rank) s.workers workers →
      loop.phase = .next →
      Taken s (.proceed rank) (({ s with
        workers := workers, curNumOfTasks := curNumOfTasks, messages := messages }).continueWith loop)
  | selected {rank : String → Nat} {loop : ActionLoop} {taskInstance : ScheduledTaskInstance} :
      s.selected = none → (s.workers.get taskInstance.workerID).isSome →
      loop.phase = .selected taskInstance → Taken s (.proceed rank) (s.continueWith loop)
  | imageChosen {rank : String → Nat} {loop : ActionLoop} {taskInstance : ScheduledTaskInstance}
      {dockerImage : String} : s.selected = some taskInstance.workerID →
      loop.phase = .deploying taskInstance dockerImage →
      Taken s (.proceed rank) (s.continueWith loop)
  | dereferenced {rank : String → Nat} {wid : String} {curNumOfTasks : Int}
      {messages : List Message} : s.deploysTo = some wid → s.workers.get wid = none →
      Taken s (.proceed rank) (({ s with
        curNumOfTasks := curNumOfTasks, messages := messages,
        workerListLocked := true }).crash .inDeployTask)

theorem critical_eq_some {body : WorkerList → WorkerList} (h : critical s body = some t) :
    t = { s with workers := body s.workers } := by
  unfold critical at h
  split_ifs at h
  exact (Option.some.inj h).symm

theorem taken_handleUpdate {subID : String} {entityAction : EntityAction}
    {entityRegistration : EntityRegistration} {choices : Choices}
    (h : handleUpdate env subID entityAction entityRegistration choices s = some t) :
    Taken s (.handleUpdate subID entityAction entityRegistration choices) t := by
  have hkept : Relisted (.handleUpdate subID entityAction entityRegistration choices) s.workers
      s.workers := ⟨fun _ => rfl, fun h => h⟩
  have hunchanged : Taken s (.handleUpdate subID entityAction entityRegistration choices)
      { s with workers := s.workers, prevNumOfTask := s.prevNumOfTask } := .other (by simp) hkept
  unfold handleUpdate at h
  split_ifs at h
  split at h
  · rw [← Option.some.inj h]
    exact hunchanged
  · split at h
    · rw [← Option.some.inj h]
      exact hunchanged
    · split at h
      · rw [← Option.some.inj h]
        exact .crashed hkept
      · rw [← Option.some.inj h]
        exact .began (by simp) hkept rfl

theorem selected_eq_none {loop : ActionLoop} (hrunning : s.running = some loop)
    (hphase : loop.phase = .next) : s.selected = none := by
  simp [System.selected, hrunning, hphase]

theorem taken_selectFor {rank : String → Nat} {loop : ActionLoop}
    {taskInstance : ScheduledTaskInstance} {rest : Actions} (hkeyed : Keyed s.workers)
    (hselected : s.selected = none)
    (h : selectFor env rank loop taskInstance rest s = some t) : Taken s (.proceed rank) t := by
  unfold selectFor at h
  cases hlocations : getLocationOfInputs loop.fogflow.executionPlan (lastItem taskInstance.id) with
  | error fault =>
    rw [hlocations] at h
    rw [← Option.some.inj h]
    exact .crashed relisted_refl
  | ok locations =>
    simp only [hlocations] at h
    split_ifs at h with hlocked hnone
    · rw [← Option.some.inj h]
      exact .finished
    · obtain ⟨k, worker, hget, hwid⟩ := selectWorker_listed hnone
      rw [← Option.some.inj h]
      refine .selected hselected ?_ rfl
      rw [← hwid, hkeyed k worker hget, hget]
      rfl

theorem taken_nextAction {rank : String → Nat} {loop : ActionLoop} (hkeyed : Keyed s.workers)
    (hrunning : s.running = some loop) (hphase : loop.phase = .next)
    (h : nextAction env rank loop s = some t) : Taken s (.proceed rank) t := by
  have hpassed {rest : Actions} {messages : List Message} : Taken s (.proceed rank)
      (({ s with messages := messages }).continueWith { loop with deploymentActions := rest }) :=
    .passed relisted_refl hphase
  unfold nextAction at h
  split at h
  · rw [← Option.some.inj h]
    exact .finished
  · rw [← Option.some.inj h]
    exact .crashed relisted_refl
  · exact taken_selectFor hkeyed (selected_eq_none hrunning hphase) h
  · dsimp only at h
    split_ifs at h
    · unfold terminateTask at h
      split_ifs at h
      split at h
      · rw [← Option.some.inj h]
        exact hpassed
      · rename_i workerProfile hget
        rw [← Option.some.inj h]
        exact .passed (relisted_workload hget) hphase
    · rw [← Option.some.inj h]
      exact hpassed
  · rw [← Option.some.inj h]
    exact hpassed
  · rw [← Option.some.inj h]
    exact hpassed

theorem taken_deployTask {rank : String → Nat} {loop : ActionLoop}
    {taskInstance : ScheduledTaskInstance} {dockerImage : String}
    (hdeploys : s.deploysTo = some taskInstance.workerID)
    (h : deployTask loop taskInstance dockerImage s = some t) : Taken s (.proceed rank) t := by
  unfold deployTask at h
  split_ifs at h
  cases hget : s.workers.get taskInstance.workerID with
  | none =>
    simp only [hget] at h
    rw [← Option.some.inj h]
    exact .dereferenced hdeploys hget
  | some workerProfile =>
    simp only [hget] at h
    rw [← Option.some.inj h]
    exact .passed (relisted_workload hget) rfl

theorem taken_proceed {rank : String → Nat} (hkeyed : Keyed s.workers)
    (h : proceed env rank s = some t) : Taken s (.proceed rank) t := by
  obtain ⟨loop, hrunning, h⟩ := Option.bind_eq_some_iff.mp h
  cases hphase : loop.phase with
  | next =>
    rw [hphase] at h
    exact taken_nextAction hkeyed hrunning hphase h
  | selected taskInstance =>
    simp only [hphase] at h
    split_ifs at h
    rw [← Option.some.inj h]
    exact .imageChosen (by simp [System.selected, hrunning, hphase]) rfl
  | deploying taskInstance dockerImage =>
    rw [hphase] at h
    exact taken_deployTask (by simp [System.deploysTo, hrunning, hphase]) h

theorem taken_step (hkeyed : Keyed s.workers) (h : step env s label = some t) :
    Taken s label t := by
  unfold step at h
  split_ifs at h
  cases label with
  | onTimer notLive =>
    simp only [onTimer] at h
    split_ifs at h
    rw [critical_eq_some h]
    exact .other (by simp) (relisted_onTimer notLive)
  | onWorkerLeave profile =>
    rw [critical_eq_some h]
    exact .other (by simp) (relisted_onWorkerLeave profile)
  | onWorkerJoin profile =>
    rw [critical_eq_some h]
    exact .other (by simp) (relisted_onWorkerJoin profile)
  | onHeartbeat profile =>
    rw [critical_eq_some h]
    exact .other (by simp) (relisted_onHeartbeat profile)
  | handleUpdate subID entityAction entityRegistration choices => exact taken_handleUpdate h
  | proceed rank => exact taken_proceed hkeyed h

-- between the sections no lock is held but that of the running handler
structure Sound (s : System) : Prop where
  keyed : Keyed s.workers
  counter : s.counterLocked = false
  workerList : s.panic ≠ some .inDeployTask → s.workerListLocked = false
  fogFlows : s.running = none → s.fogFlowsLocked = false
  ended : s.panic.isSome → s.running = none

theorem sound_initial (fogFlows : GoMap FogFlow) : Sound (.initial fogFlows) where
  keyed := fun k worker hk => by simp [System.initial] at hk
  counter := rfl
  workerList := fun _ => rfl
  fogFlows := fun _ => rfl
  ended := fun h => by cases h

theorem panic_eq_none (h : step env s label = some t) : s.panic = none := by
  unfold step at h
  split_ifs at h with hpanic
  simpa using hpanic

theorem sound_continueWith (hkeyed : Keyed s.workers) (hcounter : s.counterLocked = false)
    (hfree : s.workerListLocked = false) (hnone : s.panic = none) (loop : ActionLoop) :
    Sound (s.continueWith loop) := by
  refine ⟨hkeyed, hcounter, fun _ => hfree, ?_, ?_⟩
  · intro hr
    cases hr
  · intro hp
    rw [System.continueWith, hnone] at hp
    cases hp

theorem sound_step (hs : Sound s) (h : step env s label = some t) : Sound t := by
  have hnone := panic_eq_none h
  have hfree : s.workerListLocked = false := hs.workerList (by simp [hnone])
  cases taken_step hs.keyed h with
  | other _ hlist =>
    exact ⟨hlist.keyed hs.keyed, hs.counter, fun _ => hfree, hs.fogFlows, hs.ended⟩
  | began _ _ _ =>
    apply sound_continueWith
    exacts [hs.keyed, hs.counter, hfree, hnone]
  | crashed _ => exact ⟨hs.keyed, hs.counter, fun _ => hfree, fun _ => rfl, fun _ => rfl⟩
  | finished => exact ⟨hs.keyed, hs.counter, fun _ => hfree, fun _ => rfl, fun _ => rfl⟩
  | passed hlist _ =>
    apply sound_continueWith
    exacts [hlist.keyed hs.keyed, hs.counter, hfree, hnone]
  | selected _ _ _ => exact sound_continueWith hs.keyed hs.counter hfree hnone _
  | imageChosen _ _ => exact sound_continueWith hs.keyed hs.counter hfree hnone _
  | dereferenced _ _ =>
    exact ⟨hs.keyed, hs.counter, fun hp => absurd rfl hp, fun _ => rfl, fun _ => rfl⟩

theorem sound_exec (hs : Sound s) (h : exec (step env) s labels = some t) : Sound t :=
  exec_invariant h hs (fun _ _ _ hr ht => sound_step hr ht)

theorem safe_iff (hs : Sound s) : Safe s ↔ s.panic ≠ some .inDeployTask := by
  constructor
  · exact fun h hpanic => h.listed _ hpanic rfl
  · intro h
    refine ⟨fun panic hpanic heq => h (heq ▸ hpanic), fun hr => ?_⟩
    exact ⟨hs.workerList h, hs.counter, hs.fogFlows hr⟩

theorem listed_step (hs : Sound s) (h : step env s label = some t) (wid : String) :
    (t.workers.get wid).isSome = listedStep wid (s.workers.get wid).isSome label := by
  cases taken_step hs.keyed h with
  | other _ hlist => exact hlist.listed wid
  | began _ hlist _ => exact hlist.listed wid
  | crashed hlist => exact hlist.listed wid
  | finished => rfl
  | passed hlist _ => exact hlist.listed wid
  | selected _ _ _ => rfl
  | imageChosen _ _ => rfl
  | dereferenced _ _ => rfl

theorem listed_exec (hs : Sound s) (h : exec (step env) s labels = some t) (wid : String) :
    (t.workers.get wid).isSome = labels.foldl (listedStep wid) (s.workers.get wid).isSome := by
  have key : Sound t ∧
      (t.workers.get wid).isSome = labels.foldl (listedStep wid) (s.workers.get wid).isSome := by
    refine exec_induction (motive := fun js r => Sound r ∧
      (r.workers.get wid).isSome = js.foldl (listedStep wid) (s.workers.get wid).isSome) h
      ⟨hs, rfl⟩ ?_
    intro js label r t _ _ hr ht
    refine ⟨sound_step hr.1 ht, ?_⟩
    rw [listed_step hr.1 ht, hr.2, List.foldl_append]
    rfl
  exact key.2

theorem selected_continueWith (s : System) {loop : ActionLoop}
    {taskInstance : ScheduledTaskInstance} (hphase : loop.phase = .selected taskInstance) :
    (s.continueWith loop).selected = some taskInstance.workerID := by
  simp [System.selected, System.continueWith, hphase]

-- a worker is selected in one kind of section only, and there it is listed
theorem selected_step (hs : Sound s) (h : step env s label = some t)
    (hselected : t.selected = some wid) :
    s.selected = some wid ∨ s.selected = none ∧ ∃ rank, label = .proceed rank := by
  cases taken_step hs.keyed h with
  | other _ _ => exact .inl hselected
  | began _ _ hphase =>
    rw [selected_eq_none rfl hphase] at hselected
    cases hselected
  | crashed _ => cases hselected
  | finished => cases hselected
  | passed _ hphase =>
    rw [selected_eq_none rfl hphase] at hselected
    cases hselected
  | selected hnone _ _ => exact .inr ⟨hnone, _, rfl⟩
  | imageChosen hbefore hphase =>
    left
    rw [hbefore, ← hselected]
    simp [System.selected, System.continueWith, hphase]
  | dereferenced _ _ => cases hselected

theorem listed_of_selected (hs : Sound s) (h : step env s label = some t)
    (hnone : s.selected = none) (hselected : t.selected = some wid) :
    (t.workers.get wid).isSome := by
  cases taken_step hs.keyed h with
  | other _ _ => exact absurd (hnone.symm.trans hselected) (by simp)
  | began _ _ hphase =>
    rw [selected_eq_none rfl hphase] at hselected
    cases hselected
  | crashed _ => cases hselected
  | finished => cases hselected
  | passed _ hphase =>
    rw [selected_eq_none rfl hphase] at hselected
    cases hselected
  | selected _ hlisted hphase =>
    rw [selected_continueWith s hphase] at hselected
    exact Option.some.inj hselected ▸ hlisted
  | imageChosen hbefore _ => exact absurd (hnone.symm.trans hbefore) (by simp)
  | dereferenced _ _ => cases hselected

theorem dereferenced_of_panic (hs : Sound s) (h : step env s label = some t)
    (hpanic : t.panic = some .inDeployTask) :
    ∃ rank wid, label = .proceed rank ∧ s.deploysTo = some wid ∧ s.workers.get wid = none := by
  have hnone := panic_eq_none h
  cases taken_step hs.keyed h with
  | other _ _ | passed _ _ | began _ _ _ | finished | selected _ _ _ | imageChosen _ _ =>
    exact absurd (hnone.symm.trans hpanic) (by simp)
  | crashed _ => simp [System.crash] at hpanic
  | dereferenced hdeploys hget => exact ⟨_, _, rfl, hdeploys, hget⟩

theorem selected_of_deploysTo (h : s.deploysTo = some wid) : s.selected = some wid := by
  obtain ⟨loop, hrunning, hphase⟩ := Option.bind_eq_some_iff.mp h
  rw [System.selected, hrunning]
  cases hloop : loop.phase with
  | next => simp [hloop] at hphase
  | selected taskInstance => simp [hloop] at hphase
  | deploying taskInstance dockerImage => simpa [hloop] using hphase

-- behind every selected worker lies the section that has selected it
theorem selection_of_selected (hs : Sound s) (hnone : s.selected = none)
    (hrun : exec (step env) s labels = some u) (hselected : u.selected = some wid) :
    ∃ js rank ks r t, labels = js ++ .proceed rank :: ks ∧ exec (step env) s js = some r ∧
      r.selected = none ∧ step env r (.proceed rank) = some t ∧ t.selected = some wid ∧
      exec (step env) t ks = some u := by
  refine exec_induction (motive := fun labels u => ∀ wid, u.selected = some wid →
    ∃ js rank ks r t, labels = js ++ .proceed rank :: ks ∧ exec (step env) s js = some r ∧
      r.selected = none ∧ step env r (.proceed rank) = some t ∧ t.selected = some wid ∧
      exec (step env) t ks = some u) hrun ?_ ?_ wid hselected
  · intro wid h
    rw [hnone] at h
    cases h
  · intro js label r t _ hjs ih ht wid h
    rcases selected_step (sound_exec hs hjs) ht h with hbefore | ⟨hfirst, rank, rfl⟩
    · obtain ⟨js', rank, ks, r', t', rfl, hr', hnone', ht', hwid, hks⟩ := ih wid hbefore
      refine ⟨js', rank, ks ++ [label], r', t', by simp, hr', hnone', ht', hwid, ?_⟩
      exact exec_concat.mpr ⟨r, hks, ht⟩
    · exact ⟨js, rank, [], r, t, rfl, hjs, hfirst, ht, h, rfl⟩

theorem deployTask_of_missing {loop : ActionLoop} {taskInstance : ScheduledTaskInstance}
    {dockerImage : String} (hcounter : s.counterLocked = false)
    (hfree : s.workerListLocked = false) (hget : s.workers.get taskInstance.workerID = none) :
    ∃ t, deployTask loop taskInstance dockerImage s = some t ∧ t.panic = some .inDeployTask := by
  simp only [deployTask, hcounter, hfree, hget, Bool.or_self, Bool.false_eq_true, if_false]
  exact ⟨_, rfl, rfl⟩

theorem dereferences (hs : Sound s) (hdeploys : s.deploysTo = some wid)
    (hget : s.workers.get wid = none) (rank : String → Nat) :
    ∃ t, step env s (.proceed rank) = some t ∧ t.panic = some .inDeployTask := by
  obtain ⟨loop, hrunning, hphase⟩ := Option.bind_eq_some_iff.mp hdeploys
  have hnone : s.panic = none := by
    cases hpanic : s.panic with
    | none => rfl
    | some panic =>
      have hended := hs.ended (by rw [hpanic]; rfl)
      rw [hended] at hrunning
      cases hrunning
  have hfree : s.workerListLocked = false := hs.workerList (by simp [hnone])
  cases hloop : loop.phase with
  | next => simp [hloop] at hphase
  | selected taskInstance => simp [hloop] at hphase
  | deploying taskInstance dockerImage =>
    obtain rfl : taskInstance.workerID = wid := by simpa [hloop] using hphase
    have hmissing : ∃ t, deployTask loop taskInstance dockerImage s = some t ∧
        t.panic = some .inDeployTask := deployTask_of_missing hs.counter hfree hget
    obtain ⟨t, ht, hpanic⟩ := hmissing
    refine ⟨t, ?_, hpanic⟩
    simpa [step, hnone, proceed, hrunning, hloop] using ht

theorem deployed_workers_listed {labels : List Label} {fogFlows : GoMap FogFlow} :
    Always (step env) Safe (.initial fogFlows) labels ↔
      KeptUntilDeployed env (.initial fogFlows) labels := by
  have hinit := sound_initial fogFlows
  constructor
  · intro hall js rank ks rank' s t u wid hp hs hnone ht hselected hu hdeploys
    have hsound : Sound s := sound_exec hinit hs
    have hsoundT : Sound t := sound_step hsound ht
    have hlisted := listed_exec hsoundT hu wid
    rw [listed_of_selected hsound ht hnone hselected] at hlisted
    cases hget : u.workers.get wid with
    | some worker =>
      rw [hget] at hlisted
      exact hlisted.symm
    | none =>
      obtain ⟨v, hv, hpanic⟩ := dereferences (sound_exec hsoundT hu) hdeploys hget rank'
      have hrun : exec (step env) (.initial fogFlows)
          (js ++ .proceed rank :: (ks ++ [.proceed rank'])) = some v := by
        rw [exec_append, hs, Option.bind_some, exec, ht, Option.bind_some]
        exact exec_concat.mpr ⟨u, hu, hv⟩
      exact absurd rfl ((hall _ v hp hrun).listed _ hpanic)
  · intro hkept js v hp hv
    have hsound : Sound v := sound_exec hinit hv
    refine (safe_iff hsound).mpr (fun hpanic => ?_)
    rcases js.eq_nil_or_concat' with rfl | ⟨js, label, rfl⟩
    · rw [← Option.some.inj hv] at hpanic
      cases hpanic
    · obtain ⟨u, hu, hstep⟩ := exec_concat.mp hv
      obtain ⟨rank', wid, rfl, hdeploys, hget⟩ :=
        dereferenced_of_panic (sound_exec hinit hu) hstep hpanic
      obtain ⟨js', rank, ks, s, t, rfl, hs, hnone, ht, hselected, hks⟩ :=
        selection_of_selected hinit rfl hu (selected_of_deploysTo hdeploys)
      have hlisted := listed_exec (sound_step (sound_exec hinit hs) ht) hks wid
      rw [listed_of_selected (sound_exec hinit hs) ht hnone hselected, hget] at hlisted
      have hafter : listedAfter wid ks = true :=
        hkept js' rank ks rank' s t u wid (by simpa using hp) hs hnone ht hselected hks hdeploys
      exact absurd (hlisted.trans hafter) (by simp)

def exampleEnvironment : Environment where
  distance := fun _ _ => 0
  marshal := exampleMarshal
  operatorList := ∅
  subID2FogFunc := (∅ : GoMap String).set "subCar" "topology.task"

def oneFlow : GoMap FogFlow :=
  (∅ : GoMap FogFlow).set "topology.task" (exampleFlow [exampleStream "Car" "EntityID"])

def edgeWorker : WorkerProfile := ⟨"Worker.001", ⟨49, 8⟩, "linux", "arm", 2, 0⟩

-- the worker leaves between its selection and the task
def workerLeaves : List Label :=
  [.onWorkerJoin edgeWorker, .handleUpdate "subCar" .create (exampleEntity "car1" "Car")
    exampleChoices, .proceed (fun _ => 0), .onWorkerLeave edgeWorker, .proceed (fun _ => 0),
    .proceed (fun _ => 0)]

theorem selected_worker_removed : ∃ s,
    exec (step exampleEnvironment) (.initial oneFlow) workerLeaves = some s ∧
      s.panic = some .inDeployTask ∧ s.running = none ∧ s.workerListLocked = true ∧
      ¬ Always (step exampleEnvironment) Safe (.initial oneFlow) workerLeaves := by
  have hrun : ∃ s, exec (step exampleEnvironment) (.initial oneFlow) workerLeaves = some s ∧
      s.panic = some .inDeployTask ∧ s.running = none ∧ s.workerListLocked = true :=
    ⟨_, rfl, rfl, rfl, rfl⟩
  obtain ⟨s, hs, hpanic, hnone, hlocked⟩ := hrun
  refine ⟨s, hs, hpanic, hnone, hlocked, fun hall => ?_⟩
  exact (hall workerLeaves s List.prefix_rfl hs).listed _ hpanic rfl

end FogFlow.Master.WorkerRemoval
