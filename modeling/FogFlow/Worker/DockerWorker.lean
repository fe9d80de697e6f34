import FogFlow.Library.Pool
import FogFlow.Worker.DockerEngine

namespace FogFlow.Worker.DockerWorker

open Ngsi Datamodel Execution DockerEngine

inductive Status where
  | created
  | running
  | stopped
  | removed
deriving DecidableEq, Repr

structure Container where
  options : ContainerOptions
  status : Status

-- the containers that the worker has created, in the order of their creation, each with what the
-- worker's calls have made of it
abbrev Daemon := List Container

def optionsAt (daemon : Daemon) (c : Nat) : Option ContainerOptions :=
  (daemon[c]?).map Container.options

def statusAt (daemon : Daemon) (c : Nat) : Option Status := (daemon[c]?).map Container.status

def setStatus (daemon : Daemon) (c : Nat) (status : Status) : Daemon :=
  daemon.modify c (fun container => { container with status := status })

-- the call that a StartTask makes next
inductive Phase where
  | inspectImage
  | createContainer (attempt : Nat) (prepared : Prepared)
  | startContainer (attempt : Nat) (prepared : Prepared) (container : Nat) (freePort : String)
  | removeContainer (attempt : Nat) (prepared : Prepared) (container : Nat) (err : String)

-- a start whose reply is lost may have started the container
inductive Reply where
  | inspected (found pulled : Bool) (rank : String → Nat)
  | created (freePort : String) (err : Option String)
  | started (err : Option String) (running : Bool)
  | removed (done : Bool)

inductive Outcome where
  | goOn (phase : Phase)
  | failed
  | started (prepared : Prepared) (container : Nat) (freePort : String)
  | panicked

structure Engine where
  cfg : Config
  brokerURL : String
  text : Json → String

def Engine.options (engine : Engine) (task : DockerTask) (prepared : Prepared)
    (freePort : String) : ContainerOptions :=
  containerOptions engine.text engine.cfg engine.brokerURL task prepared freePort

def maxPortBindRetries : Nat := 10

-- only an error about the port is worth another attempt
def retry (attempt : Nat) (prepared : Prepared) (err : String) : Outcome :=
  if isPortBindError err ∧ attempt + 1 < maxPortBindRetries then
    .goOn (.createContainer (attempt + 1) prepared)
  else .failed

-- StartTask up to its next call, with the reply to the last one
def startTask (engine : Engine) (task : DockerTask) (daemon : Daemon) :
    Phase → Reply → Option (Outcome × Daemon)
  | .inspectImage, .inspected found pulled rank =>
      if !found && !pulled then some (.failed, daemon)
      else match prepare engine.cfg rank task with
        | .ok prepared => some (.goOn (.createContainer 0 prepared), daemon)
        | .error _ => some (.panicked, daemon)
  | .createContainer attempt prepared, .created _ (some err) =>
      some (retry attempt prepared err, daemon)
  | .createContainer attempt prepared, .created freePort none =>
      some (.goOn (.startContainer attempt prepared daemon.length freePort),
        daemon ++ [⟨engine.options task prepared freePort, .created⟩])
  | .startContainer _ prepared container freePort, .started none _ =>
      some (.started prepared container freePort, setStatus daemon container .running)
  | .startContainer attempt prepared container _, .started (some err) running =>
      some (.goOn (.removeContainer attempt prepared container err),
        if running then setStatus daemon container .running else daemon)
  | .removeContainer attempt prepared container err, .removed done =>
      some (retry attempt prepared err,
        if done then setStatus daemon container .removed else daemon)
  | _, _ => none

inductive DockerGoroutine where
  | starting (task : DockerTask) (phase : Phase)
  | other (g : Goroutine)

-- the executor takes StartTask for one step
def DockerGoroutine.whole : DockerGoroutine → Goroutine
  | .starting task _ => .startTask task.toScheduledTaskInstance
  | .other g => g

-- a StartTask that has returned a container
structure Launch where
  container : Nat
  task : DockerTask
  prepared : Prepared
  freePort : String

structure System where
  executor : Executor
  goroutines : List DockerGoroutine
  daemon : Daemon
  launches : List Launch
  stopping : List Nat
  left : List Nat
  panicked : Bool

def System.init : System := ⟨.init, [], [], [], [], [], false⟩

-- what the executor makes of the worker
def System.whole (s : System) : Executor :=
  { s.executor with goroutines := s.goroutines.map DockerGoroutine.whole }

inductive Label where
  | launchTask (task : DockerTask)
  | terminateTask (taskID : String) (paused : Bool)
  | onAddInput (flow : FlowInfo) (answer : Option String)
  | onRemoveInput (flow : FlowInfo)
  | startTask (i : Nat) (reply : Reply)
  | run (i : Nat) (answers : Answers)
  | stopContainer (k : Nat) (done : Bool)

def after (e : Executor) : Goroutine → List Goroutine
  | .startTask _ => []
  | .register task _ _ => [.delayedInputs task.id]
  | .delayedInputs _ => []
  | .lookUp taskID paused =>
      match e.taskInstances.get taskID with
      | none => []
      | some taskCtx => [.stopTask ⟨taskID, paused, taskCtx.containerID, taskCtx.topologyName,
          taskCtx.taskName, taskCtx.serviceIntentID⟩]
  | .stopTask termination => [.cleanUp termination]
  | .cleanUp termination =>
      match e.taskInstances.get termination.taskID with
      | none => [.cleanUp termination]
      | some _ => []

-- StopTask leaves the container to a goroutine of its own, whose error nobody reads
def stopped (s : System) : Goroutine → List Nat
  | .stopTask termination =>
      ((s.launches[termination.containerID]?).map Launch.container).toList
  | _ => []

-- the container of an attempt that could not be removed is left behind
def leftBehind : Phase → Reply → List Nat
  | .removeContainer _ _ container _, .removed false => [container]
  | _, _ => []

def launched (s : System) (i : Nat) (task : DockerTask) (daemon : Daemon) (left : List Nat)
    (cfg : Config) : Outcome → System
  | .goOn phase => { s with
      goroutines := Pool.replace s.goroutines i [.starting task phase], daemon, left }
  | .failed => { s with goroutines := Pool.replace s.goroutines i [], daemon, left }
  | .panicked => { s with daemon, left, panicked := true }
  | .started prepared container freePort => { s with
      executor := runGoroutine s.whole i ⟨some (refURL cfg freePort), fun _ => none⟩
        (.startTask task.toScheduledTaskInstance)
      goroutines := Pool.replace s.goroutines i
        [.other (.register task.toScheduledTaskInstance s.executor.started
          (refURL cfg freePort))]
      daemon
      launches := s.launches ++ [⟨container, task, prepared, freePort⟩]
      left }

def act (engine : Engine) (startActualTask : Bool) (s : System) (label : Label) :
    Option System :=
  match label with
  | .launchTask task =>
      some { s with goroutines := s.goroutines ++ [.starting task .inspectImage] }
  | .terminateTask taskID paused =>
      some { s with goroutines := s.goroutines ++ [.other (.lookUp taskID paused)] }
  | .onAddInput flow answer =>
      some { s with executor := onAddInput startActualTask s.executor flow answer }
  | .onRemoveInput flow =>
      some { s with executor := onRemoveInput startActualTask s.executor flow }
  | .startTask i reply =>
      match s.goroutines[i]? with
      | some (.starting task phase) =>
          (startTask engine task s.daemon phase reply).map (fun next =>
            launched s i task next.2 (s.left ++ leftBehind phase reply) engine.cfg next.1)
      | _ => none
  | .run i answers =>
      match s.goroutines[i]? with
      | some (.other (.startTask _)) => none
      | some (.other g) => some { s with
          executor := runGoroutine s.whole i answers g
          goroutines := Pool.replace s.goroutines i ((after s.whole g).map .other)
          stopping := s.stopping ++ stopped s g }
      | _ => none
  | .stopContainer k done =>
      (s.stopping[k]?).map (fun container => { s with
        daemon := if done then setStatus s.daemon container .stopped else s.daemon
        stopping := s.stopping.eraseIdx k
        left := if done then s.left else s.left ++ [container] })

def step (engine : Engine) (startActualTask : Bool) (s : System) (label : Label) :
    Option System :=
  if s.executor.crashed || s.panicked then none else act engine startActualTask s label

section Simulation

variable {engine : Engine} {startActualTask : Bool} {s t : System} {i : Nat}

theorem goroutines_runGoroutine {e : Executor} {answers : Answers} {g : Goroutine}
    (hg : e.goroutines[i]? = some g) (hstart : ∀ task, g ≠ .startTask task) :
    (runGoroutine e i answers g).goroutines = Pool.replace e.goroutines i (after e g) := by
  cases g with
  | startTask task => exact absurd rfl (hstart task)
  | register task containerID refURL => exact (Pool.replace_singleton hg _).symm
  | delayedInputs taskInstanceID =>
    have hsame : (runGoroutine e i answers (.delayedInputs taskInstanceID)).goroutines =
        e.goroutines.eraseIdx i := by
      simp only [runGoroutine, handleDelayedAddInputCommands]
      split
      · rfl
      · split <;> rfl
    exact hsame.trans (Pool.replace_nil _ _).symm
  | lookUp taskID paused =>
    simp only [runGoroutine, after]
    cases e.taskInstances.get taskID with
    | none => exact (Pool.replace_nil _ _).symm
    | some taskCtx => exact (Pool.replace_singleton hg _).symm
  | stopTask termination => exact (Pool.replace_singleton hg _).symm
  | cleanUp termination =>
    simp only [runGoroutine, after]
    cases e.taskInstances.get termination.taskID with
    | none => exact (Pool.replace_self hg).symm
    | some taskCtx => exact (Pool.replace_nil _ _).symm

theorem getElem?_whole {g : DockerGoroutine} (hg : s.goroutines[i]? = some g) :
    s.whole.goroutines[i]? = some g.whole := by
  simp only [System.whole, List.getElem?_map, hg, Option.map_some]

theorem act_of_step {label : Label} (h : step engine startActualTask s label = some t) :
    s.whole.crashed = false ∧ act engine startActualTask s label = some t := by
  unfold step at h
  split_ifs at h with hdead
  simp only [Bool.or_eq_true, not_or, Bool.not_eq_true] at hdead
  exact ⟨hdead.1, h⟩

theorem whole_onAddInput (flow : FlowInfo) (answer : Option String) :
    ({ s with executor := onAddInput startActualTask s.executor flow answer } : System).whole =
      onAddInput startActualTask s.whole flow answer := by
  simp only [System.whole, onAddInput]
  split_ifs
  · rfl
  · cases s.executor.taskInstances.get flow.taskInstanceID <;> rfl

theorem whole_onRemoveInput (flow : FlowInfo) :
    ({ s with executor := onRemoveInput startActualTask s.executor flow } : System).whole =
      onRemoveInput startActualTask s.whole flow := by
  simp only [System.whole, onRemoveInput]
  split_ifs
  · rfl
  · cases s.executor.taskInstances.get flow.taskInstanceID <;> rfl

-- a call of StartTask in between is nothing to the executor, and the last one is its step
theorem whole_launched {task : DockerTask} {phase : Phase}
    (hg : s.goroutines[i]? = some (.starting task phase)) (daemon : Daemon) (left : List Nat)
    (cfg : Config) (outcome : Outcome) :
    (launched s i task daemon left cfg outcome).whole = s.whole ∨
      ∃ answers, (launched s i task daemon left cfg outcome).whole =
        runGoroutine s.whole i answers (.startTask task.toScheduledTaskInstance) := by
  have hwhole := getElem?_whole hg
  have hreplace (next : List DockerGoroutine) :
      (Pool.replace s.goroutines i next).map DockerGoroutine.whole =
        Pool.replace s.whole.goroutines i (next.map DockerGoroutine.whole) :=
    Pool.map_replace _ _ _ _
  cases outcome with
  | goOn phase' =>
    have hsame := (hreplace [.starting task phase']).trans (Pool.replace_self hwhole)
    exact .inl (congrArg (fun gs => { s.executor with goroutines := gs }) hsame)
  | failed =>
    have herase := (hreplace []).trans (Pool.replace_nil _ _)
    exact .inr ⟨⟨none, fun _ => none⟩,
      congrArg (fun gs => { s.executor with goroutines := gs }) herase⟩
  | panicked => exact .inl rfl
  | started prepared container freePort =>
    have hset := (hreplace [.other (.register task.toScheduledTaskInstance s.executor.started
      (refURL cfg freePort))]).trans (Pool.replace_singleton hwhole _)
    exact .inr ⟨⟨some (refURL cfg freePort), fun _ => none⟩,
      congrArg (fun gs => { s.executor with
        containers := s.executor.containers ++ [(s.executor.started, task.id)]
        started := s.executor.started + 1
        goroutines := gs }) hset⟩

theorem whole_run {g : Goroutine} {answers : Answers}
    (hg : s.goroutines[i]? = some (.other g)) (hstart : ∀ task, g ≠ .startTask task)
    (stopping : List Nat) :
    ({ s with
      executor := runGoroutine s.whole i answers g
      goroutines := Pool.replace s.goroutines i ((after s.whole g).map .other)
      stopping := stopping } : System).whole = runGoroutine s.whole i answers g := by
  have hgoroutines : (runGoroutine s.whole i answers g).goroutines = _ :=
    goroutines_runGoroutine (getElem?_whole hg) hstart
  have hmap : ((after s.whole g).map DockerGoroutine.other).map DockerGoroutine.whole =
      after s.whole g := by
    rw [List.map_map]
    exact List.map_id _
  have hsame : (Pool.replace s.goroutines i ((after s.whole g).map .other)).map
      DockerGoroutine.whole = (runGoroutine s.whole i answers g).goroutines := by
    rw [Pool.map_replace, hmap]
    exact hgoroutines.symm
  exact congrArg (fun gs => { runGoroutine s.whole i answers g with goroutines := gs }) hsame

theorem operate_alive {e : Executor} (halive : e.crashed = false) (operation : Operation) :
    operate startActualTask e operation =
      match operation with
      | .launchTask task => some { e with goroutines := e.goroutines ++ [.startTask task] }
      | .terminateTask taskID paused =>
          some { e with goroutines := e.goroutines ++ [.lookUp taskID paused] }
      | .onAddInput flow answer => some (onAddInput startActualTask e flow answer)
      | .onRemoveInput flow => some (onRemoveInput startActualTask e flow)
      | .run i answers => (e.goroutines[i]?).map (runGoroutine e i answers) := by
  unfold operate
  exact if_neg (by simp [halive])

-- every step of the worker is a step of its executor, or nothing to it
theorem operate_step {label : Label} (h : step engine startActualTask s label = some t) :
    t.whole = s.whole ∨
      ∃ operation, operate startActualTask s.whole operation = some t.whole := by
  obtain ⟨halive, h⟩ := act_of_step h
  cases label with
  | launchTask task =>
    obtain rfl := Option.some.inj h
    refine .inr ⟨.launchTask task.toScheduledTaskInstance, ?_⟩
    rw [operate_alive halive]
    simp [System.whole, DockerGoroutine.whole]
  | terminateTask taskID paused =>
    obtain rfl := Option.some.inj h
    refine .inr ⟨.terminateTask taskID paused, ?_⟩
    rw [operate_alive halive]
    simp [System.whole, DockerGoroutine.whole]
  | onAddInput flow answer =>
    obtain rfl := Option.some.inj h
    refine .inr ⟨.onAddInput flow answer, ?_⟩
    rw [operate_alive halive, whole_onAddInput]
  | onRemoveInput flow =>
    obtain rfl := Option.some.inj h
    refine .inr ⟨.onRemoveInput flow, ?_⟩
    rw [operate_alive halive, whole_onRemoveInput]
  | startTask i reply =>
    dsimp only [act] at h
    split at h
    case h_1 task phase hg =>
      obtain ⟨next, -, rfl⟩ := Option.map_eq_some_iff.mp h
      rcases whole_launched hg next.2 (s.left ++ leftBehind phase reply) engine.cfg next.1 with
        hsame | ⟨answers, hrun⟩
      · exact .inl hsame
      · refine .inr ⟨.run i answers, ?_⟩
        rw [operate_alive halive]
        dsimp only
        rw [getElem?_whole hg, hrun]
        rfl
    case h_2 => cases h
  | run i answers =>
    dsimp only [act] at h
    split at h
    case h_1 => cases h
    case h_2 g hstart hg =>
      obtain rfl := Option.some.inj h
      refine .inr ⟨.run i answers, ?_⟩
      rw [operate_alive halive]
      dsimp only
      rw [getElem?_whole hg, whole_run hg (fun task heq => hstart task (by rw [heq]))]
      rfl
    case h_3 => cases h
  | stopContainer k done =>
    obtain ⟨container, -, rfl⟩ := Option.map_eq_some_iff.mp h
    exact .inl rfl

theorem operate_exec {labels : List Label}
    (h : exec (step engine startActualTask) .init labels = some s) :
    ∃ operations, exec (operate startActualTask) .init operations = some s.whole := by
  obtain ⟨operations, -, hrun⟩ := exec_simulated (f := System.whole)
    (Q := fun _ => True) (o := operate startActualTask) h (fun _ _ _ _ hstep =>
      (operate_step hstep).imp_right (Exists.imp (fun _ hoperate => ⟨trivial, hoperate⟩)))
  exact ⟨operations, hrun⟩

end Simulation

end FogFlow.Worker.DockerWorker
