import FogFlow.Worker.InputSubscriptions

namespace FogFlow.Worker

open Ngsi Datamodel Execution

-- what the environment answers to one LaunchTask
structure LaunchAnswers where
  start : Answers
  delayed : Answers

-- the steps of an executor operation that runs from its start to its end
def sections (e : Executor) (answers : String → LaunchAnswers) : Effect → List Operation
  | .launchTask task =>
      .launchTask task :: .run 0 (answers task.id).start ::
        (if (answers task.id).start.refURL.isSome then
          [.run 0 (answers task.id).start, .run 0 (answers task.id).delayed] else [])
  | .terminateTask taskID paused =>
      .terminateTask taskID paused :: .run 0 (answers taskID).start ::
        (if (e.taskInstances.get taskID).isSome then
          [.run 0 (answers taskID).start, .run 0 (answers taskID).start] else [])
  | .taskUpdate _ => []

def perform (startActualTask : Bool) (answers : String → LaunchAnswers) (e : Executor)
    (effect : Effect) : Option Executor :=
  exec (operate startActualTask) e (sections e answers effect)

-- the operations that a handler starts run one after the other, in any order
inductive WorkerCommand where
  | scheduled (task : ScheduledTaskInstance) (order : List Effect)
      (answers : String → LaunchAnswers)
  | terminated (taskID : String) (order : List Effect) (answers : String → LaunchAnswers)
  | addInput (flow : FlowInfo) (answer : Option String)
  | removeInput (flow : FlowInfo)

def performAll (startActualTask : Bool) (answers : String → LaunchAnswers) (e : Executor)
    (effects order : List Effect) : Option Executor :=
  if order.Perm effects then order.foldlM (perform startActualTask answers) e else none

def commandStep (startActualTask : Bool) (s : WorkerSystem) :
    WorkerCommand → Option WorkerSystem
  | .scheduled task order answers =>
      let handled := onScheduledTask s.allTasks task
      (performAll startActualTask answers s.executor handled.2 order).map
        (fun e => ⟨handled.1, e⟩)
  | .terminated taskID order answers =>
      let handled := onTerminateTask s.allTasks taskID
      (performAll startActualTask answers s.executor handled.2 order).map
        (fun e => ⟨handled.1, e⟩)
  | .addInput flow answer =>
      (operate startActualTask s.executor (.onAddInput flow answer)).map
        (fun e => ⟨s.allTasks, e⟩)
  | .removeInput flow =>
      (operate startActualTask s.executor (.onRemoveInput flow)).map (fun e => ⟨s.allTasks, e⟩)

variable {startActualTask : Bool} {e e' : Executor} {t : String}
  {answers : String → LaunchAnswers}

def subscribedFor (e : Executor) (t entity : String) : Bool :=
  (e.taskInstances.get t).any (fun taskCtx => (taskCtx.entityID2SubID.get entity).isSome)

-- the inputs of the task as the commands so far leave them
def wants (t : String) (wanted : String → Bool) : WorkerCommand → String → Bool
  | .scheduled task _ _, entity =>
      wanted entity ||
        (task.id == t && (pubSub task.inputs).any (fun input => input.id == entity))
  | .terminated _ _ _, entity => wanted entity
  | .addInput flow _, entity =>
      (flow.taskInstanceID == t && flow.inputStream.id == entity) || wanted entity
  | .removeInput flow, entity =>
      !(flow.taskInstanceID == t && flow.inputStream.id == entity) && wanted entity

def wanting (startActualTask : Bool) (t : String) (s : WorkerSystem × (String → Bool))
    (command : WorkerCommand) : Option (WorkerSystem × (String → Bool)) :=
  (commandStep startActualTask s.1 command).map (fun s' => (s', wants t s.2 command))

-- the command launches the task, for the first time or again, and its container starts
def WorkerCommand.Launches (t : String) (task : ScheduledTaskInstance)
    (launch : LaunchAnswers) : WorkerCommand → Prop
  | .scheduled _ order answers => .launchTask task ∈ order ∧ task.id = t ∧
      launch = answers t ∧ launch.start.refURL.isSome
  | .terminated _ order answers => .launchTask task ∈ order ∧ task.id = t ∧
      launch = answers t ∧ launch.start.refURL.isSome
  | _ => False

-- the inputs of a list for which the broker gives an id
def answeredInputs (inputs : List InputStream) (subIDs : Nat → Option String) : List String :=
  inputs.zipIdx.filterMap (fun input => (subIDs input.2).map (fun _ => input.1.id))

-- the worker is alive and a task just launched has the inputs that the commands leave it
def Restores (startActualTask : Bool) (t : String) (s : WorkerSystem × (String → Bool))
    (command : WorkerCommand) : Prop :=
  ∀ s', wanting startActualTask t s command = some s' → s'.1.executor.crashed = false ∧
    ∀ task launch, command.Launches t task launch →
      ∀ entity, subscribedFor s'.1.executor t entity = s'.2 entity

-- its own inputs and the delayed commands amount to what the commands leave it
def Lossless (startActualTask : Bool) (t : String) (s : WorkerSystem × (String → Bool))
    (command : WorkerCommand) : Prop :=
  (∀ flow, command = .removeInput flow → startActualTask = true →
    s.1.executor.taskInstances.get flow.taskInstanceID ≠ none) ∧
  ∀ task launch, command.Launches t task launch → ∀ entity,
    (answeredInputs (pubSub task.inputs) launch.start.subIDs ++
      answeredInputs ((s.1.executor.waiting t).map FlowInfo.inputStream)
        launch.delayed.subIDs).contains entity = wants t s.2 command entity

structure Idle (e : Executor) : Prop where
  alive : e.crashed = false
  quiet : e.goroutines = []

theorem SameFor.refl (t : String) (e : Executor) : SameFor t e e :=
  ⟨rfl, rfl, fun _ _ => Iff.rfl⟩

theorem SameFor.trans {e'' : Executor} (h : SameFor t e e') (h' : SameFor t e' e'') :
    SameFor t e e'' :=
  ⟨h'.context.trans h.context, h'.queue.trans h.queue,
    fun g hg => (h'.goroutines g hg).trans (h.goroutines g hg)⟩

theorem entities_subscribed {taskCtx : TaskContext} (inputStream : InputStream)
    (answer : Option String) (entity : String) :
    ((subscribed taskCtx inputStream answer).entityID2SubID.get entity).isSome =
      ((taskCtx.entityID2SubID.get entity).isSome ||
        (answer.map (fun _ => inputStream.id)).toList.contains entity) := by
  cases answer with
  | none => simp [subscribed]
  | some subID =>
    simp only [subscribed, GoMap.get_set, Option.map_some, Option.toList_some,
      List.contains_cons, List.contains_nil, Bool.or_false]
    split_ifs with heq
    · simp [heq]
    · simp [heq]

theorem entities_subscribeInputs {taskCtx : TaskContext} (inputs : List InputStream)
    (subIDs : Nat → Option String) (entity : String) :
    ((subscribeInputs taskCtx inputs subIDs).entityID2SubID.get entity).isSome =
      ((taskCtx.entityID2SubID.get entity).isSome ||
        (answeredInputs inputs subIDs).contains entity) := by
  unfold subscribeInputs answeredInputs
  generalize inputs.zipIdx = indexed
  induction indexed generalizing taskCtx with
  | nil => simp
  | cons input indexed ih =>
    rw [List.foldl_cons, ih, entities_subscribed, Bool.or_assoc]
    cases hanswer : subIDs input.2 with
    | none => simp [hanswer]
    | some subID => simp [hanswer, beq_eq_decide]

-- a worker whose LaunchTask has passed its registration
def registered (e : Executor) (task : ScheduledTaskInstance) (refURL : String)
    (subIDs : Nat → Option String) : Executor :=
  let taskCtx := taskContext task e.started refURL
  { e with
    taskInstances := e.taskInstances.set task.id
      (subscribeInputs taskCtx (pubSub task.inputs) subIDs)
    containers := e.containers ++ [(e.started, task.id)]
    started := e.started + 1
    calls := e.calls ++ subscribeCalls taskCtx (pubSub task.inputs) }

theorem perform_launchTask (h : Idle e) {task : ScheduledTaskInstance} {refURL : String}
    (hurl : (answers task.id).start.refURL = some refURL) :
    perform startActualTask answers e (.launchTask task) =
      some (handleDelayedAddInputCommands
        (registered e task refURL (answers task.id).start.subIDs) task.id
        (answers task.id).delayed.subIDs) := by
  obtain ⟨taskInstances, delayed, containers, started, goroutines, calls, crashed⟩ := e
  obtain rfl : crashed = false := h.alive
  obtain rfl : goroutines = [] := h.quiet
  simp [perform, sections, exec, operate, runGoroutine, hurl, registered]

theorem perform_launchTask_failed (h : Idle e) {task : ScheduledTaskInstance}
    (hurl : (answers task.id).start.refURL = none) :
    perform startActualTask answers e (.launchTask task) = some e := by
  obtain ⟨taskInstances, delayed, containers, started, goroutines, calls, crashed⟩ := e
  obtain rfl : crashed = false := h.alive
  obtain rfl : goroutines = [] := h.quiet
  simp [perform, sections, exec, operate, runGoroutine, hurl]

theorem perform_terminateTask (h : Idle e) {taskID : String} {paused : Bool} :
    ∃ e', perform startActualTask answers e (.terminateTask taskID paused) = some e' ∧ Idle e' ∧
      ∀ k, k ≠ taskID → SameFor k e e' := by
  obtain ⟨taskInstances, delayed, containers, started, goroutines, calls, crashed⟩ := e
  obtain rfl : crashed = false := h.alive
  obtain rfl : goroutines = [] := h.quiet
  cases hget : taskInstances.get taskID with
  | none =>
    refine ⟨_, ?_, h, fun k hk => .refl k _⟩
    simp [perform, sections, exec, operate, runGoroutine, hget]
  | some taskCtx =>
    let termination : Terminating := ⟨taskID, paused, taskCtx.containerID, taskCtx.topologyName,
      taskCtx.taskName, taskCtx.serviceIntentID⟩
    refine ⟨⟨taskInstances.delete taskID, delayed,
      containers.filter (fun container => container.1 != taskCtx.containerID), started, [],
      calls ++ cleanUpCalls taskCtx termination, false⟩, ?_, ⟨rfl, rfl⟩,
      fun k hk => ⟨GoMap.get_delete_ne _ hk, rfl, fun _ _ => Iff.rfl⟩⟩
    simp [perform, sections, exec, operate, runGoroutine, hget, termination]

theorem handleDelayedAddInputCommands_registered {taskCtx : TaskContext}
    (hget : e.taskInstances.get t = some taskCtx) (subIDs : Nat → Option String) :
    (handleDelayedAddInputCommands e t subIDs).taskInstances.get t =
      some (subscribeInputs taskCtx ((e.waiting t).map FlowInfo.inputStream) subIDs) := by
  unfold handleDelayedAddInputCommands
  split
  case h_1 hqueue => simp [Executor.waiting, GoMap.slice, hqueue, subscribeInputs, hget]
  case h_2 flowList hqueue =>
    have hwaiting : e.waiting t = flowList := by simp [Executor.waiting, GoMap.slice, hqueue]
    rw [hwaiting]
    split
    case h_1 => simp [subscribeInputs, hget]
    case h_2 hnone => simp [hget] at hnone
    case h_3 taskCtx' flow flows hsome =>
      obtain rfl := Option.some.inj (hget.symm.trans hsome)
      exact GoMap.get_set_self _ _ _

theorem idle_handleDelayedAddInputCommands (h : Idle e) (hget : e.taskInstances.get t ≠ none)
    (subIDs : Nat → Option String) : Idle (handleDelayedAddInputCommands e t subIDs) := by
  unfold handleDelayedAddInputCommands
  split
  · exact h
  · split
    · exact ⟨h.alive, h.quiet⟩
    · contradiction
    · exact ⟨h.alive, h.quiet⟩

theorem sameFor_handleDelayedAddInputCommands {k : String} (hk : k ≠ t)
    (subIDs : Nat → Option String) :
    SameFor k e (handleDelayedAddInputCommands e t subIDs) := by
  unfold handleDelayedAddInputCommands
  split
  · exact .refl k e
  · split
    · exact ⟨rfl, GoMap.get_delete_ne _ hk, fun _ _ => Iff.rfl⟩
    · exact ⟨rfl, rfl, fun _ _ => Iff.rfl⟩
    · exact ⟨GoMap.get_set_ne _ _ hk, GoMap.get_delete_ne _ hk, fun _ _ => Iff.rfl⟩

-- after a launch the task has its own inputs and those that waited, and no other
theorem perform_launched (startActualTask : Bool) (answers : String → LaunchAnswers)
    (h : Idle e) {task : ScheduledTaskInstance}
    (hstarts : (answers task.id).start.refURL.isSome) :
    ∃ e', perform startActualTask answers e (.launchTask task) = some e' ∧ Idle e' ∧
      (∀ k, k ≠ task.id → SameFor k e e') ∧ ∀ entity, subscribedFor e' task.id entity =
        (answeredInputs (pubSub task.inputs) (answers task.id).start.subIDs ++
          answeredInputs ((e.waiting task.id).map FlowInfo.inputStream)
            (answers task.id).delayed.subIDs).contains entity := by
  obtain ⟨refURL, hurl⟩ := Option.isSome_iff_exists.mp hstarts
  let e₁ := registered e task refURL (answers task.id).start.subIDs
  have hget : e₁.taskInstances.get task.id = some (subscribeInputs
      (taskContext task e.started refURL) (pubSub task.inputs)
      (answers task.id).start.subIDs) := GoMap.get_set_self _ _ _
  refine ⟨_, perform_launchTask h hurl, ?_, fun k hk => ?_, fun entity => ?_⟩
  · have hidle : Idle e₁ := ⟨h.alive, h.quiet⟩
    have hpresent : e₁.taskInstances.get task.id ≠ none := by
      rw [hget]
      exact Option.some_ne_none _
    exact idle_handleDelayedAddInputCommands hidle hpresent _
  · have hfirst : SameFor k e e₁ := ⟨GoMap.get_set_ne _ _ hk, rfl, fun _ _ => Iff.rfl⟩
    exact hfirst.trans (sameFor_handleDelayedAddInputCommands hk _)
  · have hwaiting : e₁.waiting task.id = e.waiting task.id := rfl
    rw [subscribedFor, handleDelayedAddInputCommands_registered hget, Option.any_some,
      entities_subscribeInputs, entities_subscribeInputs, hwaiting]
    simp [taskContext]

-- the task that an effect is about
def Effect.about (t : String) : Effect → Bool
  | .launchTask task => task.id == t
  | .terminateTask taskID _ => taskID == t
  | .taskUpdate _ => false

theorem perform_idle (h : Idle e) (effect : Effect) :
    ∃ e', perform startActualTask answers e effect = some e' ∧ Idle e' ∧
      ∀ k, effect.about k = false → SameFor k e e' := by
  cases effect with
  | launchTask task =>
    cases hurl : (answers task.id).start.refURL with
    | none => exact ⟨e, perform_launchTask_failed h hurl, h, fun k _ => .refl k e⟩
    | some refURL =>
      have hstarts : (answers task.id).start.refURL.isSome := by simp [hurl]
      obtain ⟨e', hrun, hidle, hsame, -⟩ := perform_launched startActualTask answers h hstarts
      exact ⟨e', hrun, hidle, fun k hk => hsame k (Ne.symm (beq_eq_false_iff_ne.mp hk))⟩
  | terminateTask taskID paused =>
    obtain ⟨e', hrun, hidle, hsame⟩ := perform_terminateTask h
    exact ⟨e', hrun, hidle, fun k hk => hsame k (Ne.symm (beq_eq_false_iff_ne.mp hk))⟩
  | taskUpdate update => exact ⟨e, rfl, h, fun k _ => .refl k e⟩

theorem foldlM_perform (startActualTask : Bool) (answers : String → LaunchAnswers) (h : Idle e)
    (order : List Effect) :
    ∃ e', order.foldlM (perform startActualTask answers) e = some e' ∧ Idle e' ∧
      ∀ k, (∀ effect ∈ order, effect.about k = false) → SameFor k e e' := by
  induction order generalizing e with
  | nil => exact ⟨e, rfl, h, fun k _ => .refl k e⟩
  | cons effect order ih =>
    obtain ⟨e₁, hfirst, hidle, hsame⟩ := perform_idle h effect
    obtain ⟨e₂, hrest, hidle, hsame'⟩ := ih hidle
    refine ⟨e₂, ?_, hidle, fun k hk => ?_⟩
    · rw [List.foldlM_cons, hfirst]
      exact hrest
    · exact (hsame k (hk effect List.mem_cons_self)).trans
        (hsame' k (fun effect hmem => hk effect (List.mem_cons_of_mem _ hmem)))

theorem performAll_idle (h : Idle e) {effects order : List Effect}
    (hs : performAll startActualTask answers e effects order = some e') : Idle e' := by
  unfold performAll at hs
  split_ifs at hs
  obtain ⟨e₁, hrun, hidle, -⟩ := foldlM_perform startActualTask answers h order
  obtain rfl := Option.some.inj (hs.symm.trans hrun)
  exact hidle

theorem filter_eq_nil_of_single {α : Type} {p : α → Bool} {before after : List α} {a : α}
    (hsingle : ((before ++ a :: after).filter p).length ≤ 1) (ha : p a = true) :
    before.filter p = [] ∧ after.filter p = [] := by
  rw [List.filter_append, List.filter_cons, if_pos ha, List.length_append,
    List.length_cons] at hsingle
  refine ⟨List.length_eq_zero_iff.mp ?_, List.length_eq_zero_iff.mp ?_⟩
  · omega
  · omega

-- the only effect of a handler on a task is its launch
theorem performAll_launched (h : Idle e) {effects order : List Effect}
    {task : ScheduledTaskInstance}
    (hs : performAll startActualTask answers e effects order = some e')
    (hlaunch : .launchTask task ∈ order)
    (hsingle : (effects.filter (Effect.about task.id)).length ≤ 1)
    (hstarts : (answers task.id).start.refURL.isSome) (entity : String) :
    subscribedFor e' task.id entity =
      (answeredInputs (pubSub task.inputs) (answers task.id).start.subIDs ++
        answeredInputs ((e.waiting task.id).map FlowInfo.inputStream)
          (answers task.id).delayed.subIDs).contains entity := by
  unfold performAll at hs
  split_ifs at hs with hperm
  rw [← (hperm.filter _).length_eq] at hsingle
  obtain ⟨before, after, rfl⟩ := List.append_of_mem hlaunch
  have habout : Effect.about task.id (.launchTask task) = true := beq_self_eq_true task.id
  obtain ⟨hbefore, hafter⟩ := filter_eq_nil_of_single hsingle habout
  have hnone {effects : List Effect} (hnil : effects.filter (Effect.about task.id) = []) :
      ∀ effect ∈ effects, effect.about task.id = false := by
    intro effect hmem
    exact Bool.eq_false_iff.mpr (List.filter_eq_nil_iff.mp hnil effect hmem)
  obtain ⟨e₁, hrun₁, hidle₁, hsame₁⟩ := foldlM_perform startActualTask answers h before
  obtain ⟨e₂, hrun₂, hidle₂, -, hinputs⟩ := perform_launched startActualTask answers hidle₁ hstarts
  obtain ⟨e₃, hrun₃, -, hsame₃⟩ := foldlM_perform startActualTask answers hidle₂ after
  have hrun : (before ++ .launchTask task :: after).foldlM
      (perform startActualTask answers) e = some e₃ := by
    rw [List.foldlM_append, hrun₁, Option.bind_eq_bind, Option.bind_some, List.foldlM_cons,
      hrun₂, Option.bind_eq_bind, Option.bind_some]
    exact hrun₃
  obtain rfl := Option.some.inj (hs.symm.trans hrun)
  have hcontext := (hsame₃ task.id (hnone hafter)).context
  have hqueue := (hsame₁ task.id (hnone hbefore)).queue
  have hwaiting : e₁.waiting task.id = e.waiting task.id := by
    rw [Executor.waiting, GoMap.slice, hqueue, Executor.waiting, GoMap.slice]
  rw [subscribedFor, hcontext, ← hwaiting]
  exact hinputs entity

theorem length_about (k : String) (effects : List Effect) :
    (effects.filter (Effect.about k)).length = (opsIn k effects).length := by
  induction effects with
  | nil => rfl
  | cons effect effects ih =>
    have hsplit : opsIn k (effect :: effects) = opsIn k [effect] ++ opsIn k effects :=
      opsIn_append k [effect] effects
    rw [hsplit, List.length_append, ← ih, List.filter_cons]
    cases effect with
    | launchTask task =>
      by_cases hid : task.id = k
      · simp [opsIn, goroutineOf, opOf, Effect.about, hid, Nat.add_comm]
      · simp [opsIn, goroutineOf, opOf, Effect.about, hid]
    | terminateTask taskID paused =>
      by_cases hid : taskID = k
      · simp [opsIn, goroutineOf, opOf, Effect.about, hid, Nat.add_comm]
      · simp [opsIn, goroutineOf, opOf, Effect.about, hid]
    | taskUpdate update => simp [opsIn, goroutineOf, Effect.about]

theorem length_toList_map_le {α β : Type} (o : Option α) (f : α → β) :
    (o.toList.map f).length ≤ 1 := by
  cases o with
  | none => exact Nat.zero_le 1
  | some a => exact le_refl 1

theorem single_scheduled {allTasks : Tasks} (hkeyed : Keyed allTasks)
    {task : ScheduledTaskInstance} {k : String} (hnew : task.id = k → allTasks.get k = none) :
    ((onScheduledTask allTasks task).2.filter (Effect.about k)).length ≤ 1 := by
  rw [length_about, onScheduledTask_effects, opsIn_append, pauses, opsIn_pauses,
    filter_values hkeyed, List.length_append]
  by_cases hid : task.id = k
  · rw [hnew hid]
    split_ifs
    · simp [opsIn_launch, hid]
    · simp [opsIn_updateOf]
  · have hrest : opsIn k (if (admitted allTasks task).status = .running then
        [.launchTask task, updateOf task .running] else [updateOf task .paused]) = [] := by
      split_ifs
      · rw [opsIn_launch, if_neg hid]
      · exact opsIn_updateOf k task .paused
    rw [hrest, List.length_nil, Nat.add_zero]
    exact length_toList_map_le _ _

theorem single_terminated {allTasks : Tasks} (hkeyed : Keyed allTasks) (taskID k : String) :
    ((onTerminateTask allTasks taskID).2.filter (Effect.about k)).length ≤ 1 := by
  rw [length_about]
  cases hget : allTasks.get taskID with
  | none => simp [onTerminateTask, hget]
  | some myTask =>
    obtain ⟨p, -, heq⟩ := onTerminateTask_resumes hget
    have hid : myTask.id = taskID := hkeyed taskID myTask hget
    have hrest : Keyed (allTasks.delete myTask.id) :=
      fun j t ht => hkeyed j t (GoMap.get_of_get_delete ht).2
    rw [heq, opsIn_append]
    simp only [resumeAll]
    rw [opsIn_launches, filter_values hrest, GoMap.get_delete, hid, List.length_append]
    by_cases hk : k = taskID
    · rw [if_pos hk, hk]
      unfold stops
      split_ifs
      · simp [opsIn_terminate]
      · simp
    · rw [if_neg hk, opsIn_stops_other hk, List.length_nil, Nat.zero_add]
      exact length_toList_map_le _ _

variable {s s' : WorkerSystem} {command : WorkerCommand}

theorem launched_inputs (hidle : Idle s.executor) (hkeyed : Keyed s.allTasks)
    (hnew : ∀ task order answers, command = .scheduled task order answers → task.id = t →
      s.allTasks.get t = none)
    (hs : commandStep startActualTask s command = some s') {task : ScheduledTaskInstance}
    {launch : LaunchAnswers} (hlaunch : command.Launches t task launch) (entity : String) :
    subscribedFor s'.executor t entity =
      (answeredInputs (pubSub task.inputs) launch.start.subIDs ++
        answeredInputs ((s.executor.waiting t).map FlowInfo.inputStream)
          launch.delayed.subIDs).contains entity := by
  cases command with
  | scheduled incoming order answers =>
    obtain ⟨hmem, rfl, rfl, hstarts⟩ := hlaunch
    obtain ⟨e', hrun, rfl⟩ := Option.map_eq_some_iff.mp hs
    refine performAll_launched hidle hrun hmem (single_scheduled hkeyed (fun hid => ?_)) hstarts
      entity
    exact hnew incoming order answers rfl hid
  | terminated taskID order answers =>
    obtain ⟨hmem, rfl, rfl, hstarts⟩ := hlaunch
    obtain ⟨e', hrun, rfl⟩ := Option.map_eq_some_iff.mp hs
    exact performAll_launched hidle hrun hmem (single_terminated hkeyed taskID task.id) hstarts
      entity
  | addInput flow answer => exact hlaunch.elim
  | removeInput flow => exact hlaunch.elim

theorem idle_commandStep (hidle : Idle s.executor)
    (hs : commandStep startActualTask s command = some s') :
    (s'.executor.crashed = false ↔ ∀ flow, command = .removeInput flow →
      startActualTask = true → s.executor.taskInstances.get flow.taskInstanceID ≠ none) ∧
      (s'.executor.crashed = false → Idle s'.executor) := by
  cases command with
  | scheduled incoming order answers =>
    obtain ⟨e', hrun, rfl⟩ := Option.map_eq_some_iff.mp hs
    have hidle' := performAll_idle hidle hrun
    exact ⟨iff_of_true hidle'.alive (by simp), fun _ => hidle'⟩
  | terminated taskID order answers =>
    obtain ⟨e', hrun, rfl⟩ := Option.map_eq_some_iff.mp hs
    have hidle' := performAll_idle hidle hrun
    exact ⟨iff_of_true hidle'.alive (by simp), fun _ => hidle'⟩
  | addInput flow answer =>
    obtain ⟨e', hrun, rfl⟩ := Option.map_eq_some_iff.mp hs
    unfold operate at hrun
    rw [if_neg (by simp [hidle.alive])] at hrun
    obtain rfl := Option.some.inj hrun
    have hidle' : Idle (onAddInput startActualTask s.executor flow answer) := by
      unfold onAddInput
      split_ifs
      · exact hidle
      · split
        · exact ⟨hidle.alive, hidle.quiet⟩
        · exact ⟨hidle.alive, hidle.quiet⟩
    exact ⟨iff_of_true hidle'.alive (by simp), fun _ => hidle'⟩
  | removeInput flow =>
    obtain ⟨e', hrun, rfl⟩ := Option.map_eq_some_iff.mp hs
    unfold operate at hrun
    rw [if_neg (by simp [hidle.alive])] at hrun
    obtain rfl := Option.some.inj hrun
    dsimp only
    unfold onRemoveInput
    split_ifs with hstart
    · exact ⟨iff_of_true hidle.alive (by simp [hstart]), fun _ => hidle⟩
    · have hstart : startActualTask = true := by simpa using hstart
      split
      case h_1 hget => exact ⟨by simp [hstart, hget], fun halive => by simp at halive⟩
      case h_2 taskCtx hget =>
        exact ⟨iff_of_true hidle.alive (by simp [hget]), fun _ => ⟨hidle.alive, hidle.quiet⟩⟩

theorem restores_iff_lossless {wanted : String → Bool} {next : WorkerSystem × (String → Bool)}
    (hidle : Idle s.executor) (hkeyed : Keyed s.allTasks)
    (hnew : ∀ task order answers, command = .scheduled task order answers → task.id = t →
      s.allTasks.get t = none)
    (hs : wanting startActualTask t (s, wanted) command = some next) :
    Restores startActualTask t (s, wanted) command ↔
      Lossless startActualTask t (s, wanted) command := by
  obtain ⟨s', hstep, rfl⟩ := Option.map_eq_some_iff.mp hs
  have halive := (idle_commandStep hidle hstep).1
  constructor
  · intro h
    obtain ⟨hcrash, hinputs⟩ := h _ hs
    refine ⟨halive.mp hcrash, fun task launch hlaunch entity => ?_⟩
    exact (launched_inputs hidle hkeyed hnew hstep hlaunch entity).symm.trans
      (hinputs task launch hlaunch entity)
  · rintro ⟨hcrash, hinputs⟩ next hnext
    obtain rfl := Option.some.inj (hs.symm.trans hnext)
    refine ⟨halive.mpr hcrash, fun task launch hlaunch entity => ?_⟩
    exact (launched_inputs hidle hkeyed hnew hstep hlaunch entity).trans
      (hinputs task launch hlaunch entity)

def scheduledTimes (t : String) (commands : List WorkerCommand) : Nat :=
  commands.countP (fun
    | .scheduled task _ _ => task.id == t
    | _ => false)

-- between two commands
structure Between (t : String) (commands : List WorkerCommand)
    (s : WorkerSystem × (String → Bool)) : Prop where
  idle : Idle s.1.executor
  keyed : Keyed s.1.allTasks
  known : s.1.allTasks.get t ≠ none → 1 ≤ scheduledTimes t commands

theorem scheduledTimes_concat (t : String) (commands : List WorkerCommand)
    (command : WorkerCommand) : scheduledTimes t (commands ++ [command]) =
      scheduledTimes t commands + scheduledTimes t [command] :=
  List.countP_append ..

theorem keyed_commandStep (hkeyed : Keyed s.allTasks)
    (hs : commandStep startActualTask s command = some s') : Keyed s'.allTasks := by
  cases command with
  | scheduled incoming order answers =>
    obtain ⟨e', -, rfl⟩ := Option.map_eq_some_iff.mp hs
    exact keyed_onScheduledTask hkeyed
  | terminated taskID order answers =>
    obtain ⟨e', -, rfl⟩ := Option.map_eq_some_iff.mp hs
    exact keyed_onTerminateTask hkeyed
  | addInput flow answer =>
    obtain ⟨e', -, rfl⟩ := Option.map_eq_some_iff.mp hs
    exact hkeyed
  | removeInput flow =>
    obtain ⟨e', -, rfl⟩ := Option.map_eq_some_iff.mp hs
    exact hkeyed

theorem known_commandStep (hkeyed : Keyed s.allTasks)
    (hs : commandStep startActualTask s command = some s')
    (hknown : s'.allTasks.get t ≠ none) :
    s.allTasks.get t ≠ none ∨ 1 ≤ scheduledTimes t [command] := by
  cases command with
  | scheduled incoming order answers =>
    obtain ⟨e', -, rfl⟩ := Option.map_eq_some_iff.mp hs
    by_cases hid : incoming.id = t
    · exact Or.inr (by simp [scheduledTimes, hid])
    · refine Or.inl (fun hnone => hknown ?_)
      exact mem_onScheduledTask_iff.mpr ⟨Ne.symm hid, hnone⟩
  | terminated taskID order answers =>
    obtain ⟨e', -, rfl⟩ := Option.map_eq_some_iff.mp hs
    exact Or.inl (fun hnone => hknown ((mem_onTerminateTask_iff hkeyed).mpr (Or.inr hnone)))
  | addInput flow answer =>
    obtain ⟨e', -, rfl⟩ := Option.map_eq_some_iff.mp hs
    exact Or.inl hknown
  | removeInput flow =>
    obtain ⟨e', -, rfl⟩ := Option.map_eq_some_iff.mp hs
    exact Or.inl hknown

theorem resumed_inputs_iff {commands : List WorkerCommand}
    {last : WorkerSystem × (String → Bool)}
    (hrun : exec (wanting startActualTask t) (.init, fun _ => false) commands = some last)
    (honce : scheduledTimes t commands ≤ 1) :
    Meets (wanting startActualTask t) (Restores startActualTask t) (.init, fun _ => false)
        commands ↔
      Meets (wanting startActualTask t) (Lossless startActualTask t) (.init, fun _ => false)
        commands := by
  have hlimit {js : List WorkerCommand} {command : WorkerCommand}
      (hp : js ++ [command] <+: commands) :
      scheduledTimes t js + scheduledTimes t [command] ≤ 1 := by
    rw [← scheduledTimes_concat]
    exact (hp.sublist.countP_le).trans honce
  have hnew {js : List WorkerCommand} {command : WorkerCommand}
      {s : WorkerSystem × (String → Bool)} (hp : js ++ [command] <+: commands)
      (h : Between t js s) :
      ∀ task order answers, command = .scheduled task order answers → task.id = t →
        s.1.allTasks.get t = none := by
    rintro task order answers rfl hid
    by_contra hpresent
    have hbefore := h.known hpresent
    have hnow : scheduledTimes t [.scheduled task order answers] = 1 := by
      simp [scheduledTimes, hid]
    have htotal := hlimit hp
    omega
  refine meets_congr_along (I := Between t) hrun ?_ ?_ ?_
  · exact ⟨⟨rfl, rfl⟩, keyed_empty, fun hget => absurd rfl hget⟩
  · intro js command s next hp h hs
    exact restores_iff_lossless h.idle h.keyed (hnew hp h) hs
  · intro js command s next hp h hlossless hs
    obtain ⟨s', hstep, rfl⟩ := Option.map_eq_some_iff.mp hs
    obtain ⟨halive, hidle⟩ := idle_commandStep h.idle hstep
    refine ⟨hidle (halive.mpr hlossless.1), keyed_commandStep h.keyed hstep, fun hget => ?_⟩
    rw [scheduledTimes_concat]
    rcases known_commandStep h.keyed hstep hget with hold | hnow
    · have hbefore := h.known hold
      omega
    · omega

def launchAnswers : String → LaunchAnswers := fun _ => ⟨answering "s1", answering "s2"⟩

def urgentTask : ScheduledTaskInstance := exampleTask "urgent" true 1

def scheduleCounter : WorkerCommand :=
  .scheduled meteredTask [.launchTask meteredTask, updateOf meteredTask .running] launchAnswers

def pauseCounter : WorkerCommand :=
  .scheduled urgentTask [.terminateTask "counter" true, updateOf meteredTask .paused,
    .launchTask urgentTask, updateOf urgentTask .running] launchAnswers

def pausedTask : ScheduledTaskInstance := { meteredTask with status := .paused }

def resumeCounter : WorkerCommand :=
  .terminated "urgent" [.terminateTask "urgent" false, .launchTask pausedTask,
    updateOf meteredTask .running] launchAnswers

def addCar : WorkerCommand := .addInput (exampleFlow "Car.02") (some "s3")

-- the input that was added while the task ran is not subscribed again
theorem added_input_lost :
    scheduledTimes "counter" [scheduleCounter, addCar, pauseCounter, resumeCounter] ≤ 1 ∧
      ¬ Meets (wanting true "counter") (Restores true "counter") (.init, fun _ => false)
        [scheduleCounter, addCar, pauseCounter, resumeCounter] := by
  refine ⟨by decide, fun h => ?_⟩
  have hrun : ∃ s last, exec (wanting true "counter") (.init, fun _ => false)
        [scheduleCounter, addCar, pauseCounter] = some s ∧
      wanting true "counter" s resumeCounter = some last ∧ last.2 "Car.02" = true ∧
      subscribedFor last.1.executor "counter" "Car.02" = false :=
    ⟨_, _, rfl, rfl, rfl, rfl⟩
  obtain ⟨s, last, hpause, hresume, hwanted, hlost⟩ := hrun
  have hlaunch : resumeCounter.Launches "counter" pausedTask (launchAnswers "counter") :=
    ⟨by simp, rfl, rfl, rfl⟩
  have hrestored := h [scheduleCounter, addCar, pauseCounter] resumeCounter s
    (List.prefix_refl _) hpause last hresume
  have heq := hrestored.2 pausedTask (launchAnswers "counter") hlaunch "Car.02"
  rw [hwanted, hlost] at heq
  cases heq

theorem beq_swap (x y : String) : (x == y) = (y == x) := by
  rw [Bool.eq_iff_iff, beq_iff_eq, beq_iff_eq]
  exact eq_comm

-- the input that was added while the task was paused is subscribed
theorem delayed_input_kept : Meets (wanting true "counter") (Restores true "counter")
    (.init, fun _ => false) [scheduleCounter, pauseCounter, addCar, resumeCounter] := by
  have hrun : ∃ last, exec (wanting true "counter") (.init, fun _ => false)
      [scheduleCounter, pauseCounter, addCar, resumeCounter] = some last := ⟨_, rfl⟩
  obtain ⟨last, hrun⟩ := hrun
  refine (resumed_inputs_iff hrun (by decide)).mpr ?_
  refine meets_cons.mpr ⟨⟨fun flow h => ?_, ?_⟩, fun s hs => ?_⟩
  · cases h
  · rintro task launch ⟨hmem, hid, rfl, -⟩ entity
    obtain rfl : task = meteredTask := by simpa [updateOf] using hmem
    change ["Car.01"].contains entity = (false || (true && (("Car.01" == entity) || false)))
    rw [beq_swap "Car.01"]
    simp [beq_eq_decide]
  obtain rfl := Option.some.inj hs
  refine meets_cons.mpr ⟨⟨fun flow h => ?_, ?_⟩, fun s hs => ?_⟩
  · cases h
  · rintro task launch ⟨hmem, hid, rfl, -⟩ entity
    obtain rfl : task = urgentTask := by simpa [updateOf] using hmem
    simp [urgentTask, exampleTask] at hid
  obtain rfl := Option.some.inj hs
  refine meets_cons.mpr ⟨⟨fun flow h => ?_, fun task launch h => ?_⟩, fun s hs => ?_⟩
  · cases h
  · exact h.elim
  obtain rfl := Option.some.inj hs
  refine meets_singleton.mpr ⟨fun flow h => ?_, ?_⟩
  · cases h
  · rintro task launch ⟨hmem, hid, rfl, -⟩ entity
    obtain rfl : task = pausedTask := by simpa [updateOf] using hmem
    change ["Car.01", "Car.02"].contains entity = ((true && ("Car.02" == entity)) ||
      ((false || (true && (("Car.01" == entity) || false))) || (false && false)))
    rw [beq_swap "Car.01", beq_swap "Car.02"]
    simp [beq_eq_decide, Bool.or_comm]

end FogFlow.Worker
