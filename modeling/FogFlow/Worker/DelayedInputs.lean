import FogFlow.Worker.Containers

namespace FogFlow.Worker

open Ngsi Datamodel Execution

def Goroutine.taskID : Goroutine → String
  | .startTask task => task.id
  | .register task _ _ => task.id
  | .delayedInputs taskInstanceID => taskInstanceID
  | .lookUp taskID _ => taskID
  | .stopTask termination => termination.taskID
  | .cleanUp termination => termination.taskID

-- the task that a step is about
def Operation.concerns (e : Executor) : Operation → Option String
  | .launchTask task => some task.id
  | .terminateTask taskID _ => some taskID
  | .onAddInput flow _ => some flow.taskInstanceID
  | .onRemoveInput flow => some flow.taskInstanceID
  | .run i _ => (e.goroutines[i]?).map Goroutine.taskID

variable {startActualTask : Bool} {e e' : Executor} {t : String}

-- all that a worker has of a task, as far as launching and delayed inputs go
structure SameFor (t : String) (e e' : Executor) : Prop where
  context : e'.taskInstances.get t = e.taskInstances.get t
  queue : e'.delayedAddInputCommands.get t = e.delayedAddInputCommands.get t
  goroutines : ∀ g : Goroutine, g.taskID = t → (g ∈ e'.goroutines ↔ g ∈ e.goroutines)

theorem sameFor_spawn {g : Goroutine} (hg : g.taskID ≠ t) :
    SameFor t e { e with goroutines := e.goroutines ++ [g] } := by
  refine ⟨rfl, rfl, fun g' hg' => ?_⟩
  have hne : g' ≠ g := fun he => hg (he ▸ hg')
  simp [hne]

theorem sameFor_onAddInput {flow : FlowInfo} {answer : Option String}
    (hne : flow.taskInstanceID ≠ t) : SameFor t e (onAddInput startActualTask e flow answer) := by
  unfold onAddInput
  split_ifs
  · exact ⟨rfl, rfl, fun _ _ => Iff.rfl⟩
  · split
    · exact ⟨GoMap.get_set_ne _ _ (Ne.symm hne), rfl, fun _ _ => Iff.rfl⟩
    · exact ⟨rfl, GoMap.get_set_ne _ _ (Ne.symm hne), fun _ _ => Iff.rfl⟩

theorem sameFor_onRemoveInput {flow : FlowInfo} (hne : flow.taskInstanceID ≠ t) :
    SameFor t e (onRemoveInput startActualTask e flow) := by
  unfold onRemoveInput
  split_ifs
  · exact ⟨rfl, rfl, fun _ _ => Iff.rfl⟩
  · split
    · exact ⟨rfl, rfl, fun _ _ => Iff.rfl⟩
    · exact ⟨GoMap.get_set_ne _ _ (Ne.symm hne), rfl, fun _ _ => Iff.rfl⟩

theorem sameFor_runGoroutine {i : Nat} {answers : Answers} {g : Goroutine}
    (hg : e.goroutines[i]? = some g) (hne : g.taskID ≠ t) :
    SameFor t e (runGoroutine e i answers g) := by
  have hset : ∀ g' : Goroutine, g'.taskID = g.taskID → ∀ x : Goroutine, x.taskID = t →
      (x ∈ e.goroutines.set i g' ↔ x ∈ e.goroutines) := by
    intro g' hg' x hx
    refine Pool.mem_set_of_ne hg ?_ ?_
    · exact fun he => hne (he ▸ hx)
    · exact fun he => hne (hg' ▸ he ▸ hx)
  have herase : ∀ x : Goroutine, x.taskID = t →
      (x ∈ e.goroutines.eraseIdx i ↔ x ∈ e.goroutines) :=
    fun x hx => Pool.mem_eraseIdx_of_ne hg (fun he => hne (he ▸ hx))
  cases g with
  | startTask task =>
    simp only [runGoroutine]
    split
    · exact ⟨rfl, rfl, herase⟩
    · exact ⟨rfl, rfl, hset _ rfl⟩
  | register task containerID refURL =>
    exact ⟨GoMap.get_set_ne _ _ (Ne.symm hne), rfl, hset _ rfl⟩
  | delayedInputs taskInstanceID =>
    simp only [runGoroutine, handleDelayedAddInputCommands]
    split
    · exact ⟨rfl, rfl, herase⟩
    · split
      · exact ⟨rfl, GoMap.get_delete_ne _ (Ne.symm hne), herase⟩
      · exact ⟨rfl, rfl, herase⟩
      · exact ⟨GoMap.get_set_ne _ _ (Ne.symm hne), GoMap.get_delete_ne _ (Ne.symm hne), herase⟩
  | lookUp taskID paused =>
    simp only [runGoroutine]
    split
    · exact ⟨rfl, rfl, herase⟩
    · exact ⟨rfl, rfl, hset _ rfl⟩
  | stopTask termination => exact ⟨rfl, rfl, hset _ rfl⟩
  | cleanUp termination =>
    simp only [runGoroutine]
    split
    · exact ⟨rfl, rfl, fun _ _ => Iff.rfl⟩
    · exact ⟨GoMap.get_delete_ne _ (Ne.symm hne), rfl, herase⟩

-- a step about another task
theorem sameFor_operate {op : Operation} (h : operate startActualTask e op = some e')
    (hne : op.concerns e ≠ some t) : SameFor t e e' := by
  unfold operate at h
  split_ifs at h
  cases op with
  | launchTask task =>
    obtain rfl := Option.some.inj h
    exact sameFor_spawn (fun he => hne (congrArg some he))
  | terminateTask taskID paused =>
    obtain rfl := Option.some.inj h
    exact sameFor_spawn (fun he => hne (congrArg some he))
  | onAddInput flow answer =>
    obtain rfl := Option.some.inj h
    exact sameFor_onAddInput (fun he => hne (congrArg some he))
  | onRemoveInput flow =>
    obtain rfl := Option.some.inj h
    exact sameFor_onRemoveInput (fun he => hne (congrArg some he))
  | run i answers =>
    obtain ⟨g, hg, rfl⟩ := Option.map_eq_some_iff.mp h
    refine sameFor_runGoroutine hg (fun he => hne ?_)
    rw [Operation.concerns, hg, Option.map_some, he]

-- the commands that wait for a task
def Executor.waiting (e : Executor) (t : String) : List FlowInfo :=
  e.delayedAddInputCommands.slice t

-- the commands that a step passes to handleAddInput
def handles (e : Executor) : Operation → List FlowInfo
  | .onAddInput flow _ =>
      if (e.taskInstances.get flow.taskInstanceID).isSome then [flow] else []
  | .run i _ =>
      match e.goroutines[i]? with
      | some (.delayedInputs taskInstanceID) =>
          if (e.taskInstances.get taskInstanceID).isSome then e.waiting taskInstanceID else []
      | _ => []
  | _ => []

-- the executor beside the record of what was passed to handleAddInput
def recorded (s : Executor × List FlowInfo) (op : Operation) : Option (Executor × List FlowInfo) :=
  (operate true s.1 op).map (fun e => (e, s.2 ++ handles s.1 op))

def flowsOf (t : String) (flows : List FlowInfo) : List FlowInfo :=
  flows.filter (fun flow => flow.taskInstanceID == t)

def arrived (ops : List Operation) : List FlowInfo :=
  ops.filterMap (fun
    | .onAddInput flow _ => some flow
    | _ => none)

theorem Goroutine.taskID_of_terminates {g : Goroutine} (h : g.terminates t = true) :
    g.taskID = t := by
  cases g with
  | lookUp taskID paused => exact beq_iff_eq.mp h
  | stopTask termination => exact beq_iff_eq.mp h
  | cleanUp termination => exact beq_iff_eq.mp h
  | _ => cases h

theorem Goroutine.taskID_of_launches {g : Goroutine} (h : g.launches t = true) :
    g.taskID = t := by
  cases g with
  | startTask task => exact beq_iff_eq.mp h
  | register task containerID refURL => exact beq_iff_eq.mp h
  | _ => cases h

-- what is passed to handleAddInput is subscribed in the same section
theorem handles_subscribed {op : Operation} (h : operate true e op = some e')
    (hne : handles e op ≠ []) : ∃ taskCtx : TaskContext,
      e'.calls = e.calls ++ subscribeCalls taskCtx ((handles e op).map FlowInfo.inputStream) := by
  unfold operate at h
  split_ifs at h
  cases op with
  | launchTask task => exact absurd rfl hne
  | terminateTask taskID paused => exact absurd rfl hne
  | onRemoveInput flow => exact absurd rfl hne
  | onAddInput flow answer =>
    obtain rfl := Option.some.inj h
    cases hget : e.taskInstances.get flow.taskInstanceID with
    | none => simp [handles, hget] at hne
    | some taskCtx => exact ⟨taskCtx, by simp [onAddInput, handles, hget]⟩
  | run i answers =>
    obtain ⟨g, hg, rfl⟩ := Option.map_eq_some_iff.mp h
    cases g with
    | delayedInputs taskInstanceID =>
      cases hget : e.taskInstances.get taskInstanceID with
      | none => simp [handles, hg, hget] at hne
      | some taskCtx =>
        simp only [handles, hg, hget, Option.isSome_some, if_true] at hne ⊢
        refine ⟨taskCtx, ?_⟩
        simp only [Executor.waiting, GoMap.slice] at hne ⊢
        cases hqueue : e.delayedAddInputCommands.get taskInstanceID with
        | none => simp [hqueue] at hne
        | some flowList =>
          cases flowList with
          | nil => simp [hqueue] at hne
          | cons flow flowList =>
            simp [runGoroutine, handleDelayedAddInputCommands, hqueue, hget]
    | _ => simp [handles, hg] at hne

-- a command waits under the task it names
def QueuesKeyed (e : Executor) : Prop :=
  ∀ k, ∀ flow ∈ e.waiting k, flow.taskInstanceID = k

theorem queuesKeyed_same (h : QueuesKeyed e)
    (hsame : e'.delayedAddInputCommands = e.delayedAddInputCommands) : QueuesKeyed e' := by
  intro k flow hflow
  rw [Executor.waiting, hsame] at hflow
  exact h k flow hflow

theorem queuesKeyed_delete (h : QueuesKeyed e) {k : String}
    (hdelete : e'.delayedAddInputCommands = e.delayedAddInputCommands.delete k) :
    QueuesKeyed e' := by
  intro k' flow hflow
  rw [Executor.waiting, hdelete, GoMap.slice, GoMap.get_delete] at hflow
  split_ifs at hflow with hk
  · cases hflow
  · exact h k' flow hflow

theorem queuesKeyed_onAddInput (h : QueuesKeyed e) {flow : FlowInfo} {answer : Option String} :
    QueuesKeyed (onAddInput startActualTask e flow answer) := by
  unfold onAddInput
  split_ifs
  · exact h
  · split
    · exact queuesKeyed_same h rfl
    · intro k flow' hflow
      rw [Executor.waiting, GoMap.slice_set] at hflow
      split_ifs at hflow with hk
      · rcases List.mem_append.mp hflow with hflow | hflow
        · exact (h _ flow' hflow).trans hk.symm
        · rw [List.mem_singleton.mp hflow, hk]
      · exact h k flow' hflow

theorem queuesKeyed_onRemoveInput (h : QueuesKeyed e) {flow : FlowInfo} :
    QueuesKeyed (onRemoveInput startActualTask e flow) := by
  unfold onRemoveInput
  split_ifs
  · exact h
  · split
    · exact queuesKeyed_same h rfl
    · exact queuesKeyed_same h rfl

theorem queuesKeyed_runGoroutine (h : QueuesKeyed e) {i : Nat} {answers : Answers}
    {g : Goroutine} : QueuesKeyed (runGoroutine e i answers g) := by
  cases g with
  | startTask task =>
    simp only [runGoroutine]
    split
    · exact queuesKeyed_same h rfl
    · exact queuesKeyed_same h rfl
  | register task containerID refURL => exact queuesKeyed_same h rfl
  | delayedInputs taskInstanceID =>
    simp only [runGoroutine, handleDelayedAddInputCommands]
    split
    · exact queuesKeyed_same h rfl
    · split
      · exact queuesKeyed_delete h rfl
      · exact queuesKeyed_same h rfl
      · exact queuesKeyed_delete h rfl
  | lookUp taskID paused =>
    simp only [runGoroutine]
    split
    · exact queuesKeyed_same h rfl
    · exact queuesKeyed_same h rfl
  | stopTask termination => exact queuesKeyed_same h rfl
  | cleanUp termination =>
    simp only [runGoroutine]
    split
    · exact queuesKeyed_same h rfl
    · exact queuesKeyed_same h rfl

theorem queuesKeyed_operate {op : Operation} (h : QueuesKeyed e)
    (hs : operate startActualTask e op = some e') : QueuesKeyed e' := by
  unfold operate at hs
  split_ifs at hs
  cases op with
  | launchTask task =>
    obtain rfl := Option.some.inj hs
    exact queuesKeyed_same h rfl
  | terminateTask taskID paused =>
    obtain rfl := Option.some.inj hs
    exact queuesKeyed_same h rfl
  | onAddInput flow answer =>
    obtain rfl := Option.some.inj hs
    exact queuesKeyed_onAddInput h
  | onRemoveInput flow =>
    obtain rfl := Option.some.inj hs
    exact queuesKeyed_onRemoveInput h
  | run i answers =>
    obtain ⟨g, -, rfl⟩ := Option.map_eq_some_iff.mp hs
    exact queuesKeyed_runGoroutine h

-- every command of the task was handled or still waits, and waits only for a launch under way
structure InputsAccounted (t : String) (ops : List Operation) (s : Executor × List FlowInfo) :
    Prop where
  keyed : QueuesKeyed s.1
  conserved : (flowsOf t s.2 ++ s.1.waiting t).Perm (flowsOf t (arrived ops))
  pending : s.1.taskInstances.get t ≠ none →
    s.1.delayedAddInputCommands.get t = none ∨ .delayedInputs t ∈ s.1.goroutines
  unterminated : ∀ g ∈ s.1.goroutines, g.terminates t = false
  launched : (∃ task : ScheduledTaskInstance, task.id = t ∧ .launchTask task ∈ ops) →
    s.1.taskInstances.get t ≠ none ∨ ∃ g ∈ s.1.goroutines, g.launches t = true

variable {ops : List Operation} {op : Operation} {log : List FlowInfo}

theorem flowsOf_append (flows flows' : List FlowInfo) :
    flowsOf t (flows ++ flows') = flowsOf t flows ++ flowsOf t flows' :=
  List.filter_append ..

theorem flowsOf_eq_self {flows : List FlowInfo} (h : ∀ flow ∈ flows, flow.taskInstanceID = t) :
    flowsOf t flows = flows :=
  List.filter_eq_self.mpr (fun flow hflow => beq_iff_eq.mpr (h flow hflow))

theorem flowsOf_eq_nil {flows : List FlowInfo} (h : ∀ flow ∈ flows, flow.taskInstanceID ≠ t) :
    flowsOf t flows = [] :=
  List.filter_eq_nil_iff.mpr (fun flow hflow he => h flow hflow (beq_iff_eq.mp he))

theorem arrived_append (ops ops' : List Operation) : arrived (ops ++ ops') =
    arrived ops ++ arrived ops' :=
  List.filterMap_append ..

theorem arrived_other (h : op.concerns e ≠ some t) : flowsOf t (arrived [op]) = [] := by
  cases op with
  | onAddInput flow answer =>
    refine flowsOf_eq_nil (fun flow' hflow => ?_)
    obtain rfl := List.mem_singleton.mp hflow
    exact fun he => h (congrArg some he)
  | _ => rfl

theorem handles_other (hkeyed : QueuesKeyed e) (h : op.concerns e ≠ some t) :
    flowsOf t (handles e op) = [] := by
  refine flowsOf_eq_nil (fun flow hflow he => h ?_)
  cases op with
  | launchTask task => cases hflow
  | terminateTask taskID paused => cases hflow
  | onRemoveInput flow => cases hflow
  | onAddInput flow' answer =>
    simp only [handles] at hflow
    split_ifs at hflow
    · rw [← he, List.mem_singleton.mp hflow]
      rfl
    · cases hflow
  | run i answers =>
    simp only [handles] at hflow
    split at hflow
    case h_1 taskInstanceID hg =>
      split_ifs at hflow
      · rw [Operation.concerns, hg, Option.map_some, Goroutine.taskID,
          ← hkeyed taskInstanceID flow hflow, he]
      · cases hflow
    case h_2 => cases hflow

theorem accounted_other (h : InputsAccounted t ops (e, log)) (hs : operate true e op = some e')
    (hne : op.concerns e ≠ some t) : InputsAccounted t (ops ++ [op]) (e', log ++ handles e op) := by
  have hsame : SameFor t e e' := sameFor_operate hs hne
  have hwaiting : e'.waiting t = e.waiting t := by
    rw [Executor.waiting, GoMap.slice, hsame.queue, Executor.waiting, GoMap.slice]
  refine ⟨queuesKeyed_operate h.keyed hs, ?_, fun hget => ?_, fun g hg => ?_, ?_⟩
  · rw [flowsOf_append, handles_other h.keyed hne, List.append_nil, hwaiting, arrived_append,
      flowsOf_append, arrived_other hne, List.append_nil]
    exact h.conserved
  · rw [hsame.context] at hget
    rw [hsame.queue]
    exact (h.pending hget).imp_right (hsame.goroutines _ rfl).mpr
  · cases hterm : g.terminates t with
    | false => rfl
    | true =>
      have hold := (hsame.goroutines g (Goroutine.taskID_of_terminates hterm)).mp hg
      exact hterm.symm.trans (h.unterminated g hold)
  · rintro ⟨task, hid, hmem⟩
    rw [hsame.context]
    rcases List.mem_append.mp hmem with hmem | hmem
    · refine (h.launched ⟨task, hid, hmem⟩).imp_right ?_
      rintro ⟨g, hg, hlaunches⟩
      exact ⟨g, (hsame.goroutines g (Goroutine.taskID_of_launches hlaunches)).mpr hg, hlaunches⟩
    · obtain rfl := List.mem_singleton.mp hmem
      exact absurd (congrArg some hid) hne

-- a step of the task that leaves its commands where they are
theorem accounted_kept (h : InputsAccounted t ops (e, log)) (hs : operate true e op = some e')
    (hhandles : handles e op = []) (harrived : arrived [op] = [])
    (hqueue : e'.delayedAddInputCommands.get t = e.delayedAddInputCommands.get t)
    (hpending : e'.taskInstances.get t ≠ none → .delayedInputs t ∈ e'.goroutines ∨
      (e.taskInstances.get t ≠ none ∧
        (.delayedInputs t ∈ e.goroutines → .delayedInputs t ∈ e'.goroutines)))
    (hgoroutines : ∀ g ∈ e'.goroutines, g ∈ e.goroutines ∨ g.terminates t = false)
    (hlaunched : (e.taskInstances.get t ≠ none ∨ ∃ g ∈ e.goroutines, g.launches t = true) ∨
        (∃ task : ScheduledTaskInstance, op = .launchTask task) →
      e'.taskInstances.get t ≠ none ∨ ∃ g ∈ e'.goroutines, g.launches t = true) :
    InputsAccounted t (ops ++ [op]) (e', log ++ handles e op) := by
  have hwaiting : e'.waiting t = e.waiting t := by
    rw [Executor.waiting, GoMap.slice, hqueue, Executor.waiting, GoMap.slice]
  refine ⟨queuesKeyed_operate h.keyed hs, ?_, fun hget => ?_, fun g hg => ?_, ?_⟩
  · rw [hhandles, List.append_nil, hwaiting, arrived_append, harrived, List.append_nil]
    exact h.conserved
  · rcases hpending hget with hnew | ⟨hold, hmem⟩
    · exact Or.inr hnew
    · rw [hqueue]
      exact (h.pending hold).imp_right hmem
  · rcases hgoroutines g hg with hg | hg
    · exact h.unterminated g hg
    · exact hg
  · rintro ⟨task, hid, hmem⟩
    rcases List.mem_append.mp hmem with hmem | hmem
    · exact hlaunched (Or.inl (h.launched ⟨task, hid, hmem⟩))
    · exact hlaunched (Or.inr ⟨task, (List.mem_singleton.mp hmem).symm⟩)

theorem accounted_launchTask {task : ScheduledTaskInstance} (h : InputsAccounted t ops (e, log))
    (hs : operate true e (.launchTask task) = some e') (hid : task.id = t) :
    InputsAccounted t (ops ++ [.launchTask task]) (e', log ++ handles e (.launchTask task)) := by
  have he : e' = { e with goroutines := e.goroutines ++ [.startTask task] } := by
    unfold operate at hs
    split_ifs at hs
    exact (Option.some.inj hs).symm
  subst he
  refine accounted_kept h hs rfl rfl rfl
    (fun hget => Or.inr ⟨hget, fun hmem => List.mem_append_left _ hmem⟩) (fun g hg => ?_)
    (fun _ => Or.inr ⟨.startTask task, by simp, beq_iff_eq.mpr hid⟩)
  rcases List.mem_append.mp hg with hg | hg
  · exact Or.inl hg
  · exact Or.inr (by rw [List.mem_singleton.mp hg]; rfl)

theorem accounted_onRemoveInput {flow : FlowInfo} (h : InputsAccounted t ops (e, log))
    (hs : operate true e (.onRemoveInput flow) = some e') (hid : flow.taskInstanceID = t) :
    InputsAccounted t (ops ++ [.onRemoveInput flow])
      (e', log ++ handles e (.onRemoveInput flow)) := by
  have he : e' = onRemoveInput true e flow := by
    unfold operate at hs
    split_ifs at hs
    exact (Option.some.inj hs).symm
  unfold onRemoveInput at he
  simp only [Bool.true_eq_false, if_false] at he
  subst hid
  split at he
  case h_1 hget =>
    subst he
    exact accounted_kept h hs rfl rfl rfl (fun hsome => absurd hget hsome)
      (fun g hg => Or.inl hg) (fun hold => by simpa using hold)
  case h_2 taskCtx hget =>
    subst he
    exact accounted_kept h hs rfl rfl rfl (fun _ => Or.inr ⟨by simp [hget], id⟩)
      (fun g hg => Or.inl hg) (fun _ => Or.inl (by simp))

theorem accounted_onAddInput {flow : FlowInfo} {answer : Option String}
    (h : InputsAccounted t ops (e, log)) (hs : operate true e (.onAddInput flow answer) = some e')
    (hid : flow.taskInstanceID = t) :
    InputsAccounted t (ops ++ [.onAddInput flow answer])
      (e', log ++ handles e (.onAddInput flow answer)) := by
  have he : e' = onAddInput true e flow answer := by
    unfold operate at hs
    split_ifs at hs
    exact (Option.some.inj hs).symm
  have hkeyed := queuesKeyed_operate h.keyed hs
  have harrived : flowsOf t (arrived (ops ++ [.onAddInput flow answer])) =
      flowsOf t (arrived ops) ++ [flow] := by
    rw [arrived_append, flowsOf_append]
    exact congrArg _ (flowsOf_eq_self (by simp [arrived, hid]))
  have hlaunched (hmem : ∃ task : ScheduledTaskInstance, task.id = t ∧
      .launchTask task ∈ ops ++ [.onAddInput flow answer]) :
      ∃ task : ScheduledTaskInstance, task.id = t ∧ .launchTask task ∈ ops := by
    simpa using hmem
  subst hid
  unfold onAddInput at he
  simp only [Bool.true_eq_false, if_false] at he
  split at he
  case h_1 taskCtx hget =>
    subst he
    have hhandles : handles e (.onAddInput flow answer) = [flow] := by simp [handles, hget]
    refine ⟨hkeyed, ?_, fun _ => h.pending (by simp [hget]), h.unterminated,
      fun _ => Or.inl (by simp)⟩
    have hself : flowsOf flow.taskInstanceID [flow] = [flow] := flowsOf_eq_self (by simp)
    rw [harrived, hhandles, flowsOf_append, hself, List.append_assoc]
    refine (List.perm_append_comm.append_left _).trans ?_
    rw [← List.append_assoc]
    exact h.conserved.append_right [flow]
  case h_2 hget =>
    subst he
    have hhandles : handles e (.onAddInput flow answer) = [] := by simp [handles, hget]
    refine ⟨hkeyed, ?_, fun hsome => absurd hget hsome, h.unterminated,
      fun hmem => h.launched (hlaunched hmem)⟩
    rw [harrived, hhandles, List.append_nil, Executor.waiting, GoMap.slice_set, if_pos rfl,
      ← List.append_assoc]
    exact h.conserved.append_right [flow]

theorem operate_run {i : Nat} {answers : Answers} {g : Goroutine}
    (hs : operate startActualTask e (.run i answers) = some e')
    (hg : e.goroutines[i]? = some g) : e' = runGoroutine e i answers g := by
  unfold operate at hs
  split_ifs at hs
  obtain ⟨g', hg', rfl⟩ := Option.map_eq_some_iff.mp hs
  obtain rfl := Option.some.inj (hg.symm.trans hg')
  rfl

theorem accounted_startTask {i : Nat} {answers : Answers} {task : ScheduledTaskInstance}
    (h : InputsAccounted t ops (e, log)) (hs : operate true e (.run i answers) = some e')
    (hg : e.goroutines[i]? = some (.startTask task)) (hid : task.id = t)
    (hstart : answers.refURL.isSome) :
    InputsAccounted t (ops ++ [.run i answers]) (e', log ++ handles e (.run i answers)) := by
  obtain ⟨refURL, hurl⟩ := Option.isSome_iff_exists.mp hstart
  have he := operate_run hs hg
  simp only [runGoroutine, hurl] at he
  subst he
  have hlength := (List.getElem?_eq_some_iff.mp hg).1
  refine accounted_kept h hs (by simp [handles, hg]) rfl rfl (fun hget => Or.inr ⟨hget, ?_⟩)
    (fun g hmem => ?_) (fun _ => Or.inr ?_)
  · exact (Pool.mem_set_of_ne hg (by simp) (by simp)).mpr
  · rcases List.mem_or_eq_of_mem_set hmem with hmem | rfl
    · exact Or.inl hmem
    · exact Or.inr rfl
  · exact ⟨_, List.mem_set hlength _, beq_iff_eq.mpr hid⟩

theorem accounted_register {i : Nat} {answers : Answers} {task : ScheduledTaskInstance}
    {containerID : Nat} {refURL : String} (h : InputsAccounted t ops (e, log))
    (hs : operate true e (.run i answers) = some e')
    (hg : e.goroutines[i]? = some (.register task containerID refURL)) (hid : task.id = t) :
    InputsAccounted t (ops ++ [.run i answers]) (e', log ++ handles e (.run i answers)) := by
  have he := operate_run hs hg
  simp only [runGoroutine] at he
  subst he
  subst hid
  have hlength := (List.getElem?_eq_some_iff.mp hg).1
  refine accounted_kept h hs (by simp [handles, hg]) rfl rfl
    (fun _ => Or.inl (List.mem_set hlength _)) (fun g hmem => ?_) (fun _ => Or.inl (by simp))
  rcases List.mem_or_eq_of_mem_set hmem with hmem | rfl
  · exact Or.inl hmem
  · exact Or.inr rfl

-- the delayed commands are taken once the task is registered
theorem accounted_delayedInputs {i : Nat} {answers : Answers} (h : InputsAccounted t ops (e, log))
    (hs : operate true e (.run i answers) = some e')
    (hg : e.goroutines[i]? = some (.delayedInputs t)) :
    InputsAccounted t (ops ++ [.run i answers]) (e', log ++ handles e (.run i answers)) := by
  have he := operate_run hs hg
  have hmem (g : Goroutine) (hmem : g ∈ e.goroutines.eraseIdx i) : g ∈ e.goroutines :=
    List.mem_of_mem_eraseIdx hmem
  have hlaunches (hold : ∃ g ∈ e.goroutines, g.launches t = true) :
      ∃ g ∈ e.goroutines.eraseIdx i, g.launches t = true := by
    obtain ⟨g, hmem, hlaunch⟩ := hold
    refine ⟨g, (Pool.mem_eraseIdx_of_ne hg ?_).mpr hmem, hlaunch⟩
    rintro rfl
    cases hlaunch
  have hlaunched (hold : ∃ task : ScheduledTaskInstance, task.id = t ∧
      .launchTask task ∈ ops ++ [.run i answers]) : e.taskInstances.get t ≠ none ∨
      ∃ g ∈ e.goroutines.eraseIdx i, g.launches t = true :=
    (h.launched (by simpa using hold)).imp_right hlaunches
  have harrived : arrived (ops ++ [.run i answers]) = arrived ops := by
    rw [arrived_append]
    exact List.append_nil _
  have hkeyed := queuesKeyed_operate h.keyed hs
  have hconserved := h.conserved
  have hhandles : handles e (.run i answers) =
      if (e.taskInstances.get t).isSome then e.waiting t else [] := by
    simp [handles, hg]
  simp only [runGoroutine, handleDelayedAddInputCommands] at he
  split at he
  case h_1 hqueue =>
    subst he
    have hnone : e.waiting t = [] := by simp [Executor.waiting, GoMap.slice, hqueue]
    rw [hnone] at hhandles
    refine ⟨hkeyed, ?_, fun _ => Or.inl hqueue,
      fun g hg => h.unterminated g (hmem g hg), hlaunched⟩
    rw [hhandles, harrived, ite_self, List.append_nil]
    exact hconserved
  case h_2 flowList hqueue =>
    have hwaiting : e.waiting t = flowList := by simp [Executor.waiting, GoMap.slice, hqueue]
    rw [hwaiting] at hhandles hconserved
    have hempty : (e.delayedAddInputCommands.delete t).slice t = [] := by
      simp [GoMap.slice, GoMap.get_delete]
    split at he
    case h_1 =>
      subst he
      refine ⟨hkeyed, ?_, fun _ => Or.inl (by simp [GoMap.get_delete]),
        fun g hg => h.unterminated g (hmem g hg), hlaunched⟩
      rw [hhandles, harrived, ite_self, List.append_nil, Executor.waiting, hempty]
      exact hconserved
    case h_2 hnone =>
      subst he
      refine ⟨hkeyed, ?_, fun hsome => absurd hnone hsome,
        fun g hg => h.unterminated g (hmem g hg), hlaunched⟩
      rw [hhandles, hnone, harrived, Option.isSome_none, if_neg Bool.false_ne_true,
        List.append_nil]
      exact h.conserved
    case h_3 taskCtx flow flows hsome =>
      subst he
      refine ⟨hkeyed, ?_, fun _ => Or.inl (by simp [GoMap.get_delete]),
        fun g hg => h.unterminated g (hmem g hg), fun _ => Or.inl (by simp)⟩
      have hself : flowsOf t (flow :: flows) = flow :: flows := by
        refine flowsOf_eq_self (fun flow' hflow => h.keyed t flow' ?_)
        rw [hwaiting]
        exact hflow
      rw [hhandles, hsome, Option.isSome_some, if_pos rfl, flowsOf_append, hself, harrived,
        Executor.waiting, hempty, List.append_nil]
      exact hconserved

def StartAnswered (t : String) (s : Executor × List FlowInfo) (op : Operation) : Prop :=
  ∀ i answers task, op = .run i answers → s.1.goroutines[i]? = some (.startTask task) →
    task.id = t → answers.refURL.isSome

theorem accounted_step {s s' : Executor × List FlowInfo} (h : InputsAccounted t ops s)
    (hs : recorded s op = some s') (hop : ∀ paused, op ≠ .terminateTask t paused)
    (hstart : StartAnswered t s op) : InputsAccounted t (ops ++ [op]) s' := by
  obtain ⟨e, log⟩ := s
  obtain ⟨e', he, rfl⟩ := Option.map_eq_some_iff.mp hs
  by_cases hconcerns : op.concerns e = some t
  · cases op with
    | launchTask task => exact accounted_launchTask h he (Option.some.inj hconcerns)
    | terminateTask taskID paused =>
      obtain rfl := Option.some.inj hconcerns
      exact absurd rfl (hop paused)
    | onAddInput flow answer => exact accounted_onAddInput h he (Option.some.inj hconcerns)
    | onRemoveInput flow => exact accounted_onRemoveInput h he (Option.some.inj hconcerns)
    | run i answers =>
      obtain ⟨g, hg, hid⟩ := Option.map_eq_some_iff.mp hconcerns
      have hunterminated := h.unterminated g (List.mem_of_getElem? hg)
      cases g with
      | startTask task =>
        exact accounted_startTask h he hg hid (hstart i answers task rfl hg hid)
      | register task containerID refURL => exact accounted_register h he hg hid
      | delayedInputs taskInstanceID =>
        obtain rfl : taskInstanceID = t := hid
        exact accounted_delayedInputs h he hg
      | lookUp taskID paused => exact absurd hid (beq_eq_false_iff_ne.mp hunterminated)
      | stopTask termination => exact absurd hid (beq_eq_false_iff_ne.mp hunterminated)
      | cleanUp termination => exact absurd hid (beq_eq_false_iff_ne.mp hunterminated)
  · exact accounted_other h he hconcerns

theorem accounted_init : InputsAccounted t [] (.init, []) where
  keyed := by simp [QueuesKeyed, Executor.waiting, Executor.init]
  conserved := .nil
  pending := fun h => absurd rfl h
  unterminated := by simp [Executor.init]
  launched := by simp

theorem accounted_exec {ops : List Operation} {s : Executor × List FlowInfo}
    (hrun : exec recorded (.init, []) ops = some s)
    (hterminate : ∀ paused, .terminateTask t paused ∉ ops)
    (hstart : Meets recorded (StartAnswered t) (.init, []) ops) : InputsAccounted t ops s := by
  refine exec_induction_of_meets (motive := fun ops s => InputsAccounted t ops s) hstart hrun
    accounted_init ?_
  intro js op r s' hp _ h hanswered hs
  refine accounted_step h hs (fun paused heq => hterminate paused ?_) hanswered
  exact hp.subset (by simp [heq])

def exampleFlow (id : String) : FlowInfo :=
  ⟨⟨"Car", id, [], "NGSIv1", "Pub-Sub", "", ""⟩, "counter", "worker"⟩

-- one command before the launch, one between its sections each, and one after it
def inputsAroundLaunch : List Operation :=
  [.onAddInput (exampleFlow "Car.01") none, .launchTask (exampleTask "counter" false 0),
    .run 0 noAnswers, .onAddInput (exampleFlow "Car.02") none, .run 0 noAnswers,
    .onAddInput (exampleFlow "Car.03") (some "s3"), .run 0 noAnswers,
    .onAddInput (exampleFlow "Car.01") (some "s4")]

end FogFlow.Worker
