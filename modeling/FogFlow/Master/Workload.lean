import FogFlow.Master.Assignment
import FogFlow.Master.Calls

namespace FogFlow.Master

open Ngsi Datamodel Loop Execution Leases

variable {marshal : GroupValue → String} {choices : Choices}

def withdrawal : Option DeploymentAction → Option (String × String)
  | some (.removeTask taskID workerID) => some (taskID, workerID)
  | _ => none

-- the tasks that the actions take back, with their workers
def withdrawals (actions : Actions) : List (String × String) := actions.filterMap withdrawal

theorem withdrawals_append (as bs : Actions) :
    withdrawals (as ++ bs) = withdrawals as ++ withdrawals bs :=
  List.filterMap_append

theorem opsOf_withdrawals {actions : Actions} {commands : List Command} (hadds : adds actions = [])
    (hc : List.Forall₂ CarriedOut actions commands) :
    opsOf commands = (withdrawals actions).map releaseOf := by
  induction hc with
  | nil => rfl
  | @cons action command actions commands hhead _ ih =>
    match action, command with
    | some (.addTask t), .deployTask _ =>
      have hcons : adds (some (.addTask t) :: actions) = t.id :: adds actions := rfl
      simp [hcons] at hadds
    | some (.removeTask _ _), .terminateTask _ _ =>
      obtain ⟨rfl, rfl⟩ := hhead
      exact congrArg (List.cons _) (ih hadds)
    | some (.addInput _), .addInputEntity _ => exact ih hadds
    | some (.removeInput _ _ _), .removeInputEntity _ _ _ => exact ih hadds

section Withdrawn

variable {flow : FogFlow} {entityID : String}

-- a deletion takes each task back that it takes out of the plan, once
structure Withdrawn (flow : FogFlow) (state : FogFlow × Actions) : Prop extends
    Reducing flow state where
  nodup : (withdrawals state.2).Nodup
  gone : ∀ id w, (id, w) ∈ withdrawals state.2 → assigned flow id = some w ∧
    state.1.executionPlan.get (lastItem id) = none
  planned : ∀ h old, flow.executionPlan.get h = some old →
    (∃ task, state.1.executionPlan.get h = some task ∧ task.taskID = old.taskID) ∨
      ∃ w, (old.taskID, w) ∈ withdrawals state.2

theorem withdrawn_nil (flow : FogFlow) : Withdrawn flow (flow, []) :=
  ⟨reducing_nil flow, List.nodup_nil, by simp [withdrawals], fun _ old hold =>
    Or.inl ⟨old, hold, rfl⟩⟩

theorem Withdrawn.step {state next : FogFlow × Actions} {group : GroupInfo} {i : Nat}
    (h : Withdrawn flow state) (hr : Ready flow)
    (hstep : GroupRemoval marshal choices entityID state.1 state.2 group i next) :
    Withdrawn flow next := by
  have hreducing := h.toReducing.step hr hstep
  cases hstep with
  | absent hnone => exact h
  | removed task hget hcheck =>
    obtain ⟨old, hold, hid, hworker⟩ := h.kept _ task hget
    obtain ⟨scheduled, hs, -⟩ := h.deployed hr hget
    have hkey : lastItem task.taskID = getHash marshal (choices.hashRank i 0) group := by
      rw [hid]
      exact hr.key _ old hold
    have hassigned : assigned flow task.taskID = some scheduled.workerID := by
      rw [assigned_eq_some_iff]
      rw [h.frame.deploymentPlan] at hs
      exact ⟨old, hkey ▸ hold, hid.symm, by rw [hs]; rfl⟩
    have hs' : removeExistingTask state.1.deploymentPlan (task.removeInput entityID) =
        some (.removeTask task.taskID scheduled.workerID) := by
      simp [removeExistingTask, TaskConfig.removeInput, hs]
    rw [hs'] at hreducing ⊢
    have hnew : withdrawals (state.2 ++ [some (.removeTask task.taskID scheduled.workerID)]) =
        withdrawals state.2 ++ [(task.taskID, scheduled.workerID)] := withdrawals_append _ _
    refine ⟨hreducing, ?_, ?_, ?_⟩
    · refine hnew ▸ List.nodup_append.mpr ⟨h.nodup, List.nodup_singleton _, fun a ha b hb => ?_⟩
      rintro rfl
      obtain rfl := List.mem_singleton.mp hb
      have hgone := (h.gone _ _ ha).2
      rw [hkey, hget] at hgone
      cases hgone
    · intro id w hin
      rcases List.mem_append.mp (hnew ▸ hin) with hin | hin
      · obtain ⟨hw, hgone⟩ := h.gone id w hin
        refine ⟨hw, ?_⟩
        rw [FogFlow.dropTask, GoMap.get_delete, hgone]
        exact ite_self _
      · obtain ⟨rfl, rfl⟩ := Prod.mk.inj (List.mem_singleton.mp hin)
        refine ⟨hassigned, ?_⟩
        rw [FogFlow.dropTask, GoMap.get_delete, if_pos hkey]
    · intro k old' hk
      by_cases heq : k = getHash marshal (choices.hashRank i 0) group
      · subst heq
        obtain rfl := Option.some.inj (hold.symm.trans hk)
        exact Or.inr ⟨scheduled.workerID, hnew ▸ by simp [hid]⟩
      · rcases h.planned k old' hk with ⟨t, ht, htid⟩ | ⟨w, hw⟩
        · refine Or.inl ⟨t, ?_, htid⟩
          rw [FogFlow.dropTask, GoMap.get_delete, if_neg heq, ht]
        · exact Or.inr ⟨w, hnew ▸ List.mem_append_left _ hw⟩
  | reduced task deployed hget hcheck hd =>
    have hnew : withdrawals (state.2 ++ [some (.removeInput entityID task.taskID
        deployed.workerID)]) = withdrawals state.2 := by
      rw [withdrawals_append]
      exact List.append_nil _
    have hplan : ∀ k, (state.1.putTask (getHash marshal (choices.hashRank i 0) group)
        (task.removeInput entityID)).executionPlan.get k =
          if k = getHash marshal (choices.hashRank i 0) group then
            some (task.removeInput entityID) else state.1.executionPlan.get k :=
      fun k => GoMap.get_set _ _ _ _
    refine ⟨hreducing, hnew ▸ h.nodup, fun id w hin => ?_, fun k old' hk => ?_⟩
    · obtain ⟨hw, hgone⟩ := h.gone id w (hnew ▸ hin)
      refine ⟨hw, ?_⟩
      rw [hplan]
      split_ifs with heq
      · rw [heq, hget] at hgone
        cases hgone
      · exact hgone
    · rw [hnew]
      rcases h.planned k old' hk with ⟨t, ht, htid⟩ | hgone
      · left
        rw [hplan]
        split_ifs with heq
        · obtain rfl := Option.some.inj ((heq ▸ hget).symm.trans ht)
          exact ⟨_, rfl, htid⟩
        · exact ⟨t, ht, htid⟩
      · exact Or.inr hgone

theorem withdrawn_removeExecutionPlan {sub : InputSubscription} {result : FogFlow × Actions}
    (hr : Ready flow) (h : removeExecutionPlan marshal choices flow entityID sub = .ok result) :
    Withdrawn flow result := by
  obtain ⟨groups, -, h⟩ := bind_eq_ok.mp h
  exact foldlM_invariant (I := fun _ state => Withdrawn flow state) h (withdrawn_nil flow)
    (fun _ _ _ _ _ _ hI hnext => hI.step hr (removeGroup_cases hnext))

theorem assigned_of_ran {state : FogFlow × Actions} {next : FogFlow} {commands : List Command}
    (hran : Ran state.1 state.2 next commands) {id : String} (hid : id ∉ adds state.2)
    (w : String) : assigned next id = some w ↔ assigned state.1 id = some w := by
  rw [assigned_eq_some_iff, assigned_eq_some_iff, (hran.kept id hid).1]
  constructor
  · rintro ⟨task, htask, htid, hw⟩
    exact ⟨task, ((hran.kept id hid).2 _ task htid).mp htask, htid, hw⟩
  · rintro ⟨task, htask, htid, hw⟩
    exact ⟨task, ((hran.kept id hid).2 _ task htid).mpr htask, htid, hw⟩

theorem Withdrawn.tracks {state : FogFlow × Actions} {next : FogFlow} {commands : List Command}
    {ops : List (Op String String)} (h : Withdrawn flow state) (ht : Tracks flow ops)
    (hran : Ran state.1 state.2 next commands) : Tracks next (ops ++ opsOf commands) := by
  have hrunning : ∀ e ∈ withdrawals state.2, e ∈ running ops := fun e he =>
    (ht.live e.1 e.2).mpr (h.gone e.1 e.2 he).1
  rw [opsOf_withdrawals h.adds hran.carried]
  refine ⟨proper_releases ht.proper hrunning h.nodup, fun id w => ?_⟩
  rw [running_releases, ht.proper.nodup.mem_sdiff_iff, ht.live,
    assigned_of_ran hran (by simp [h.adds])]
  constructor
  · rintro ⟨hassigned, hnot⟩
    obtain ⟨old, hold, hid, hw⟩ := assigned_eq_some_iff.mp hassigned
    rcases h.planned _ old hold with ⟨task, htask, htid⟩ | ⟨w', hw'⟩
    · rw [assigned_eq_some_iff, h.frame.deploymentPlan]
      exact ⟨task, htask, htid.trans hid, hw⟩
    · rw [hid] at hw'
      obtain rfl := Option.some.inj (hassigned.symm.trans (h.gone id w' hw').1)
      exact absurd hw' hnot
  · intro hassigned
    obtain ⟨task, htask, htid, hw⟩ := assigned_eq_some_iff.mp hassigned
    refine ⟨?_, fun hin => ?_⟩
    · obtain ⟨old, hold, hid, -⟩ := h.kept _ task htask
      rw [h.frame.deploymentPlan] at hw
      exact assigned_eq_some_iff.mpr ⟨old, hold, hid.symm.trans htid, hw⟩
    · have hgone := (h.gone id w hin).2
      rw [htask] at hgone
      cases hgone

end Withdrawn

-- every deployment is filed under its id
def Filed (flow : FogFlow) : Prop :=
  ∀ id scheduled, flow.deploymentPlan.get id = some scheduled → scheduled.id = id

theorem filed_of_ran {flow next : FogFlow} {actions : Actions} {commands : List Command}
    (h : Filed flow) (hran : Ran flow actions next commands) : Filed next := by
  intro id scheduled hs
  by_cases hid : id ∈ adds actions
  · obtain ⟨scheduled', -, heq, hs', -⟩ := hran.assigned id hid
    rw [Option.some.inj (hs.symm.trans hs')]
    exact heq
  · exact h id scheduled ((hran.kept id hid).1 ▸ hs)

-- the flow is ready, and the calls made for it so far are those of its planned tasks
structure Accounted (flow : FogFlow) (ops : List (Op String String)) : Prop where
  ready : Ready flow
  filed : Filed flow
  tracks : Tracks flow ops

theorem accounted_established {flow : FogFlow} (h : Established flow) : Accounted flow [] := by
  refine ⟨ready_established h, by simp [Filed, h.deploymentPlan], .nil, fun id w => ?_⟩
  rw [assigned_eq_some_iff]
  simp [h.executionPlan]

-- a worker is found for every task, and no task is deployed twice for the same event
structure Accountable (marshal : GroupValue → String) (flow : FogFlow) (e : Event) : Prop where
  answered : ∀ orchestrated, metadataDrivenTaskOrchestration marshal e.choices flow e.subID
      e.entityAction e.registeredEntity = .ok orchestrated →
    Answered e.selectWorker 0 orchestrated.1.executionPlan orchestrated.2
  once : ∀ orchestrated, metadataDrivenTaskOrchestration marshal e.choices flow e.subID
      e.entityAction e.registeredEntity = .ok orchestrated → (adds orchestrated.2).Nodup

theorem handleUpdate_eq_ok {flow next : FogFlow} {e : Event} {commands : List Command} :
    handleUpdate marshal flow e = .ok (next, commands) ↔
      ∃ orchestrated, metadataDrivenTaskOrchestration marshal e.choices flow e.subID
          e.entityAction e.registeredEntity = .ok orchestrated ∧
        runActions e.selectWorker 0 orchestrated.1 orchestrated.2 = .ok (next, commands) :=
  bind_eq_ok

theorem accounted_event {flow next : FogFlow} {e : Event} {commands : List Command}
    {ops : List (Op String String)} (h : Accounted flow ops) (hc : Accountable marshal flow e)
    (hs : handleUpdate marshal flow e = .ok (next, commands)) :
    Accounted next (ops ++ opsOf commands) := by
  obtain ⟨orchestrated, ho, hrun⟩ := handleUpdate_eq_ok.mp hs
  have hans := hc.answered orchestrated ho
  have hnd := hc.once orchestrated ho
  have hexpanding : ∀ before, SamePlans flow before → Expanding before orchestrated →
      Accounted next (ops ++ opsOf commands) := by
    intro before hsame hexpanding
    have hready := h.ready.congr hsame
    obtain ⟨next', commands', hrun', hran, hready'⟩ := ran_of_expanding hready hexpanding hnd hans
    obtain ⟨rfl, rfl⟩ := Prod.mk.inj (Except.ok.inj (hrun.symm.trans hrun'))
    have hfiled : Filed orchestrated.1 := by
      rw [Filed, hexpanding.frame.deploymentPlan, hsame.deploymentPlan]
      exact h.filed
    exact ⟨hready', filed_of_ran hfiled hran, (h.tracks.congr hsame).expanded hexpanding hnd hran
      (scheduled_runActions hrun).executionPlan⟩
  have hunchanged : ∀ before, SamePlans flow before → orchestrated = (before, []) →
      Accounted next (ops ++ opsOf commands) := fun before hsame heq =>
    hexpanding before hsame (heq ▸ expanding_nil (h.ready.congr hsame))
  cases orchestration_cases ho with
  | unknown hsub => exact hunchanged flow ⟨rfl, rfl⟩ rfl
  | received sub uniqueKeys hsub hact hkeys hno =>
    exact hunchanged { flow.putSubscription e.subID (receive sub e.registeredEntity) with
      uniqueKeys := uniqueKeys } ⟨rfl, rfl⟩ rfl
  | expanded sub uniqueKeys _ hsub hact hkeys hyes hexp =>
    have hready := h.ready.received e.subID (receive sub e.registeredEntity) uniqueKeys
    exact hexpanding { flow.putSubscription e.subID (receive sub e.registeredEntity) with
      uniqueKeys := uniqueKeys } ⟨rfl, rfl⟩ (expanding_expandExecutionPlan hready hexp)
  | absent sub hsub hact hnone => exact hunchanged flow ⟨rfl, rfl⟩ rfl
  | removed sub _ hsub hact hheld hyes hremove =>
    have hwithdrawn := withdrawn_removeExecutionPlan h.ready hremove
    obtain ⟨next', commands', hrun', hran, hready'⟩ := ready_of_schedulable h.ready
      (schedulable_of_reducing h.ready hwithdrawn.toReducing) hans
    obtain ⟨rfl, rfl⟩ := Prod.mk.inj (Except.ok.inj (hrun.symm.trans hrun'))
    have hfiled : Filed orchestrated.1 := by
      rw [Filed, hwithdrawn.frame.deploymentPlan]
      exact h.filed
    exact ⟨hready', filed_of_ran hfiled hran, hwithdrawn.tracks h.tracks hran⟩
  | forgotten sub hsub hact hheld hno =>
    exact hunchanged (flow.putSubscription e.subID (forget sub (receivedKey sub
      e.registeredEntity.id))) ⟨rfl, rfl⟩ rfl

structure WorkerProfile where
  wid : String
  workload : Int

def changeWorkload (workers : GoMap WorkerProfile) (workerID : String) (n : Int) :
    Option (GoMap WorkerProfile) :=
  (workers.get workerID).map (fun profile =>
    workers.set workerID { profile with workload := profile.workload + n })

def deployTask (workers : GoMap WorkerProfile) (taskInstance : ScheduledTaskInstance) :
    Except Fault (GoMap WorkerProfile) :=
  deref (changeWorkload workers taskInstance.workerID 1)

def terminateTask (workers : GoMap WorkerProfile) (workerID : String) : GoMap WorkerProfile :=
  (changeWorkload workers workerID (-1)).getD workers

def call (workers : GoMap WorkerProfile) : Command → Except Fault (GoMap WorkerProfile)
  | .deployTask taskInstance => deployTask workers taskInstance
  | .terminateTask _ workerID => .ok (terminateTask workers workerID)
  | .addInputEntity _ => .ok workers
  | .removeInputEntity _ _ _ => .ok workers

def callAll (workers : GoMap WorkerProfile) (commands : List Command) :
    Except Fault (GoMap WorkerProfile) :=
  commands.foldlM call workers

-- the calls of removeTaskIntent for the flow that it removes
def terminateAll (rank : String → Nat) (flow : FogFlow) : List Command :=
  (flow.deploymentPlan.range rank).map (fun e => .terminateTask e.2.id e.2.workerID)

def deployedTasks (rank : String → Nat) (flow : FogFlow) : List (String × String) :=
  (flow.deploymentPlan.range rank).map (fun e => (e.1, e.2.workerID))

theorem mem_deployedTasks {rank : String → Nat} {flow : FogFlow} {id w : String} :
    (id, w) ∈ deployedTasks rank flow ↔
      ∃ scheduled, flow.deploymentPlan.get id = some scheduled ∧ scheduled.workerID = w := by
  rw [deployedTasks, List.mem_map]
  constructor
  · rintro ⟨⟨k, scheduled⟩, he, heq⟩
    obtain ⟨rfl, rfl⟩ := Prod.mk.inj heq
    exact ⟨scheduled, GoMap.mem_range.mp he, rfl⟩
  · rintro ⟨scheduled, hget, rfl⟩
    exact ⟨⟨id, scheduled⟩, GoMap.mem_range.mpr hget, rfl⟩

theorem deployedTasks_nodup (rank : String → Nat) (flow : FogFlow) :
    (deployedTasks rank flow).Nodup := by
  refine List.Nodup.of_map Prod.fst ?_
  rw [deployedTasks, List.map_map]
  exact GoMap.range_keys_nodup rank flow.deploymentPlan

theorem opsOf_terminateAll {flow : FogFlow} (rank : String → Nat) (h : Filed flow) :
    opsOf (terminateAll rank flow) = (deployedTasks rank flow).map releaseOf := by
  rw [opsOf, terminateAll, deployedTasks, List.filterMap_map, List.map_map,
    ← List.filterMap_eq_map]
  refine List.filterMap_congr (fun e he => ?_)
  have hid := h e.1 e.2 (GoMap.mem_range.mp he)
  simp [opOf, releaseOf, hid]

theorem running_terminateAll {flow : FogFlow} {ops : List (Op String String)}
    (rank : String → Nat) (h : Accounted flow ops) :
    running (ops ++ opsOf (terminateAll rank flow)) = [] := by
  rw [opsOf_terminateAll rank h.filed, running_releases, List.eq_nil_iff_forall_not_mem]
  rintro ⟨id, w⟩ he
  rw [h.tracks.proper.nodup.mem_sdiff_iff] at he
  obtain ⟨-, -, -, hw⟩ := assigned_eq_some_iff.mp ((h.tracks.live id w).mp he.1)
  obtain ⟨scheduled, hget, rfl⟩ := Option.map_eq_some_iff.mp hw
  exact he.2 (mem_deployedTasks.mpr ⟨scheduled, hget, rfl⟩)

namespace Workload

-- one flow with the workers and the calls made to them
structure System where
  fogflow : Option FogFlow
  workers : GoMap WorkerProfile
  calls : List Command

inductive Label where
  | update (e : Event)
  | removeTaskIntent (rank : String → Nat)

def proceed (s : System) (fogflow : Option FogFlow) (commands : List Command) : Option System :=
  match callAll s.workers commands with
  | .error _ => none
  | .ok workers => some ⟨fogflow, workers, s.calls ++ commands⟩

-- a fault ends the master, so the run has no further step
def step (marshal : GroupValue → String) (s : System) : Label → Option System
  | .update e =>
      match s.fogflow with
      | none => some s
      | some flow =>
          match handleUpdate marshal flow e with
          | .error _ => none
          | .ok result => proceed s (some result.1) result.2
  | .removeTaskIntent rank =>
      match s.fogflow with
      | none => none
      | some flow => proceed s none (terminateAll rank flow)

-- the tasks deployed to the worker and not yet terminated
def deployedTo (workerID : String) (calls : List Command) : Nat :=
  (running (opsOf calls)).countP (fun e => e.2 = workerID)

structure Balanced (workers₀ : GoMap WorkerProfile) (s : System) : Prop where
  terminated : ∀ id before, before <+: s.calls → terminations id before ≤ deployments id before
  removed : s.fogflow = none → ∀ id, terminations id s.calls = deployments id s.calls
  workload : ∀ before workers, before <+: s.calls → callAll workers₀ before = .ok workers →
    ∀ w profile, workers.get w = some profile → profile.workload = deployedTo w before
  current : callAll workers₀ s.calls = .ok s.workers

-- when the intent is removed, no task has left the plan but not the deployments
def Met (marshal : GroupValue → String) (s : System) : Label → Prop
  | .update e => ∀ flow, s.fogflow = some flow → Accountable marshal flow e
  | .removeTaskIntent _ => ∀ flow, s.fogflow = some flow →
      ∀ id, flow.deploymentPlan.get id ≠ none →
        ∃ task, flow.executionPlan.get (lastItem id) = some task ∧ task.taskID = id

theorem get_changeWorkload {workers workers' : GoMap WorkerProfile} {workerID : String} {n : Int}
    (h : changeWorkload workers workerID n = some workers') (w : String) :
    workers'.get w = (workers.get w).map (fun profile =>
      if w = workerID then { profile with workload := profile.workload + n } else profile) := by
  obtain ⟨profile, hget, rfl⟩ := Option.map_eq_some_iff.mp h
  rw [GoMap.get_set]
  split_ifs with hw
  · rw [hw, hget]
    rfl
  · simp

theorem callAll_append (workers : GoMap WorkerProfile) (as bs : List Command) :
    callAll workers (as ++ bs) = callAll workers as >>= fun next => callAll next bs :=
  List.foldlM_append

theorem get_call {workers workers' : GoMap WorkerProfile} {command : Command}
    (h : call workers command = .ok workers') (w : String) :
    workers'.get w = (workers.get w).map (fun profile => { profile with
      workload := profile.workload + assignsTo w (opsOf [command]) -
        releasesFrom w (opsOf [command]) }) := by
  match command with
  | .deployTask t =>
    rw [get_changeWorkload (deref_eq_ok.mp h) w]
    refine congrArg (fun f => Option.map f (workers.get w)) (funext fun profile => ?_)
    by_cases hw : w = t.workerID
    · subst hw
      simp [opsOf, opOf, assignsTo, releasesFrom]
    · simp [opsOf, opOf, assignsTo, releasesFrom, hw, Ne.symm hw]
  | .terminateTask id workerID =>
    obtain rfl := Except.ok.inj h
    have hops : assignsTo w (opsOf [.terminateTask id workerID]) = 0 := rfl
    cases hchange : changeWorkload workers workerID (-1) with
    | none =>
      rw [terminateTask, hchange, Option.getD_none]
      have hnone : workers.get workerID = none := Option.map_eq_none_iff.mp hchange
      by_cases hw : w = workerID
      · rw [hw, hnone]
        rfl
      · simp [opsOf, opOf, assignsTo, releasesFrom, Ne.symm hw]
    | some next =>
      rw [terminateTask, hchange, Option.getD_some, get_changeWorkload hchange w]
      refine congrArg (fun f => Option.map f (workers.get w)) (funext fun profile => ?_)
      by_cases hw : w = workerID
      · subst hw
        simp [opsOf, opOf, assignsTo, releasesFrom, Int.sub_eq_add_neg]
      · simp [opsOf, opOf, assignsTo, releasesFrom, hw, Ne.symm hw]
  | .addInputEntity _ | .removeInputEntity _ _ _ =>
    rw [← Except.ok.inj h, show opsOf [_] = [] from rfl]
    simp [assignsTo, releasesFrom]

theorem get_callAll {workers workers' : GoMap WorkerProfile} {commands : List Command}
    (h : callAll workers commands = .ok workers') (w : String) :
    workers'.get w = (workers.get w).map (fun profile => { profile with
      workload := profile.workload + assignsTo w (opsOf commands) -
        releasesFrom w (opsOf commands) }) := by
  induction commands using List.reverseRecOn generalizing workers' with
  | nil =>
    rw [← Except.ok.inj h]
    simp [opsOf, assignsTo, releasesFrom]
  | append_singleton commands command ih =>
    obtain ⟨between, hbetween, hlast⟩ := bind_eq_ok.mp (callAll_append workers _ _ ▸ h)
    have hcall : call between command = .ok workers' := by
      simpa [callAll] using hlast
    rw [get_call hcall w, ih hbetween, Option.map_map, opsOf_append, assignsTo_append,
      releasesFrom_append]
    refine congrArg (fun f => Option.map f (workers.get w)) (funext fun profile => ?_)
    simp only [Function.comp_apply, Int.natCast_add, WorkerProfile.mk.injEq, true_and]
    omega

-- the flow with its calls, and no task left once it has been removed
def InOrder (flow : Option FogFlow) (ops : List (Op String String)) : Prop :=
  match flow with
  | some flow => Accounted flow ops
  | none => Proper ops ∧ running ops = []

theorem proper_of_inOrder {flow : Option FogFlow} {ops : List (Op String String)}
    (h : InOrder flow ops) : Proper ops :=
  match flow, h with
  | some _, h => h.tracks.proper
  | none, h => h.1

theorem balanced_of_inOrder {workers₀ : GoMap WorkerProfile} {s : System}
    (hzero : ∀ w profile, workers₀.get w = some profile → profile.workload = 0)
    (h : InOrder s.fogflow (opsOf s.calls)) (hcurrent : callAll workers₀ s.calls = .ok s.workers) :
    Balanced workers₀ s := by
  have hproper : ∀ before, before <+: s.calls → Proper (opsOf before) := by
    rintro before ⟨rest, hrest⟩
    have hall := proper_of_inOrder h
    rw [← hrest, opsOf_append] at hall
    exact hall.shorter
  refine ⟨?_, ?_, ?_, hcurrent⟩
  · intro id before hp
    have hcount := (hproper before hp).count_key id
    rw [terminations, deployments]
    omega
  · intro hnone id
    rw [hnone] at h
    have hcount := h.1.count_key id
    rw [h.2] at hcount
    rw [terminations, deployments, hcount]
    rfl
  · intro before workers hp hcall w profile hget
    rw [get_callAll hcall w] at hget
    obtain ⟨profile₀, hget₀, rfl⟩ := Option.map_eq_some_iff.mp hget
    have hcount := (hproper before hp).count_place w
    rw [deployedTo, hzero w profile₀ hget₀, hcount]
    push_cast
    omega

theorem proceed_eq_some {s t : System} {fogflow : Option FogFlow} {commands : List Command} :
    proceed s fogflow commands = some t ↔ ∃ workers, callAll s.workers commands = .ok workers ∧
      t = ⟨fogflow, workers, s.calls ++ commands⟩ := by
  unfold proceed
  cases callAll s.workers commands with
  | error fault => simp
  | ok workers => simp [eq_comm]

theorem inOrder_terminateAll {flow : FogFlow} {ops : List (Op String String)}
    (rank : String → Nat) (h : Accounted flow ops)
    (hplanned : ∀ id, flow.deploymentPlan.get id ≠ none →
      ∃ task, flow.executionPlan.get (lastItem id) = some task ∧ task.taskID = id) :
    InOrder none (ops ++ opsOf (terminateAll rank flow)) := by
  refine ⟨?_, running_terminateAll rank h⟩
  rw [opsOf_terminateAll rank h.filed]
  refine proper_releases h.tracks.proper ?_ (deployedTasks_nodup rank flow)
  rintro ⟨id, w⟩ he
  obtain ⟨scheduled, hget, rfl⟩ := mem_deployedTasks.mp he
  obtain ⟨task, htask, hid⟩ := hplanned id (by simp [hget])
  exact (h.tracks.live id _).mpr (assigned_eq_some_iff.mpr ⟨task, htask, hid, by rw [hget]; rfl⟩)

theorem inOrder_step {s t : System} {label : Label} (h : InOrder s.fogflow (opsOf s.calls))
    (hc : Met marshal s label) (hs : step marshal s label = some t) :
    InOrder t.fogflow (opsOf t.calls) ∧ ∃ commands, t.calls = s.calls ++ commands ∧
      callAll s.workers commands = .ok t.workers := by
  cases hflow : s.fogflow with
  | none =>
    cases label with
    | update e =>
      simp only [step, hflow, Option.some.injEq] at hs
      rw [← hs]
      exact ⟨h, [], by simp, rfl⟩
    | removeTaskIntent rank => simp [step, hflow] at hs
  | some flow =>
    rw [hflow] at h
    cases label with
    | update e =>
      simp only [step, hflow] at hs
      cases hu : handleUpdate marshal flow e with
      | error fault => simp [hu] at hs
      | ok result =>
        simp only [hu] at hs
        obtain ⟨workers, hcall, rfl⟩ := proceed_eq_some.mp hs
        refine ⟨?_, result.2, rfl, hcall⟩
        rw [opsOf_append]
        exact accounted_event h (hc flow hflow) hu
    | removeTaskIntent rank =>
      simp only [step, hflow] at hs
      obtain ⟨workers, hcall, rfl⟩ := proceed_eq_some.mp hs
      refine ⟨?_, terminateAll rank flow, rfl, hcall⟩
      rw [opsOf_append]
      exact inOrder_terminateAll rank h (hc flow hflow)

def WorkloadsBalance (marshal : GroupValue → String) : Prop :=
  ∀ flow₀ workers₀ labels, Established flow₀ →
    (∀ w profile, workers₀.get w = some profile → profile.workload = 0) →
    Always (step marshal) (Balanced workers₀) ⟨some flow₀, workers₀, []⟩ labels

def oneWorker : GoMap WorkerProfile := (∅ : GoMap WorkerProfile).set "worker" ⟨"worker", 0⟩

theorem oneWorker_idle (w : String) (profile : WorkerProfile)
    (h : oneWorker.get w = some profile) : profile.workload = 0 := by
  rw [oneWorker, GoMap.get_set] at h
  split_ifs at h
  · rw [← Option.some.inj h]
  · simp at h

def createDeleteRemove : List Label :=
  [.update (exampleEvent "subCar" .create "car1" "Car"),
    .update (exampleEvent "subCar" .delete "car1" "Car"), .removeTaskIntent (fun _ => 0)]

-- the deletion terminates the task but leaves its deployment to removeTaskIntent
theorem task_terminated_twice : ¬ WorkloadsBalance exampleMarshal := by
  intro h
  have hrun : (exec (step exampleMarshal) ⟨some (exampleFlow [exampleStream "Car" "EntityID"]),
      oneWorker, []⟩ createDeleteRemove).map (fun s => (s.workers.get "worker").map
        WorkerProfile.workload) = some (some (-1)) := by
    decide +kernel
  obtain ⟨s, hs, hworker⟩ := Option.map_eq_some_iff.mp hrun
  obtain ⟨profile, hprofile, hnegative⟩ := Option.map_eq_some_iff.mp hworker
  have hbalanced := h _ oneWorker createDeleteRemove (established_exampleFlow _) oneWorker_idle
    createDeleteRemove s (List.prefix_refl _) hs
  have hload := hbalanced.workload s.calls s.workers (List.prefix_refl _) hbalanced.current
    "worker" profile hprofile
  omega

theorem workload_balanced {flow₀ : FogFlow} {workers₀ : GoMap WorkerProfile} {labels : List Label}
    (h₀ : Established flow₀)
    (hzero : ∀ w profile, workers₀.get w = some profile → profile.workload = 0)
    (hm : Meets (step marshal) (Met marshal) ⟨some flow₀, workers₀, []⟩ labels) :
    Always (step marshal) (Balanced workers₀) ⟨some flow₀, workers₀, []⟩ labels := by
  have hinit : InOrder (some flow₀) (opsOf []) := accounted_established h₀
  refine always_of_meets (I := fun _ s => InOrder s.fogflow (opsOf s.calls) ∧
    callAll workers₀ s.calls = .ok s.workers) hm ⟨hinit, rfl⟩ ?_ ?_
  · rintro js label s t - - ⟨hinOrder, hcurrent⟩ hc hs
    obtain ⟨hinOrder', commands, hcalls, hcall⟩ := inOrder_step hinOrder hc hs
    refine ⟨hinOrder', ?_⟩
    rw [hcalls, callAll_append, hcurrent, ok_bind, hcall]
  · exact fun _ s hI => balanced_of_inOrder hzero hI.1 hI.2

def createRemove : List Label :=
  [.update (exampleEvent "subCar" .create "car1" "Car"), .removeTaskIntent (fun _ => 0)]

def addCount (flow : FogFlow) (e : Event) : Option Nat :=
  (metadataDrivenTaskOrchestration exampleMarshal e.choices flow e.subID e.entityAction
    e.registeredEntity).toOption.map (fun result => (adds result.2).length)

theorem accountable_of_addCount {flow : FogFlow} {e : Event}
    (hw : ∀ n locations, e.selectWorker n locations ≠ "") (hone : addCount flow e = some 1) :
    Accountable exampleMarshal flow e := by
  refine ⟨fun _ _ _ _ _ _ _ => hw _ _, fun orchestrated ho => ?_⟩
  simp only [addCount, ho, Except.toOption, Option.map_some, Option.some.injEq] at hone
  obtain ⟨id, hid⟩ := List.length_eq_one_iff.mp hone
  rw [hid]
  exact List.nodup_singleton id

def stillPlanned (flow : FogFlow) : Bool :=
  flow.deploymentPlan.entries.all (fun e =>
    (flow.executionPlan.get (lastItem e.1)).any (fun task => task.taskID == e.1))

theorem planned_of_stillPlanned {flow : FogFlow} (h : stillPlanned flow = true) :
    ∀ id, flow.deploymentPlan.get id ≠ none →
      ∃ task, flow.executionPlan.get (lastItem id) = some task ∧ task.taskID = id := by
  intro id hid
  obtain ⟨scheduled, hget⟩ := Option.ne_none_iff_exists'.mp hid
  have hplanned := List.all_eq_true.mp h ⟨id, scheduled⟩ (GoMap.mem_entries.mpr hget)
  obtain ⟨task, htask, heq⟩ := (Option.any_eq_true _ _).mp hplanned
  exact ⟨task, htask, beq_iff_eq.mp heq⟩

theorem removed_task_balanced :
    ∃ s, exec (step exampleMarshal) ⟨some (exampleFlow [exampleStream "Car" "EntityID"]),
      oneWorker, []⟩ createRemove = some s ∧ Balanced oneWorker s ∧ s.calls.length = 2 := by
  have hfirst : addCount (exampleFlow [exampleStream "Car" "EntityID"])
      (exampleEvent "subCar" .create "car1" "Car") = some 1 := by
    decide +kernel
  have hsecond : (exec (step exampleMarshal) ⟨some (exampleFlow [exampleStream "Car" "EntityID"]),
      oneWorker, []⟩ (createRemove.take 1)).map (fun s => s.fogflow.map stillPlanned) =
        some (some true) := by
    decide +kernel
  have hlast : (exec (step exampleMarshal) ⟨some (exampleFlow [exampleStream "Car" "EntityID"]),
      oneWorker, []⟩ createRemove).map (fun s => s.calls.length) = some 2 := by
    decide +kernel
  obtain ⟨s, hs, hplanned⟩ := Option.map_eq_some_iff.mp hsecond
  obtain ⟨last, hlast, hcalls⟩ := Option.map_eq_some_iff.mp hlast
  have hm : Meets (step exampleMarshal) (Met exampleMarshal)
      ⟨some (exampleFlow [exampleStream "Car" "EntityID"]), oneWorker, []⟩
      (createRemove.take 1 ++ [.removeTaskIntent (fun _ => 0)]) := by
    refine (meets_concat hs).mpr ⟨meets_singleton.mpr ?_, ?_⟩
    · rintro flow hflow
      obtain rfl := Option.some.inj hflow
      exact accountable_of_addCount (by simp [exampleEvent]) hfirst
    · intro flow hflow
      rw [hflow] at hplanned
      exact planned_of_stillPlanned (Option.some.inj hplanned)
  exact ⟨last, hlast, workload_balanced (established_exampleFlow _) oneWorker_idle hm createRemove
    last (List.prefix_refl _) hlast, hcalls⟩

end Workload

end FogFlow.Master
