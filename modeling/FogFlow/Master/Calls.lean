import FogFlow.Library.Leases
import FogFlow.Master.ActionLoop

namespace FogFlow.Master

open Ngsi Datamodel Leases

-- a call gives a task to a worker or takes it back from one
def opOf : Command → Option (Op String String)
  | .deployTask taskInstance => some (.assign taskInstance.id taskInstance.workerID)
  | .terminateTask taskID workerID => some (.release taskID workerID)
  | .addInputEntity _ => none
  | .removeInputEntity _ _ _ => none

def opsOf (commands : List Command) : List (Op String String) := commands.filterMap opOf

-- the worker of the last deployment of the task
def lastWorker (id : String) (commands : List Command) : Option String :=
  lastAssigned id (opsOf commands)

def deployments (id : String) (commands : List Command) : Nat := assigns id (opsOf commands)

def terminations (id : String) (commands : List Command) : Nat := releases id (opsOf commands)

theorem opsOf_append (as bs : List Command) : opsOf (as ++ bs) = opsOf as ++ opsOf bs :=
  List.filterMap_append

theorem assign_mem_opsOf {id workerID : String} {commands : List Command} :
    Op.assign id workerID ∈ opsOf commands ↔
      ∃ t, .deployTask t ∈ commands ∧ t.id = id ∧ t.workerID = workerID := by
  simp only [opsOf, List.mem_filterMap]
  constructor
  · rintro ⟨command, hmem, hop⟩
    match command with
    | .deployTask t =>
      obtain ⟨hid, hworker⟩ := Op.assign.inj (Option.some.inj hop)
      exact ⟨t, hmem, hid, hworker⟩
  · rintro ⟨t, hmem, rfl, rfl⟩
    exact ⟨_, hmem, rfl⟩

theorem release_mem_opsOf {id workerID : String} {commands : List Command} :
    Op.release id workerID ∈ opsOf commands ↔ .terminateTask id workerID ∈ commands := by
  simp only [opsOf, List.mem_filterMap]
  constructor
  · rintro ⟨command, hmem, hop⟩
    match command with
    | .terminateTask _ _ =>
      obtain ⟨rfl, rfl⟩ := Op.release.inj (Option.some.inj hop)
      exact hmem
  · exact fun hmem => ⟨_, hmem, rfl⟩

section

variable {actions : Actions} {commands : List Command} {live : String → Option String}

theorem mem_of_forall₂ {α β : Type} {R : α → β → Prop} {xs : List α} {ys : List β}
    (h : List.Forall₂ R xs ys) {y : β} (hy : y ∈ ys) : ∃ x ∈ xs, R x y := by
  induction h with
  | nil => exact absurd hy List.not_mem_nil
  | cons hr _ ih =>
    rcases List.mem_cons.mp hy with rfl | hy
    · exact ⟨_, List.mem_cons_self, hr⟩
    · obtain ⟨x, hx, hr⟩ := ih hy
      exact ⟨x, List.mem_cons_of_mem _ hx, hr⟩

theorem added_of_deployTask (h : List.Forall₂ CarriedOut actions commands)
    {t : ScheduledTaskInstance} (hmem : .deployTask t ∈ commands) : t.id ∈ adds actions := by
  obtain ⟨action, ha, hc⟩ := mem_of_forall₂ h hmem
  match action with
  | some (.addTask taskInstance) =>
    have hid : t.id = taskInstance.id := by rw [hc.2]
    exact mem_adds.mpr ⟨taskInstance, ha, hid.symm⟩

theorem removed_of_terminateTask (h : List.Forall₂ CarriedOut actions commands)
    {id workerID : String} (hmem : .terminateTask id workerID ∈ commands) :
    some (.removeTask id workerID) ∈ actions := by
  obtain ⟨action, ha, hc⟩ := mem_of_forall₂ h hmem
  match action with
  | some (.removeTask taskID worker) =>
    obtain ⟨rfl, rfl⟩ := hc
    exact ha

theorem Blocks.added_of_removeTask (h : Blocks live actions) {id workerID : String}
    (hmem : some (.removeTask id workerID) ∈ actions) : id ∈ adds actions := by
  induction h with
  | nil => exact absurd hmem List.not_mem_nil
  | input flowInfo _ ih =>
    have hrest := (List.mem_cons.mp hmem).resolve_left (by simp)
    exact ih hrest
  | create t hnone _ ih =>
    have hrest := (List.mem_cons.mp hmem).resolve_left (by simp)
    exact List.mem_cons_of_mem _ (ih hrest)
  | migrate t taskID worker hid hsome _ ih =>
    have heq : ∀ rest : Actions, adds (some (.removeTask taskID worker) :: some (.addTask t) ::
        rest) = t.id :: adds rest := fun _ => rfl
    rw [heq]
    rcases List.mem_cons.mp hmem with hhead | hrest
    · obtain ⟨rfl, rfl⟩ := DeploymentAction.removeTask.inj (Option.some.inj hhead)
      exact hid ▸ List.mem_cons_self
    · have hrest := (List.mem_cons.mp hrest).resolve_left (by simp)
      exact List.mem_cons_of_mem _ (ih hrest)

-- a task that the actions do not add keeps its deployment
theorem keys_of_not_added (hb : Blocks live actions) (h : List.Forall₂ CarriedOut actions commands)
    {id : String} (hid : id ∉ adds actions) : ∀ op ∈ opsOf commands, op.key ≠ id := by
  rintro op hop rfl
  cases op with
  | assign k w =>
    obtain ⟨t, hmem, rfl, -⟩ := assign_mem_opsOf.mp hop
    exact hid (added_of_deployTask h hmem)
  | release k w =>
    have hremove := removed_of_terminateTask h (release_mem_opsOf.mp hop)
    exact hid (hb.added_of_removeTask hremove)

theorem proper_create {ops : List (Op String String)} (hp : Proper ops) {id : String}
    (workerID : String) (hnone : ∀ w, (id, w) ∉ running ops) :
    Proper (ops ++ [.assign id workerID]) := by
  refine .concat hp ?_
  rintro hmem
  obtain ⟨⟨k, w⟩, hw, rfl⟩ := List.mem_map.mp hmem
  exact hnone w hw

theorem proper_migrate {ops : List (Op String String)} (hp : Proper ops) {id worker : String}
    (workerID : String) (hw : (id, worker) ∈ running ops) :
    Proper (ops ++ [.release id worker] ++ [.assign id workerID]) := by
  have hreleased : Proper (ops ++ [.release id worker]) := proper_concat_iff.mpr ⟨hp, hw⟩
  refine proper_create hreleased workerID (fun w hmem => ?_)
  rw [running_concat, after, hp.mem_erase hw] at hmem
  exact hmem.2 rfl

theorem running_assigned (ops : List (Op String String)) (id workerID : String) :
    (id, workerID) ∈ running (ops ++ [.assign id workerID]) := by
  rw [running_concat]
  exact List.mem_cons_self

theorem live_append {ids : List String} {ops : List (Op String String)}
    (more : List (Op String String))
    (hlive : ∀ id ∈ ids, ∀ w, (id, w) ∈ running ops ↔ live id = some w)
    (hkeys : ∀ op ∈ more, op.key ∉ ids) :
    ∀ id ∈ ids, ∀ w, (id, w) ∈ running (ops ++ more) ↔ live id = some w := by
  intro id hid w
  rw [mem_running_append, hlive id hid w]
  rintro op hop rfl
  exact hkeys op hop hid

theorem deployed_cons {ops : List (Op String String)} {scheduled : ScheduledTaskInstance}
    {tail : List Command} (hin : (scheduled.id, scheduled.workerID) ∈ running ops)
    (hkeys : ∀ op ∈ opsOf tail, op.key ≠ scheduled.id)
    (htail : ∀ t, .deployTask t ∈ tail → (t.id, t.workerID) ∈ running (ops ++ opsOf tail)) :
    ∀ t, .deployTask t ∈ .deployTask scheduled :: tail →
      (t.id, t.workerID) ∈ running (ops ++ opsOf tail) := by
  intro t ht
  rcases List.mem_cons.mp ht with heq | ht
  · obtain rfl := Command.deployTask.inj heq
    rw [mem_running_append hkeys]
    exact hin
  · exact htail t ht

-- the calls for these actions keep every task at one worker at most
theorem proper_of_blocks {ops : List (Op String String)} (hb : Blocks live actions)
    (hc : List.Forall₂ CarriedOut actions commands) (hp : Proper ops)
    (hlive : ∀ id ∈ adds actions, ∀ w, (id, w) ∈ running ops ↔ live id = some w)
    (hnd : (adds actions).Nodup) : Proper (ops ++ opsOf commands) ∧
      ∀ t, .deployTask t ∈ commands → (t.id, t.workerID) ∈ running (ops ++ opsOf commands) := by
  induction hb generalizing ops commands with
  | nil =>
    cases hc
    rw [opsOf, List.filterMap_nil, List.append_nil]
    exact ⟨hp, fun t ht => absurd ht List.not_mem_nil⟩
  | input flowInfo _ ih =>
    cases hc with
    | cons hhead htail =>
      obtain rfl := carriedOut_addInput hhead
      obtain ⟨hproper, hdeployed⟩ := ih htail hp hlive hnd
      exact ⟨hproper, fun t ht => hdeployed t ((List.mem_cons.mp ht).resolve_left (by simp))⟩
  | @create taskInstance rest hnone hrest ih =>
    cases hc with
    | @cons _ _ _ tail hhead htail =>
      obtain ⟨scheduled, rfl, hid⟩ := carriedOut_addTask hhead
      have hadds : adds (some (.addTask taskInstance) :: rest) = scheduled.id :: adds rest := by
        rw [hid]
        rfl
      rw [hadds] at hlive hnd
      have hfresh : ∀ w, (scheduled.id, w) ∉ running ops := by
        intro w hw
        rw [hlive _ List.mem_cons_self w, hid, hnone] at hw
        cases hw
      have hops : opsOf (.deployTask scheduled :: tail) =
          [.assign scheduled.id scheduled.workerID] ++ opsOf tail := rfl
      have hcreated := proper_create hp scheduled.workerID hfresh
      rw [hops, ← List.append_assoc]
      have hlater := live_append [.assign scheduled.id scheduled.workerID]
        (fun id hin => hlive id (List.mem_cons_of_mem _ hin))
        (by simpa [Op.key] using (List.nodup_cons.mp hnd).1)
      obtain ⟨hproper, hdeployed⟩ := ih htail hcreated hlater (List.nodup_cons.mp hnd).2
      exact ⟨hproper, deployed_cons (running_assigned _ _ _)
        (keys_of_not_added hrest htail (List.nodup_cons.mp hnd).1) hdeployed⟩
  | @migrate taskInstance taskID workerID rest hid hsome hrest ih =>
    cases hc with
    | cons hhead htail =>
    cases htail with
    | @cons _ _ _ tail hsecond htail =>
      obtain rfl := carriedOut_removeTask hhead
      obtain ⟨scheduled, rfl, hsid⟩ := carriedOut_addTask hsecond
      have hadds : adds (some (.removeTask taskID workerID) :: some (.addTask taskInstance) ::
          rest) = scheduled.id :: adds rest := by
        rw [hsid]
        rfl
      rw [hadds] at hlive hnd
      rw [hid] at hsid
      have hrunning : (scheduled.id, workerID) ∈ running ops :=
        (hlive _ List.mem_cons_self _).mpr (hsid ▸ hsome)
      have hops : opsOf (.terminateTask taskID workerID :: .deployTask scheduled :: tail) =
          [.release scheduled.id workerID, .assign scheduled.id scheduled.workerID] ++
            opsOf tail := by
        simp [opsOf, opOf, hsid]
      have hmigrated := proper_migrate hp scheduled.workerID hrunning
      rw [List.append_assoc] at hmigrated
      rw [hops, ← List.append_assoc]
      have hlater := live_append [.release scheduled.id workerID,
          .assign scheduled.id scheduled.workerID]
        (fun id hin => hlive id (List.mem_cons_of_mem _ hin))
        (by simpa [Op.key] using (List.nodup_cons.mp hnd).1)
      obtain ⟨hproper, hdeployed⟩ := ih htail hmigrated hlater (List.nodup_cons.mp hnd).2
      have hin : (scheduled.id, scheduled.workerID) ∈ running (ops ++
          [.release scheduled.id workerID, .assign scheduled.id scheduled.workerID]) := by
        rw [List.append_cons]
        exact running_assigned _ _ _
      refine ⟨hproper, fun t ht => ?_⟩
      exact deployed_cons hin (keys_of_not_added hrest htail (List.nodup_cons.mp hnd).1)
        hdeployed t ((List.mem_cons.mp ht).resolve_left (by simp))

theorem Blocks.executable {plan : GoMap TaskConfig} (hb : Blocks live actions)
    (hnamed : ∀ id w, live id = some w → w ≠ "")
    (hadded : ∀ id ∈ adds actions, plan.get (lastItem id) ≠ none) :
    ∀ a ∈ actions, Executable plan a := by
  induction hb with
  | nil => exact fun a ha => absurd ha List.not_mem_nil
  | input flowInfo _ ih =>
    intro a ha
    rcases List.mem_cons.mp ha with rfl | ha
    · trivial
    · exact ih hadded a ha
  | create t hnone _ ih =>
    intro a ha
    rcases List.mem_cons.mp ha with rfl | ha
    · exact hadded t.id List.mem_cons_self
    · exact ih (fun id hid => hadded id (List.mem_cons_of_mem _ hid)) a ha
  | migrate t taskID worker hid hsome _ ih =>
    intro a ha
    rcases List.mem_cons.mp ha with rfl | ha
    · exact hnamed taskID worker hsome
    · rcases List.mem_cons.mp ha with rfl | ha
      · exact hadded t.id List.mem_cons_self
      · exact ih (fun id hid => hadded id (List.mem_cons_of_mem _ hid)) a ha

theorem named_of_assigned {flow : FogFlow} (hr : Ready flow) {id w : String}
    (h : assigned flow id = some w) : w ≠ "" := by
  obtain ⟨scheduled, hs, rfl⟩ := Option.map_eq_some_iff.mp (assigned_eq_some h)
  exact hr.named id scheduled hs

theorem ran_of_expanding {flow : FogFlow} {state : FogFlow × Actions} (hr : Ready flow)
    (h : Expanding flow state) (hnd : (adds state.2).Nodup)
    {selectWorker : Nat → List Point → String}
    (hans : Answered selectWorker 0 state.1.executionPlan state.2) :
    ∃ next commands, runActions selectWorker 0 state.1 state.2 = .ok (next, commands) ∧
      Ran state.1 state.2 next commands ∧ Ready next := by
  have hadded : ∀ id ∈ adds state.2, state.1.executionPlan.get (lastItem id) ≠ none := by
    intro id hid
    obtain ⟨task, htask, -⟩ := h.added id hid
    simp [htask]
  have hexec := (h.blocks hnd).executable (fun id w hw => named_of_assigned hr hw) hadded
  obtain ⟨next, commands, hrun, hran⟩ := runActions_answered hexec hans
  refine ⟨next, commands, hrun, hran, ready_of_ran hran
    (scheduled_runActions hrun).executionPlan h.key ?_ ?_⟩
  · rw [h.frame.deploymentPlan]
    exact fun k task hk hadds => h.deployed hr hk hadds
  · rw [h.frame.deploymentPlan]
    exact hr.named

-- the deployments that run are those of the planned tasks
structure Tracks (flow : FogFlow) (ops : List (Op String String)) : Prop where
  proper : Proper ops
  live : ∀ id w, (id, w) ∈ running ops ↔ assigned flow id = some w

theorem assigned_eq_some_iff {flow : FogFlow} {id w : String} : assigned flow id = some w ↔
    ∃ task, flow.executionPlan.get (lastItem id) = some task ∧ task.taskID = id ∧
      (flow.deploymentPlan.get id).map ScheduledTaskInstance.workerID = some w := by
  constructor
  · intro h
    obtain ⟨task, htask, -⟩ := Option.bind_eq_some_iff.mp h
    obtain ⟨hplan, hid⟩ := Option.filter_eq_some_iff.mp htask
    exact ⟨task, hplan, beq_iff_eq.mp hid, assigned_eq_some h⟩
  · rintro ⟨task, hplan, rfl, hdep⟩
    simp [assigned, hplan, Option.filter, hdep]

theorem Tracks.congr {flow before : FogFlow} {ops : List (Op String String)}
    (h : Tracks flow ops) (hsame : SamePlans flow before) : Tracks before ops := by
  refine ⟨h.proper, fun id w => ?_⟩
  rw [h.live, assigned_eq_some_iff, assigned_eq_some_iff, hsame.executionPlan,
    hsame.deploymentPlan]

-- after the loop over the actions of an expansion the same is true of the flow it leaves
theorem Tracks.expanded {flow next : FogFlow} {state : FogFlow × Actions}
    {ops : List (Op String String)} (ht : Tracks flow ops) (h : Expanding flow state)
    (hnd : (adds state.2).Nodup) (hran : Ran state.1 state.2 next commands)
    (hsame : SameTasks state.1.executionPlan next.executionPlan) :
    Tracks next (ops ++ opsOf commands) := by
  have hblocks := h.blocks hnd
  obtain ⟨hproper, hdeployed⟩ := proper_of_blocks hblocks hran.carried ht.proper
    (fun id _ w => ht.live id w) hnd
  refine ⟨hproper, fun id w => ?_⟩
  by_cases hid : id ∈ adds state.2
  · obtain ⟨scheduled, hmem, rfl, hdep, -, -⟩ := hran.assigned id hid
    obtain ⟨task, htask, htid⟩ := h.added _ hid
    obtain ⟨task', htask', heq⟩ := Option.map_eq_some_iff.mp
      ((hsame (lastItem scheduled.id)).trans (by rw [htask]; rfl))
    have hrunning := hdeployed scheduled hmem
    rw [assigned_eq_some_iff, hdep]
    constructor
    · intro hw
      exact ⟨task', htask', (Prod.mk.inj heq).1.trans htid, by rw [hproper.unique hw hrunning]; rfl⟩
    · rintro ⟨-, -, -, hw⟩
      rw [← Option.some.inj hw]
      exact hrunning
  · rw [mem_running_append (keys_of_not_added hblocks hran.carried hid), ht.live,
      assigned_eq_some_iff, assigned_eq_some_iff, (hran.kept id hid).1, h.frame.deploymentPlan]
    have hkept := (hran.kept id hid).2
    constructor
    · rintro ⟨old, hold, rfl, hw⟩
      obtain ⟨task, htask, htid, -⟩ := h.kept _ old hold
      exact ⟨task, (hkept _ task htid).mpr htask, htid, hw⟩
    · rintro ⟨task, htask, htid, hw⟩
      have hstate := (hkept _ task htid).mp htask
      cases hplan : flow.executionPlan.get (lastItem id) with
      | none => exact absurd (htid ▸ h.new _ task hplan hstate) hid
      | some old =>
        obtain ⟨task', htask', heq, -⟩ := h.kept _ old hplan
        obtain rfl := Option.some.inj (hstate.symm.trans htask')
        exact ⟨old, rfl, heq.symm.trans htid, hw⟩

end

end FogFlow.Master
