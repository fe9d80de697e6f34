import FogFlow.Master.Orchestration

namespace FogFlow.Master

open Ngsi Datamodel Loop

variable {marshal : GroupValue → String} {choices : Choices}

-- only the execution plan may differ
structure PlanOnly (flow next : FogFlow) : Prop where
  intent : next.intent = flow.intent
  uniqueKeys : next.uniqueKeys = flow.uniqueKeys
  subscriptions : next.subscriptions = flow.subscriptions
  deploymentPlan : next.deploymentPlan = flow.deploymentPlan

theorem PlanOnly.refl (flow : FogFlow) : PlanOnly flow flow := ⟨rfl, rfl, rfl, rfl⟩

theorem PlanOnly.trans {f g h : FogFlow} (hfg : PlanOnly f g) (hgh : PlanOnly g h) :
    PlanOnly f h :=
  ⟨hgh.intent.trans hfg.intent, hgh.uniqueKeys.trans hfg.uniqueKeys,
    hgh.subscriptions.trans hfg.subscriptions, hgh.deploymentPlan.trans hfg.deploymentPlan⟩

inductive GroupExpansion (marshal : GroupValue → String) (choices : Choices)
    (selector : InputStreamConfig) (flow : FogFlow) (actions : Actions) (group : GroupInfo)
    (i : Nat) : FogFlow × Actions → Prop where
  | merged (task : TaskConfig) (entities : List InputEntity) (result : TaskConfig × Actions) :
      searchRelevantEntities flow.subscriptions group (choices.subRank i) (choices.regRank i) =
        .ok entities →
      flow.executionPlan.get (getHash marshal (choices.hashRank i 0) group) = some task →
      entities.zipIdx.foldlM (mergeInput flow selector (choices.workerSelection i))
        (task, actions) = .ok result →
      GroupExpansion marshal choices selector flow actions group i
        (flow.putTask (getHash marshal (choices.hashRank i 0) group) result.1, result.2)
  | created (task : TaskConfig) :
      searchRelevantEntities flow.subscriptions group (choices.subRank i) (choices.regRank i) =
        .ok task.inputs →
      task = newTask flow.intent (getHash marshal (choices.hashRank i 0) group) task.inputs
        (generateOutputs marshal flow.intent (fun j => choices.hashRank i (j + 1)) group) →
      flow.executionPlan.get (getHash marshal (choices.hashRank i 0) group) = none →
      GroupExpansion marshal choices selector flow actions group i
        (flow.putTask (getHash marshal (choices.hashRank i 0) group) task,
          actions ++ [some (addNewTask flow.intent task)])

theorem expandGroup_cases {selector : InputStreamConfig} {state result : FogFlow × Actions}
    {group : GroupInfo} {i : Nat}
    (h : expandGroup marshal choices selector state (group, i) = .ok result) :
    GroupExpansion marshal choices selector state.1 state.2 group i result := by
  unfold expandGroup at h
  obtain ⟨entities, hsearch, h⟩ := bind_eq_ok.mp h
  cases hplan : state.1.executionPlan.get (getHash marshal (choices.hashRank i 0) group) with
  | some task =>
    rw [hplan] at h
    obtain ⟨merged, hmerged, h⟩ := bind_eq_ok.mp h
    rw [← Except.ok.inj h]
    exact .merged task entities merged hsearch hplan hmerged
  | none =>
    rw [hplan] at h
    rw [← Except.ok.inj h]
    exact .created _ hsearch rfl hplan

inductive GroupRemoval (marshal : GroupValue → String) (choices : Choices) (entityID : String)
    (flow : FogFlow) (actions : Actions) (group : GroupInfo) (i : Nat) :
    FogFlow × Actions → Prop where
  | absent : flow.executionPlan.get (getHash marshal (choices.hashRank i 0) group) = none →
      GroupRemoval marshal choices entityID flow actions group i (flow, actions)
  | removed (task : TaskConfig) :
      flow.executionPlan.get (getHash marshal (choices.hashRank i 0) group) = some task →
      checkInputsOfTaskInstance flow.intent (task.removeInput entityID) = false →
      GroupRemoval marshal choices entityID flow actions group i
        (flow.dropTask (getHash marshal (choices.hashRank i 0) group),
          actions ++ (removeExistingTask flow.deploymentPlan
            (task.removeInput entityID)).toList.map some)
  | reduced (task : TaskConfig) (deployed : ScheduledTaskInstance) :
      flow.executionPlan.get (getHash marshal (choices.hashRank i 0) group) = some task →
      checkInputsOfTaskInstance flow.intent (task.removeInput entityID) = true →
      flow.deploymentPlan.get task.taskID = some deployed →
      GroupRemoval marshal choices entityID flow actions group i
        (flow.putTask (getHash marshal (choices.hashRank i 0) group)
            (task.removeInput entityID),
          actions ++ [some (.removeInput entityID task.taskID deployed.workerID)])

theorem deref_eq_ok {α : Type} {x : Option α} {a : α} : deref x = .ok a ↔ x = some a := by
  cases x <;> simp [deref]

theorem removeGroup_cases {entityID : String} {state result : FogFlow × Actions}
    {group : GroupInfo} {i : Nat}
    (h : removeGroup marshal choices entityID state (group, i) = .ok result) :
    GroupRemoval marshal choices entityID state.1 state.2 group i result := by
  unfold removeGroup at h
  cases hplan : state.1.executionPlan.get (getHash marshal (choices.hashRank i 0) group) with
  | none =>
    simp only [hplan, Except.ok.injEq] at h
    rw [← h]
    exact .absent hplan
  | some task =>
    simp only [hplan] at h
    cases hcheck : checkInputsOfTaskInstance state.1.intent (task.removeInput entityID) with
    | false =>
      simp only [hcheck, Bool.not_false, if_true, Except.ok.injEq] at h
      rw [← h]
      exact .removed task hplan hcheck
    | true =>
      simp only [hcheck, Bool.not_true, Bool.false_eq_true, if_false] at h
      obtain ⟨deployed, hd, h⟩ := bind_eq_ok.mp h
      rw [← Except.ok.inj h]
      exact .reduced task deployed hplan hcheck (deref_eq_ok.mp hd)

inductive Orchestration (marshal : GroupValue → String) (choices : Choices) (flow : FogFlow)
    (subID : String) (entityAction : EntityAction) (r : EntityRegistration) :
    FogFlow × Actions → Prop where
  | unknown : flow.subscriptions.get subID = none →
      Orchestration marshal choices flow subID entityAction r (flow, [])
  | received (sub : InputSubscription) (uniqueKeys : GoMap (List GroupValue)) :
      flow.subscriptions.get subID = some sub → entityAction ≠ .delete →
      updateGroupedKeyValueTable flow.uniqueKeys (receive sub r) (receivedKey sub r.id) =
        .ok uniqueKeys →
      checkInputAvailability (flow.subscriptions.set subID (receive sub r)) = false →
      Orchestration marshal choices flow subID entityAction r
        ({ flow.putSubscription subID (receive sub r) with uniqueKeys := uniqueKeys }, [])
  | expanded (sub : InputSubscription) (uniqueKeys : GoMap (List GroupValue))
      (result : FogFlow × Actions) :
      flow.subscriptions.get subID = some sub → entityAction ≠ .delete →
      updateGroupedKeyValueTable flow.uniqueKeys (receive sub r) (receivedKey sub r.id) =
        .ok uniqueKeys →
      checkInputAvailability (flow.subscriptions.set subID (receive sub r)) = true →
      expandExecutionPlan marshal choices
        { flow.putSubscription subID (receive sub r) with uniqueKeys := uniqueKeys }
        (receivedKey sub r.id) (receive sub r) = .ok result →
      Orchestration marshal choices flow subID entityAction r result
  | absent (sub : InputSubscription) :
      flow.subscriptions.get subID = some sub → entityAction = .delete →
      sub.receivedEntityRegistrations.get (receivedKey sub r.id) = none →
      Orchestration marshal choices flow subID entityAction r (flow, [])
  | removed (sub : InputSubscription) (result : FogFlow × Actions) :
      flow.subscriptions.get subID = some sub → entityAction = .delete →
      sub.receivedEntityRegistrations.get (receivedKey sub r.id) ≠ none →
      checkInputAvailability flow.subscriptions = true →
      removeExecutionPlan marshal choices flow (receivedKey sub r.id) sub = .ok result →
      Orchestration marshal choices flow subID entityAction r result
  | forgotten (sub : InputSubscription) :
      flow.subscriptions.get subID = some sub → entityAction = .delete →
      sub.receivedEntityRegistrations.get (receivedKey sub r.id) ≠ none →
      checkInputAvailability flow.subscriptions = false →
      Orchestration marshal choices flow subID entityAction r
        (flow.putSubscription subID (forget sub (receivedKey sub r.id)), [])

theorem orchestration_cases {flow : FogFlow} {subID : String} {entityAction : EntityAction}
    {r : EntityRegistration} {result : FogFlow × Actions}
    (h : metadataDrivenTaskOrchestration marshal choices flow subID entityAction r = .ok result) :
    Orchestration marshal choices flow subID entityAction r result := by
  unfold metadataDrivenTaskOrchestration at h
  cases hsub : flow.subscriptions.get subID with
  | none =>
    simp only [hsub, Except.ok.injEq] at h
    rw [← h]
    exact .unknown hsub
  | some sub =>
    simp only [hsub] at h
    cases entityAction with
    | create | update =>
      obtain ⟨uniqueKeys, hkeys, h⟩ := bind_eq_ok.mp h
      cases hcheck : checkInputAvailability (flow.subscriptions.set subID (receive sub r)) with
      | false =>
        simp only [FogFlow.putSubscription, hcheck, Bool.false_eq_true, if_false,
          Except.ok.injEq] at h
        rw [← h]
        exact .received sub uniqueKeys hsub (by simp) hkeys hcheck
      | true =>
        simp only [FogFlow.putSubscription, hcheck, if_true] at h
        exact .expanded sub uniqueKeys result hsub (by simp) hkeys hcheck h
    | delete =>
      simp only at h
      cases hget : sub.receivedEntityRegistrations.get (receivedKey sub r.id) with
      | none =>
        simp only [hget, Except.ok.injEq] at h
        rw [← h]
        exact .absent sub hsub rfl hget
      | some existing =>
        simp only [hget] at h
        cases hcheck : checkInputAvailability flow.subscriptions with
        | true =>
          simp only [hcheck, if_true] at h
          exact .removed sub result hsub rfl (by simp [hget]) hcheck h
        | false =>
          simp only [hcheck, Bool.false_eq_true, if_false, Except.ok.injEq] at h
          rw [← h]
          exact .forgotten sub hsub rfl (by simp [hget]) hcheck

theorem planOnly_groupExpansion {selector : InputStreamConfig} {flow : FogFlow}
    {actions : Actions} {group : GroupInfo} {i : Nat} {result : FogFlow × Actions}
    (h : GroupExpansion marshal choices selector flow actions group i result) :
    PlanOnly flow result.1 := by
  cases h <;> exact ⟨rfl, rfl, rfl, rfl⟩

theorem planOnly_groupRemoval {entityID : String} {flow : FogFlow} {actions : Actions}
    {group : GroupInfo} {i : Nat} {result : FogFlow × Actions}
    (h : GroupRemoval marshal choices entityID flow actions group i result) :
    PlanOnly flow result.1 := by
  cases h <;> exact ⟨rfl, rfl, rfl, rfl⟩

theorem planOnly_expandExecutionPlan {flow : FogFlow} {entityID : String}
    {sub : InputSubscription} {result : FogFlow × Actions}
    (h : expandExecutionPlan marshal choices flow entityID sub = .ok result) :
    PlanOnly flow result.1 := by
  obtain ⟨groups, -, h⟩ := bind_eq_ok.mp h
  exact foldlM_invariant (I := fun _ state => PlanOnly flow state.1) h (.refl flow)
    (fun _ _ _ _ _ _ hI hx => hI.trans (planOnly_groupExpansion (expandGroup_cases hx)))

theorem planOnly_removeExecutionPlan {flow : FogFlow} {entityID : String}
    {sub : InputSubscription} {result : FogFlow × Actions}
    (h : removeExecutionPlan marshal choices flow entityID sub = .ok result) :
    PlanOnly flow result.1 := by
  obtain ⟨groups, -, h⟩ := bind_eq_ok.mp h
  exact foldlM_invariant (I := fun _ state => PlanOnly flow state.1) h (.refl flow)
    (fun _ _ _ _ _ _ hI hx => hI.trans (planOnly_groupRemoval (removeGroup_cases hx)))

-- a flow keeps its input subscriptions for good
theorem subscriptions_orchestration {flow : FogFlow} {subID : String}
    {entityAction : EntityAction} {r : EntityRegistration} {result : FogFlow × Actions}
    (h : Orchestration marshal choices flow subID entityAction r result) (k : String) :
    (result.1.subscriptions.get k = none ↔ flow.subscriptions.get k = none) := by
  have hset : ∀ sub sub' : InputSubscription, flow.subscriptions.get subID = some sub →
      ((flow.subscriptions.set subID sub').get k = none ↔ flow.subscriptions.get k = none) := by
    intro sub sub' hsub
    rw [GoMap.get_set]
    split_ifs with hk
    · simp [hk, hsub]
    · rfl
  cases h with
  | unknown _ => rfl
  | received sub _ hsub _ _ _ => exact hset sub _ hsub
  | expanded sub _ _ hsub _ _ _ hexp =>
    rw [(planOnly_expandExecutionPlan hexp).subscriptions]
    exact hset sub _ hsub
  | absent _ _ _ _ => rfl
  | removed _ _ _ _ _ _ hrem => rw [(planOnly_removeExecutionPlan hrem).subscriptions]
  | forgotten sub hsub _ _ _ => exact hset sub _ hsub

theorem subscriptions_step {flow next : FogFlow} {e : Event}
    (h : step marshal flow e = some next) (k : String) :
    (next.subscriptions.get k = none ↔ flow.subscriptions.get k = none) := by
  obtain ⟨orchestrated, commands, ho, hr⟩ := step_eq_some.mp h
  rw [(scheduled_runActions hr).subscriptions]
  exact subscriptions_orchestration (orchestration_cases ho) k

theorem intent_orchestration {flow : FogFlow} {subID : String} {entityAction : EntityAction}
    {r : EntityRegistration} {result : FogFlow × Actions}
    (h : Orchestration marshal choices flow subID entityAction r result) :
    result.1.intent = flow.intent := by
  cases h with
  | unknown _ | received _ _ _ _ _ _ | absent _ _ _ _ | forgotten _ _ _ _ _ => rfl
  | expanded _ _ _ _ _ _ _ hexp => exact (planOnly_expandExecutionPlan hexp).intent
  | removed _ _ _ _ _ _ hrem => exact (planOnly_removeExecutionPlan hrem).intent

theorem intent_step {flow next : FogFlow} {e : Event} (h : step marshal flow e = some next) :
    next.intent = flow.intent := by
  obtain ⟨orchestrated, commands, ho, hr⟩ := step_eq_some.mp h
  rw [(scheduled_runActions hr).intent]
  exact intent_orchestration (orchestration_cases ho)

end FogFlow.Master
