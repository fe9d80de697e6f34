import FogFlow.Master.Product

namespace FogFlow.Master

open Ngsi Datamodel Loop Execution

variable {marshal : GroupValue → String} {type : String → String}

theorem runActions_total {selectWorker : Nat → List Point → String}
    (hselect : ∀ n locations, selectWorker n locations ≠ "") {actions : Actions} (n : Nat)
    {flow : FogFlow}
    (h : ∀ a ∈ actions, ∃ action, a = some action ∧ ∀ taskInstance,
      action = .addTask taskInstance →
        flow.executionPlan.get (lastItem taskInstance.id) ≠ none) :
    ∃ next commands, runActions selectWorker n flow actions = .ok (next, commands) ∧
      ∀ id, flow.deploymentPlan.get id ≠ none ∨ AddsTask actions id →
        next.deploymentPlan.get id ≠ none := by
  induction actions generalizing n flow with
  | nil =>
    refine ⟨flow, [], rfl, fun id hid => hid.resolve_right ?_⟩
    rintro ⟨taskInstance, hmem, -⟩
    simp at hmem
  | cons a rest ih =>
    obtain ⟨action, rfl, hadd⟩ := h a List.mem_cons_self
    have hrest : ∀ a ∈ rest, ∃ action, a = some action ∧ ∀ taskInstance,
        action = .addTask taskInstance →
          flow.executionPlan.get (lastItem taskInstance.id) ≠ none :=
      fun a ha => h a (List.mem_cons_of_mem _ ha)
    have hother : (∀ taskInstance, action ≠ .addTask taskInstance) →
        ∀ id, AddsTask (some action :: rest) id → AddsTask rest id := by
      rintro hne id ⟨taskInstance, hmem, hid⟩
      refine ⟨taskInstance, (List.mem_cons.mp hmem).resolve_left (fun he => ?_), hid⟩
      exact hne taskInstance (Option.some.inj he).symm
    cases action with
    | addTask taskInstance =>
      obtain ⟨task, htask⟩ := Option.ne_none_iff_exists'.mp (hadd taskInstance rfl)
      simp only [runActions, getLocationOfInputs, htask, deref, ok_bind,
        if_neg (hselect n (task.inputs.map InputEntity.location))]
      generalize hsch : { taskInstance with
        workerID := selectWorker n (task.inputs.map InputEntity.location) } = scheduled
      have hid : scheduled.id = taskInstance.id := by rw [← hsch]
      have hplan : ∀ k, (updateExecutionPlan (updateDeploymentPlan flow scheduled)
          scheduled).executionPlan.get k ≠ none ↔ flow.executionPlan.get k ≠ none := by
        intro k
        simp [updateExecutionPlan, updateDeploymentPlan]
      have hafter : ∀ a ∈ rest, ∃ action, a = some action ∧ ∀ taskInstance,
          action = .addTask taskInstance → (updateExecutionPlan (updateDeploymentPlan flow
            scheduled) scheduled).executionPlan.get (lastItem taskInstance.id) ≠ none :=
        fun a ha => (hrest a ha).imp (fun action hact => ⟨hact.1, fun t ht =>
          (hplan _).mpr (hact.2 t ht)⟩)
      obtain ⟨next, commands, hrun, hdep⟩ := ih (n + 1) hafter
      refine ⟨next, _, by rw [hrun]; rfl, fun id hid' => hdep id ?_⟩
      have hnew : (updateExecutionPlan (updateDeploymentPlan flow scheduled)
          scheduled).deploymentPlan.get id =
            if id = scheduled.id then some scheduled else flow.deploymentPlan.get id :=
        GoMap.get_set _ _ _ _
      rw [hnew]
      rcases hid' with hold | ⟨t, hmem, rfl⟩
      · left
        split_ifs
        · simp
        · exact hold
      · rcases List.mem_cons.mp hmem with he | hmem
        · obtain rfl := DeploymentAction.addTask.inj (Option.some.inj he)
          simp [hid]
        · exact Or.inr ⟨t, hmem, rfl⟩
    | removeTask _ _ | addInput _ | removeInput _ _ _ =>
      obtain ⟨next, commands, hrun, hdep⟩ := ih (n + 1) hrest
      simp only [runActions, hrun, ok_bind]
      exact ⟨next, _, rfl, fun id hid => hdep id (hid.imp_right (hother (by simp) id))⟩

theorem expanded_expandExecutionPlan {flow : FogFlow} {choices : Choices} {subID : String}
    {sub : InputSubscription} {entityID : String} (hs : Streams flow.subscriptions)
    (ht : Typed type flow.subscriptions) (htab : Tabulated flow.subscriptions flow.uniqueKeys)
    (havail : Available flow.subscriptions) (hno : NoCollision marshal flow.subscriptions)
    (hexp : Expandable marshal flow) (hsub : flow.subscriptions.get subID = some sub)
    (hheld : sub.receivedEntityRegistrations.get entityID ≠ none) :
    ∃ groups state, expandExecutionPlan marshal choices flow entityID sub = .ok state ∧
      Relevant flow.subscriptions (groupedKey sub.inputSelector) (ownValue sub entityID) groups ∧
      Expanded marshal flow groups state := by
  have hrel := relevant_product htab havail hs hsub (admissible_ownValue hheld) choices.keyRank
  rw [expandExecutionPlan, getRelevantGroups_eq (valueOf_eq hs ht hsub hheld), ok_bind]
  generalize product (groupedKey sub.inputSelector) (ownValue sub entityID)
    (flow.uniqueKeys.range choices.keyRank) = groups at hrel ⊢
  have key : ∃ state, groups.zipIdx.foldlM (expandGroup marshal choices sub.inputSelector)
      (flow, []) = .ok state ∧ Expanded marshal flow groups state := by
    refine foldlM_zipIdx_total (I := fun done state => Expanded marshal flow done state)
      (expanded_nil hexp) ?_
    intro done g rest i state hsplit h
    have hmem : ∀ g' ∈ done, g' ∈ groups := fun g' hg' => by
      rw [hsplit]
      exact List.mem_append_left _ hg'
    have hpair := hrel.distinct
    rw [hsplit, List.pairwise_append] at hpair
    exact expanded_step i hs ht hno hexp (hs.notByType _ _ hsub)
      (hrel.combination g (by rw [hsplit]; simp))
      (fun g' hg' => ⟨hrel.combination g' (hmem g' hg'), hpair.2.2 g' hg' g (by simp)⟩) h
  obtain ⟨state, hstate, hI⟩ := key
  exact ⟨groups, state, hstate, hrel, hI⟩

def receiveEvent (subscriptions : GoMap InputSubscription) (e : Event) :
    GoMap InputSubscription :=
  match subscriptions.get e.subID with
  | none => subscriptions
  | some sub => subscriptions.set e.subID (receive sub e.registeredEntity)

-- what the input subscriptions hold after these creations and updates
def receiveAll (subscriptions : GoMap InputSubscription) (events : List Event) :
    GoMap InputSubscription :=
  events.foldl receiveEvent subscriptions

structure Covered (marshal : GroupValue → String) (type : String → String) (flow : FogFlow) :
    Prop extends Deployed flow where
  streams : Streams flow.subscriptions
  typed : Typed type flow.subscriptions
  tabulated : Tabulated flow.subscriptions flow.uniqueKeys
  product : ProductPlan marshal flow

theorem Covered.exact {flow : FogFlow} (h : Covered marshal type flow) {k : String}
    {task : TaskConfig} (hk : flow.executionPlan.get k = some task) :
    ∃ c, Combination flow.subscriptions c ∧ groupHash marshal c = k ∧
      ExactInputs flow.subscriptions c task.inputs := by
  have havail : Available flow.subscriptions := by
    by_contra hn
    rw [h.product.waiting hn k] at hk
    cases hk
  obtain ⟨c, hc, rfl⟩ := (h.product.keys havail k).mp (by simp [hk])
  exact ⟨c, hc, rfl, h.product.inputs c task hc hk⟩

section Received

variable {flow : FogFlow} {subID : String} {sub : InputSubscription} {r : EntityRegistration}
  {uniqueKeys : GoMap (List GroupValue)}

theorem available_of_available (hsub : flow.subscriptions.get subID = some sub)
    (havail : Available (flow.subscriptions.set subID (receive sub r)))
    (hheld : ∃ k, sub.receivedEntityRegistrations.get k ≠ none) :
    Available flow.subscriptions := by
  intro k other hk
  by_cases hks : k = subID
  · obtain rfl : other = sub := Option.some.inj ((hks ▸ hk).symm.trans hsub)
    exact hheld
  · exact havail k other (by rw [GoMap.get_set_ne _ _ hks, hk])

variable (h : Covered marshal type flow) (hsub : flow.subscriptions.get subID = some sub)
include h hsub

theorem expandable_receive : Expandable marshal
    { flow.putSubscription subID (receive sub r) with uniqueKeys := uniqueKeys } := by
  refine ⟨⟨h.key, h.deployed⟩, fun k task hk => ?_⟩
  obtain ⟨c, hc, hhash, hin⟩ := h.exact hk
  exact ⟨c, combination_mono h.streams hsub hc, hhash, hin.1,
    fun id hid => matching_mono h.streams hsub ((hin.2 id).mp hid)⟩

variable {groups : List GroupInfo} {state : FogFlow × Actions}
  (hexp : Expanded marshal
    { flow.putSubscription subID (receive sub r) with uniqueKeys := uniqueKeys } groups state)
include hexp

-- a combination with the value of the received entity is in the loop, any other one was planned
theorem exists_task_of_combination
    (hno : NoCollision marshal (flow.subscriptions.set subID (receive sub r)))
    (havail : Available (flow.subscriptions.set subID (receive sub r)))
    (hrel : Relevant (flow.subscriptions.set subID (receive sub r))
      (groupedKey sub.inputSelector) (ownValue sub r.id) groups)
    {c : GroupInfo} (hc : Combination (flow.subscriptions.set subID (receive sub r)) c) :
    ∃ task, state.1.executionPlan.get (groupHash marshal c) = some task ∧
      ExactInputs (flow.subscriptions.set subID (receive sub r)) c task.inputs := by
  by_cases hv : c.get (groupedKey sub.inputSelector) = some (ownValue sub r.id)
  · obtain ⟨g, hg, hsame⟩ := hrel.complete c hc hv
    obtain ⟨task, htask, hin⟩ := hexp.done g hg
    refine ⟨task, ?_, hin.congr hsame.symm⟩
    rw [← htask, groupHash, groupHash, getHash_congr hsame]
  · obtain ⟨hcold, hheld, hmatch⟩ := combination_of_other_value h.streams hsub hc hv
    have hplanned := (h.product.keys (available_of_available hsub havail hheld) _).mpr
      ⟨c, hcold, rfl⟩
    obtain ⟨task, htask⟩ := Option.ne_none_iff_exists'.mp hplanned
    have hin := h.product.inputs c task hcold htask
    have hkept := hexp.untouched (groupHash marshal c) (fun g hg hhash =>
      hv ((hno g c (hrel.combination g hg) hc hhash _).symm.trans (hrel.own g hg)))
    exact ⟨task, hkept.trans htask, hin.1, fun id => (hin.2 id).trans (hmatch id).symm⟩

theorem combination_of_task
    (hcomb : ∀ g ∈ groups, Combination (flow.subscriptions.set subID (receive sub r)) g)
    {k : String} (hk : state.1.executionPlan.get k ≠ none) :
    ∃ c, Combination (flow.subscriptions.set subID (receive sub r)) c ∧
      groupHash marshal c = k := by
  by_cases hin : ∃ g ∈ groups, groupHash marshal g = k
  · obtain ⟨g, hg, hhash⟩ := hin
    exact ⟨g, hcomb g hg, hhash⟩
  · have hkept := hexp.untouched k (fun g hg hhash => hin ⟨g, hg, hhash⟩)
    obtain ⟨task, htask⟩ := Option.ne_none_iff_exists'.mp (hkept ▸ hk)
    obtain ⟨c, hc, hhash, -⟩ := h.exact htask
    exact ⟨c, combination_mono h.streams hsub hc, hhash⟩

theorem productPlan_expanded
    (hno : NoCollision marshal (flow.subscriptions.set subID (receive sub r)))
    (havail : Available (flow.subscriptions.set subID (receive sub r)))
    (hrel : Relevant (flow.subscriptions.set subID (receive sub r))
      (groupedKey sub.inputSelector) (ownValue sub r.id) groups) :
    ProductPlan marshal state.1 := by
  have hsubs : state.1.subscriptions = flow.subscriptions.set subID (receive sub r) :=
    hexp.frame.subscriptions
  constructor
  · exact fun hn => absurd (hsubs ▸ havail) hn
  · intro _ k
    rw [hsubs]
    refine ⟨combination_of_task h hsub hexp hrel.combination, ?_⟩
    rintro ⟨c, hc, rfl⟩
    obtain ⟨task, htask, -⟩ := exists_task_of_combination h hsub hexp hno havail hrel hc
    simp [htask]
  · intro c task hc hk
    rw [hsubs] at hc ⊢
    obtain ⟨task', htask', hin⟩ := exists_task_of_combination h hsub hexp hno havail hrel hc
    obtain rfl := Option.some.inj (hk.symm.trans htask')
    exact hin

end Received

theorem SameTasks.get_eq_none_iff {plan plan' : GoMap TaskConfig} (h : SameTasks plan plan')
    (k : String) : plan'.get k = none ↔ plan.get k = none := by
  have := h k
  cases hp : plan.get k <;> cases hp' : plan'.get k <;> simp_all

theorem SameTasks.exists_task {plan plan' : GoMap TaskConfig} (h : SameTasks plan plan')
    {k : String} {task' : TaskConfig} (hk : plan'.get k = some task') :
    ∃ task, plan.get k = some task ∧ task'.taskID = task.taskID ∧ task'.inputs = task.inputs := by
  have := h k
  rw [hk] at this
  obtain ⟨task, htask, heq⟩ := Option.map_eq_some_iff.mp this.symm
  obtain ⟨hid, hin⟩ := Prod.mk.inj heq
  exact ⟨task, htask, hid.symm, hin.symm⟩

theorem productPlan_of_sameTasks {flow next : FogFlow} (h : ProductPlan marshal flow)
    (hsubs : next.subscriptions = flow.subscriptions)
    (hsame : SameTasks flow.executionPlan next.executionPlan) : ProductPlan marshal next := by
  constructor
  · intro hn k
    exact (hsame.get_eq_none_iff k).mpr (h.waiting (hsubs ▸ hn) k)
  · intro havail k
    rw [hsubs, ← h.keys (hsubs ▸ havail) k, ne_eq, hsame.get_eq_none_iff]
  · intro g task hg hk
    rw [hsubs] at hg ⊢
    obtain ⟨old, hold, -, hin⟩ := hsame.exists_task hk
    exact hin ▸ h.inputs g old hg hold

theorem deployed_runActions {flow : FogFlow} {state : FogFlow × Actions}
    (h : Prepared flow state) {selectWorker : Nat → List Point → String}
    (hselect : ∀ n locations, selectWorker n locations ≠ "") :
    ∃ next commands, runActions selectWorker 0 state.1 state.2 = .ok (next, commands) ∧
      Deployed next := by
  obtain ⟨next, commands, hrun, hdep⟩ := runActions_total hselect 0 h.actions
  have hsame := (scheduled_runActions hrun).executionPlan
  refine ⟨next, commands, hrun, fun k task hk => ?_, fun k task hk => ?_⟩
  · obtain ⟨old, hold, hid, -⟩ := hsame.exists_task hk
    rw [hid]
    exact h.key k old hold
  · obtain ⟨old, hold, hid, -⟩ := hsame.exists_task hk
    rw [hid]
    refine hdep _ ?_
    rw [h.frame.deploymentPlan]
    exact h.deployed k old hold

-- a creation or an update of a decoded registration whose type is that of its input stream
structure Announces (type : String → String) (subscriptions : GoMap InputSubscription)
    (e : Event) : Prop where
  notDelete : e.entityAction ≠ .delete
  typed : ∀ sub, subscriptions.get e.subID = some sub →
    type e.registeredEntity.id = sub.inputSelector.entityType
  decoded : Decoded e.registeredEntity
  answered : ∀ n locations, e.selectWorker n locations ≠ ""

theorem orchestration_receive (marshal : GroupValue → String) {flow : FogFlow} {e : Event}
    {sub : InputSubscription}
    (hsub : flow.subscriptions.get e.subID = some sub) (hdel : e.entityAction ≠ .delete) :
    metadataDrivenTaskOrchestration marshal e.choices flow e.subID e.entityAction
        e.registeredEntity = (do
      let uniqueKeys ← updateGroupedKeyValueTable flow.uniqueKeys (receive sub e.registeredEntity)
        (receivedKey sub e.registeredEntity.id)
      let flow := { flow.putSubscription e.subID (receive sub e.registeredEntity) with
        uniqueKeys := uniqueKeys }
      if checkInputAvailability flow.subscriptions then
        expandExecutionPlan marshal e.choices flow (receivedKey sub e.registeredEntity.id)
          (receive sub e.registeredEntity)
      else .ok (flow, [])) := by
  rw [metadataDrivenTaskOrchestration, hsub]
  cases hact : e.entityAction with
  | create | update => rfl
  | delete => exact absurd hact hdel

def withReceived (flow : FogFlow) (e : Event) (sub : InputSubscription)
    (uniqueKeys : GoMap (List GroupValue)) : FogFlow :=
  { flow.putSubscription e.subID (receive sub e.registeredEntity) with uniqueKeys := uniqueKeys }

-- what an event comes to: the flow that has received the registration, expanded if all streams
-- have entities
structure Receives (marshal : GroupValue → String) (type : String → String) (flow : FogFlow)
    (e : Event) (sub : InputSubscription) (uniqueKeys : GoMap (List GroupValue)) : Prop where
  streams : Streams (flow.subscriptions.set e.subID (receive sub e.registeredEntity))
  typed : Typed type (flow.subscriptions.set e.subID (receive sub e.registeredEntity))
  tabulated : Tabulated (flow.subscriptions.set e.subID (receive sub e.registeredEntity)) uniqueKeys
  held : (receive sub e.registeredEntity).receivedEntityRegistrations.get
    e.registeredEntity.id ≠ none
  expands : Available (flow.subscriptions.set e.subID (receive sub e.registeredEntity)) →
    metadataDrivenTaskOrchestration marshal e.choices flow e.subID e.entityAction
        e.registeredEntity =
      expandExecutionPlan marshal e.choices (withReceived flow e sub uniqueKeys)
        e.registeredEntity.id (receive sub e.registeredEntity)
  waits : ¬ Available (flow.subscriptions.set e.subID (receive sub e.registeredEntity)) →
    metadataDrivenTaskOrchestration marshal e.choices flow e.subID e.entityAction
        e.registeredEntity = .ok (withReceived flow e sub uniqueKeys, []) ∧
      ∀ k, flow.executionPlan.get k = none

theorem receives_of_announced {flow : FogFlow} {e : Event} {sub : InputSubscription}
    (h : Covered marshal type flow) (he : Announces type flow.subscriptions e)
    (hsub : flow.subscriptions.get e.subID = some sub) :
    ∃ uniqueKeys, Receives marshal type flow e sub uniqueKeys := by
  have htype := he.typed sub hsub
  have hbt := h.streams.notByType _ _ hsub
  obtain ⟨uniqueKeys, values, hkeys, hnext, hnd, hmem⟩ := updateGroupedKeyValueTable_eq
    h.streams h.typed h.tabulated hsub htype he.decoded
  have horch := orchestration_receive marshal hsub he.notDelete
  rw [receivedKey_eq hbt, hkeys, ok_bind] at horch
  refine ⟨uniqueKeys, streams_receive h.streams hsub,
    typed_receive h.streams h.typed hsub htype he.decoded,
    tabulated_receive h.streams h.tabulated hsub hnext hnd hmem,
    (held_receive_iff hbt).mpr (Or.inl rfl), fun havail => ?_, fun hwait => ⟨?_, ?_⟩⟩
  · simp only [FogFlow.putSubscription, available_iff.mp havail, if_true] at horch
    exact horch
  · have hcheck : checkInputAvailability (flow.subscriptions.set e.subID
        (receive sub e.registeredEntity)) = false :=
      Bool.not_eq_true _ ▸ fun hc => hwait (available_iff.mpr hc)
    simp only [FogFlow.putSubscription, hcheck, Bool.false_eq_true, if_false] at horch
    exact horch
  · exact h.product.waiting (fun ha =>
      hwait (available_iff.mpr (available_receive (available_iff.mp ha))))

theorem covered_step {flow : FogFlow} {e : Event} (h : Covered marshal type flow)
    (he : Announces type flow.subscriptions e)
    (hno : NoCollision marshal (receiveEvent flow.subscriptions e)) :
    ∃ next, step marshal flow e = some next ∧
      next.subscriptions = receiveEvent flow.subscriptions e ∧ Covered marshal type next := by
  simp only [receiveEvent] at hno ⊢
  cases hsub : flow.subscriptions.get e.subID with
  | none =>
    refine ⟨flow, ?_, rfl, h⟩
    simp [step, handleUpdate, metadataDrivenTaskOrchestration, hsub, runActions, Except.toOption]
  | some sub =>
    simp only [hsub] at hno
    obtain ⟨uniqueKeys, hrec⟩ := receives_of_announced h he hsub
    by_cases havail : Available (flow.subscriptions.set e.subID (receive sub e.registeredEntity))
    · obtain ⟨groups, state, hstate, hrel, hexp⟩ := expanded_expandExecutionPlan hrec.streams
        hrec.typed hrec.tabulated havail hno (expandable_receive h hsub) (GoMap.get_set_self _ _ _)
        hrec.held
      rw [receive_inputSelector, ownValue_receive] at hrel
      obtain ⟨next, commands, hrun, hdep⟩ := deployed_runActions hexp.prepared he.answered
      have hsch := scheduled_runActions hrun
      have hsubs : next.subscriptions = _ := hsch.subscriptions.trans hexp.frame.subscriptions
      have hproduct := productPlan_expanded h hsub hexp hno havail hrel
      refine ⟨next, step_eq_some.mpr ⟨state, commands, (hrec.expands havail).trans hstate, hrun⟩,
        hsubs, ?_⟩
      refine ⟨hdep, ?_, ?_, ?_, productPlan_of_sameTasks hproduct hsch.subscriptions
        hsch.executionPlan⟩
      · exact hsubs ▸ hrec.streams
      · exact hsubs ▸ hrec.typed
      · rw [hsubs, hsch.uniqueKeys, hexp.frame.uniqueKeys]
        exact hrec.tabulated
    · obtain ⟨horch, hempty⟩ := hrec.waits havail
      refine ⟨_, step_eq_some.mpr ⟨_, [], horch, rfl⟩, rfl, ⟨h.key, h.deployed⟩, hrec.streams,
        hrec.typed, hrec.tabulated, fun _ => hempty, fun ha => absurd ha havail,
        fun g task _ hk => ?_⟩
      have hnone := hempty (groupHash marshal g)
      rw [show flow.executionPlan.get (groupHash marshal g) = some task from hk] at hnone
      cases hnone

theorem covered_established {flow : FogFlow} (h : Established flow)
    (hs : Streams flow.subscriptions) : Covered marshal type flow := by
  have hplan : ∀ k, flow.executionPlan.get k = none := fun k => by
    rw [h.executionPlan, GoMap.get_empty]
  have hno : ∀ subID sub, flow.subscriptions.get subID = some sub →
      ∀ k, sub.receivedEntityRegistrations.get k = none := fun subID sub hsub k => by
    rw [h.nothingReceived subID sub hsub, GoMap.get_empty]
  obtain ⟨subID, sub, hsub⟩ := hs.nonempty
  refine ⟨⟨fun k task hk => ?_, fun k task hk => ?_⟩, hs, fun subID sub hsub k r hk => ?_,
    ⟨fun _ _ _ _ hk => ?_, fun subID sub hsub _ => hno subID sub hsub, fun _ _ hk => ?_⟩,
    fun _ => hplan, fun ha => ?_, fun g task _ hk => ?_⟩
  · simp [hplan] at hk
  · simp [hplan] at hk
  · simp [hno subID sub hsub] at hk
  · simp [h.uniqueKeys] at hk
  · simp [h.uniqueKeys] at hk
  · obtain ⟨k, hk⟩ := ha subID sub hsub
    exact absurd (hno subID sub hsub k) hk
  · simp [hplan] at hk

section Events

variable {subscriptions : GoMap InputSubscription} {events : List Event}

theorem streams_receiveEvent (h : Streams subscriptions) (e : Event) :
    Streams (receiveEvent subscriptions e) := by
  unfold receiveEvent
  cases hsub : subscriptions.get e.subID with
  | none => exact h
  | some sub => exact streams_receive h hsub

theorem combination_receiveAll (h : Streams subscriptions) {g : GroupInfo}
    (hg : Combination subscriptions g) : Combination (receiveAll subscriptions events) g := by
  induction events generalizing subscriptions with
  | nil => exact hg
  | cons e events ih =>
    refine ih (streams_receiveEvent h e) ?_
    unfold receiveEvent
    cases hsub : subscriptions.get e.subID with
    | none => exact hg
    | some sub => exact combination_mono h hsub hg

theorem get_receiveEvent (e : Event) (subID : String) :
    (receiveEvent subscriptions e).get subID = (subscriptions.get subID).map (fun before =>
      if e.subID = subID then receive before e.registeredEntity else before) := by
  unfold receiveEvent
  cases hsub : subscriptions.get e.subID with
  | none =>
    by_cases hk : e.subID = subID
    · simp [← hk, hsub]
    · simp [hk]
  | some before =>
    rw [GoMap.get_set]
    by_cases hk : subID = e.subID
    · simp [hk, hsub]
    · simp [hk, Ne.symm hk]

theorem selectors_receiveAll (subID : String) :
    ((receiveAll subscriptions events).get subID).map InputSubscription.inputSelector =
      (subscriptions.get subID).map InputSubscription.inputSelector := by
  induction events generalizing subscriptions with
  | nil => rfl
  | cons e events ih =>
    refine ih.trans ?_
    rw [get_receiveEvent, Option.map_map]
    refine congrArg (fun f => Option.map f (subscriptions.get subID)) (funext fun before => ?_)
    rw [Function.comp_apply]
    split_ifs <;> simp

theorem announces_receiveEvent {e e' : Event} (h : Announces type subscriptions e') :
    Announces type (receiveEvent subscriptions e) e' := by
  refine ⟨h.notDelete, fun sub hsub => ?_, h.decoded, h.answered⟩
  rw [get_receiveEvent] at hsub
  obtain ⟨before, hbefore, rfl⟩ := Option.map_eq_some_iff.mp hsub
  rw [h.typed before hbefore]
  split_ifs <;> simp

theorem held_receiveAll (hs : Streams subscriptions) {subID : String} {sub : InputSubscription}
    (hsub : (receiveAll subscriptions events).get subID = some sub) :
    ∃ before, subscriptions.get subID = some before ∧
      ∀ entityID, sub.receivedEntityRegistrations.get entityID ≠ none ↔
        before.receivedEntityRegistrations.get entityID ≠ none ∨
          ∃ e ∈ events, e.subID = subID ∧ e.registeredEntity.id = entityID := by
  induction events generalizing subscriptions with
  | nil => exact ⟨sub, hsub, fun _ => by simp⟩
  | cons e events ih =>
    obtain ⟨between, hbetween, hheld⟩ := ih (streams_receiveEvent hs e) hsub
    rw [get_receiveEvent] at hbetween
    obtain ⟨before, hbefore, rfl⟩ := Option.map_eq_some_iff.mp hbetween
    refine ⟨before, hbefore, fun entityID => ?_⟩
    rw [hheld]
    simp only [List.mem_cons, exists_eq_or_imp]
    split_ifs with he
    · rw [held_receive_iff (hs.notByType _ _ hbefore)]
      simp only [he, true_and, @eq_comm _ entityID]
      tauto
    · simp [he]

end Events

-- what every event keeps is kept by the whole sequence, as far as its values do not collide
theorem exec_of_events {σ : Type} {step : σ → Event → Option σ}
    {subs : σ → GoMap InputSubscription} {I : σ → Prop} (hstreams : ∀ s, I s → Streams (subs s))
    (hstep : ∀ s e, I s → Announces type (subs s) e →
      NoCollision marshal (receiveEvent (subs s) e) →
      ∃ t, step s e = some t ∧ subs t = receiveEvent (subs s) e ∧ I t)
    {s : σ} {events : List Event} (h : I s) (he : ∀ e ∈ events, Announces type (subs s) e)
    (hno : NoCollision marshal (receiveAll (subs s) events)) :
    ∃ last, exec step s events = some last ∧ subs last = receiveAll (subs s) events ∧ I last := by
  induction events generalizing s with
  | nil => exact ⟨s, rfl, rfl, h⟩
  | cons e events ih =>
    have hreceived := streams_receiveEvent (hstreams s h) e
    have hno' : NoCollision marshal (receiveEvent (subs s) e) := fun g g' hg hg' =>
      hno g g' (combination_receiveAll hreceived hg) (combination_receiveAll hreceived hg')
    obtain ⟨next, hnext, hsubs, hkept⟩ := hstep s e h (he e List.mem_cons_self) hno'
    have hrest : ∀ e' ∈ events, Announces type (subs next) e' := fun e' he' =>
      hsubs ▸ announces_receiveEvent (he e' (List.mem_cons_of_mem _ he'))
    obtain ⟨last, hrun, hlast, hI⟩ := ih hkept hrest (hsubs ▸ hno)
    exact ⟨last, by simp [exec, hnext, hrun], by rw [hlast, hsubs]; rfl, hI⟩

theorem covered_run {flow : FogFlow} {events : List Event} (h : Covered marshal type flow)
    (he : ∀ e ∈ events, Announces type flow.subscriptions e)
    (hno : NoCollision marshal (receiveAll flow.subscriptions events)) :
    ∃ last, exec (step marshal) flow events = some last ∧
      last.subscriptions = receiveAll flow.subscriptions events ∧ Covered marshal type last :=
  exec_of_events (fun _ h => h.streams) (fun _ _ h he hno => covered_step h he hno) h he hno

-- the same streams, and each has received the entities of its events and no others
structure Recorded (flow₀ : FogFlow) (events : List Event) (flow : FogFlow) : Prop where
  streams : ∀ subID, (flow.subscriptions.get subID).map InputSubscription.inputSelector =
    (flow₀.subscriptions.get subID).map InputSubscription.inputSelector
  received : ∀ subID sub, flow.subscriptions.get subID = some sub →
    ∀ entityID, sub.receivedEntityRegistrations.get entityID ≠ none ↔
      ∃ e ∈ events, e.subID = subID ∧ e.registeredEntity.id = entityID

theorem execution_plan_is_product {flow₀ : FogFlow} {events : List Event}
    (hinit : Established flow₀) (hs : Streams flow₀.subscriptions)
    (he : ∀ e ∈ events, Announces type flow₀.subscriptions e)
    (hno : NoCollision marshal (receiveAll flow₀.subscriptions events)) :
    ∃ flow, exec (step marshal) flow₀ events = some flow ∧ Recorded flow₀ events flow ∧
      ProductPlan marshal flow := by
  obtain ⟨flow, hrun, hsubs, hcov⟩ := covered_run (covered_established hinit hs) he hno
  refine ⟨flow, hrun, ⟨fun subID => ?_, fun subID sub hsub entityID => ?_⟩, hcov.product⟩
  · rw [hsubs, selectors_receiveAll]
  · rw [hsubs] at hsub
    obtain ⟨before, hbefore, hheld⟩ := held_receiveAll hs hsub
    rw [hheld, hinit.nothingReceived subID before hbefore]
    simp

theorem noCollision_of_single {subscriptions : GoMap InputSubscription}
    (h : ∀ subID sub v w, subscriptions.get subID = some sub → Admissible sub v →
      Admissible sub w → v = w) : NoCollision marshal subscriptions := by
  intro g g' hg hg' _
  have hsub : ∀ g g' : GroupInfo, Combination subscriptions g → Combination subscriptions g' →
      ∀ k v, g.get k = some v → g'.get k = some v := by
    intro g g' hg hg' k v hk
    obtain ⟨subID, sub, hsub, rfl⟩ := hg.only k v hk
    obtain ⟨w, hw, hadm⟩ := hg.value subID sub hsub
    obtain ⟨w', hw', hadm'⟩ := hg'.value subID sub hsub
    rw [hw', ← Option.some.inj (hw.symm.trans hk), h subID sub w w' hsub hadm hadm']
  intro k
  exact Option.ext fun v => ⟨hsub g g' hg hg' k v, hsub g' g hg' hg k v⟩

def siteStream : InputStreamConfig := { exampleStream "Site" "ALL" with isScoped := true }

def camerasAndSite : FogFlow := exampleFlow [exampleStream "Camera" "EntityID", siteStream]

def siteThenCamera : List Event :=
  [exampleEvent "subSite" .create "site" "Site", exampleEvent "subCamera" .create "cam" "Camera"]

theorem subscriptions_camerasAndSite {subID : String} {sub : InputSubscription}
    (h : camerasAndSite.subscriptions.get subID = some sub) :
    (subID = "subSite" ∧ sub = ⟨siteStream, "subSite", ∅⟩) ∨
      (subID = "subCamera" ∧ sub = ⟨exampleStream "Camera" "EntityID", "subCamera", ∅⟩) := by
  have hmem := GoMap.mem_entries.mpr h
  have hentries : camerasAndSite.subscriptions.entries =
      [⟨"subSite", siteStream, "subSite", ∅⟩,
        ⟨"subCamera", exampleStream "Camera" "EntityID", "subCamera", ∅⟩] := rfl
  rw [hentries] at hmem
  simpa using hmem

theorem streams_camerasAndSite : Streams camerasAndSite.subscriptions := by
  refine ⟨⟨"subSite", _, rfl⟩, ?_, ?_, ?_⟩
  · intro subID sub h
    rcases subscriptions_camerasAndSite h with ⟨-, rfl⟩ | ⟨-, rfl⟩ <;>
      simp [exampleStream, siteStream]
  · intro subID sub h
    rcases subscriptions_camerasAndSite h with ⟨-, rfl⟩ | ⟨-, rfl⟩ <;> rfl
  · intro subID subID' sub sub' h h'
    rcases subscriptions_camerasAndSite h with ⟨rfl, rfl⟩ | ⟨rfl, rfl⟩ <;>
      rcases subscriptions_camerasAndSite h' with ⟨rfl, rfl⟩ | ⟨rfl, rfl⟩ <;>
      simp [exampleStream, siteStream]

def siteOrCamera (id : String) : String := if id = "cam" then "Camera" else "Site"

theorem announces_camerasAndSite {e : Event}
    (hfrom : (e.subID = "subSite" ∧ e.registeredEntity.id = "site") ∨
      (e.subID = "subCamera" ∧ e.registeredEntity.id = "cam"))
    (hdel : e.entityAction ≠ .delete) (hdec : Decoded e.registeredEntity)
    (hans : ∀ n locations, e.selectWorker n locations ≠ "") :
    Announces siteOrCamera camerasAndSite.subscriptions e := by
  refine ⟨hdel, fun sub hsub => ?_, hdec, hans⟩
  rcases hfrom with ⟨hsubID, hid⟩ | ⟨hsubID, hid⟩ <;>
    rcases subscriptions_camerasAndSite (hsubID ▸ hsub) with ⟨h, rfl⟩ | ⟨h, rfl⟩
  · simp [hid, siteOrCamera, siteStream, exampleStream]
  · exact absurd h (by decide)
  · exact absurd h (by decide)
  · simp [hid, siteOrCamera, exampleStream]

-- with one camera there is one combination only
theorem noCollision_camerasAndSite {events : List Event}
    (hcam : ∀ e ∈ events, e.subID = "subCamera" → e.registeredEntity.id = "cam") :
    NoCollision marshal (receiveAll camerasAndSite.subscriptions events) := by
  refine noCollision_of_single (fun subID sub v w hsub hv hw => ?_)
  obtain ⟨before, hbefore, hheld⟩ := held_receiveAll streams_camerasAndSite hsub
  have hsel : ((receiveAll camerasAndSite.subscriptions events).get subID).map
      InputSubscription.inputSelector = (camerasAndSite.subscriptions.get subID).map
      InputSubscription.inputSelector := selectors_receiveAll subID
  rw [hsub, hbefore] at hsel
  have hsel : sub.inputSelector = before.inputSelector := Option.some.inj hsel
  rcases subscriptions_camerasAndSite hbefore with ⟨rfl, rfl⟩ | ⟨rfl, rfl⟩
  · have hall : sub.inputSelector.groupBy = "ALL" := by rw [hsel]; rfl
    simp only [Admissible, hall, if_true] at hv hw
    rw [hv, hw]
  · have hid : sub.inputSelector.groupBy ≠ "ALL" := by rw [hsel]; decide
    have honly : ∀ k, sub.receivedEntityRegistrations.get k ≠ none → k = "cam" := by
      intro k hk
      rcases (hheld k).mp hk with hempty | ⟨e, he, hon, rfl⟩
      · exact absurd rfl hempty
      · exact hcam e he hon
    simp only [Admissible, if_neg hid] at hv hw
    obtain ⟨k, hk, rfl⟩ := hv
    obtain ⟨k', hk', rfl⟩ := hw
    rw [honly k hk, honly k' hk']

theorem decoded_exampleEntity (id type : String) : Decoded (exampleEntity id type) := by
  intro m hm
  simp [exampleEntity, GoMap.values] at hm

theorem execution_plan_of_camera_and_site :
    ∃ flow, exec (step exampleMarshal) camerasAndSite siteThenCamera = some flow ∧
      Recorded camerasAndSite siteThenCamera flow ∧ ProductPlan exampleMarshal flow := by
  refine @execution_plan_is_product exampleMarshal siteOrCamera _ _ (established_exampleFlow _)
    streams_camerasAndSite ?_ (noCollision_camerasAndSite ?_)
  · intro e he
    simp only [siteThenCamera, List.mem_cons, List.not_mem_nil, or_false] at he
    rcases he with rfl | rfl <;>
      exact announces_camerasAndSite (by simp [exampleEvent, exampleEntity]) (by simp [exampleEvent])
        (decoded_exampleEntity _ _) (by simp [exampleEvent])
  · intro e he
    simp only [siteThenCamera, List.mem_cons, List.not_mem_nil, or_false] at he
    rcases he with rfl | rfl <;> simp [exampleEvent, exampleEntity]

end FogFlow.Master
