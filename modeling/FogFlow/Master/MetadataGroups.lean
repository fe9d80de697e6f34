import FogFlow.Library.Named
import FogFlow.Master.ProductPlan

namespace FogFlow.Master

open Ngsi Datamodel Loop

variable {marshal : GroupValue → String} {selector : InputStreamConfig} {v : GroupValue}

-- Go can compare the value with any other one
def Comparable (v : GroupValue) : Prop := v.goEq v = .ok true

theorem value_goEq {a : Value} (h : a.goEq a = .ok true) (b : Value) :
    b.goEq a = .ok (decide (b = a)) := by
  cases a with
  | array _ | object _ | polygon _ | raw _ => simp [Value.goEq] at h
  | null | bool _ | number _ | string _ | point _ | circle _ | segment _ | nearBy _ =>
    cases b <;> rfl

theorem metadata_goEq {a : ContextMetadata} (h : a.goEq a = .ok true) (b : ContextMetadata) :
    b.goEq a = .ok (decide (b = a)) := by
  have hparts : a.value.goEq a.value = .ok true ∧ a.cordinates.goEq a.cordinates = .ok true := by
    simp only [ContextMetadata.goEq, ne_eq, not_true_eq_false, if_false] at h
    obtain ⟨same, hsame, h⟩ := bind_eq_ok.mp h
    cases same with
    | true => exact ⟨hsame, h⟩
    | false => simp at h
  obtain ⟨bname, btype, bvalue, bcordinates⟩ := b
  obtain ⟨aname, atype, avalue, acordinates⟩ := a
  simp only [ContextMetadata.goEq, value_goEq hparts.1, value_goEq hparts.2, ok_bind,
    decide_eq_true_eq, ContextMetadata.mk.injEq]
  by_cases hn : bname = aname <;> by_cases ht : btype = atype <;>
    by_cases hv : bvalue = avalue <;> simp [hn, ht, hv]

theorem goEq_eq (h : Comparable v) (w : GroupValue) : w.goEq v = .ok (decide (w = v)) := by
  cases v with
  | text s => cases w <;> simp [GroupValue.goEq]
  | metadata a =>
    cases w with
    | text s => simp [GroupValue.goEq]
    | metadata b => simpa [GroupValue.goEq] using metadata_goEq h b

theorem inList_eq (h : Comparable v) (items : List GroupValue) :
    inList v items = .ok (decide (v ∈ items)) := by
  induction items with
  | nil => rfl
  | cons item items ih =>
    rw [inList, goEq_eq h, ok_bind, ih]
    by_cases hitem : item = v
    · simp [hitem]
    · simp [hitem, Ne.symm hitem]

-- grouped neither as a whole nor by a property that every entity has
structure ByMetadata (selector : InputStreamConfig) : Prop where
  notAll : selector.groupBy ≠ "ALL"
  notID : selector.groupBy ≠ "EntityID"
  notType : selector.groupBy ≠ "EntityType"

-- the value that the stream groups the entity by
def valueIn (selector : InputStreamConfig) (r : EntityRegistration) : GroupValue :=
  groupedValue selector.groupBy r

def groupOf (selector : InputStreamConfig) (v : GroupValue) : GroupInfo :=
  (∅ : GroupInfo).set (groupedKey selector) v

-- the values that the registration may bring under the key of the stream
def Comparables (selector : InputStreamConfig) (r : EntityRegistration) : Prop :=
  ∀ k m, r.metadataList.get k = some m → k = selector.groupBy ∨ m.name = selector.groupBy →
    Comparable (.metadata m)

theorem comparable_valueIn (hby : ByMetadata selector) {r : EntityRegistration}
    (h : Comparables selector r) : Comparable (valueIn selector r) := by
  rw [valueIn, groupedValue, if_neg hby.notID, if_neg hby.notType]
  cases hm : r.metadataList.get selector.groupBy with
  | none => rfl
  | some m => exact h _ m hm (Or.inl rfl)

theorem comparables_update {old r : EntityRegistration} (ho : Comparables selector old)
    (hr : Comparables selector r) : Comparables selector (old.update r) := by
  intro k m hm hk
  have hget : (old.update r).metadataList.get k =
      ((Named.named ContextMetadata.name k r.metadataList.values).getLast?).or
        (old.metadataList.get k) :=
    Named.get_foldl_set _ _ _
  rw [hget, Option.or_eq_some_iff] at hm
  rcases hm with hm | ⟨-, hm⟩
  · obtain ⟨hmem, hname⟩ := Named.mem_named.mp (List.mem_of_getLast? hm)
    obtain ⟨k', hk'⟩ := GoMap.mem_values.mp hmem
    exact hr k' m hk' (Or.inr (hk.elim (fun he => hname.trans he) id))
  · exact ho k m hm hk

theorem isMatched_groupOf (hby : ByMetadata selector) (hv : Comparable v)
    (r : EntityRegistration) :
    isMatched r (restrictionsOf selector (groupOf selector v)) =
      .ok (decide (valueIn selector r = v)) := by
  have hentries : ((∅ : GoMap GroupValue).set selector.groupBy v).entries =
      [⟨selector.groupBy, v⟩] := rfl
  rw [restrictionsOf, groupOf, GoMap.get_set_self]
  simp only [isMatched, hentries, List.foldlM_cons, List.foldlM_nil, if_neg hby.notAll,
    goEq_eq hv, ok_bind, Bool.true_and]
  rfl

theorem valueOf_held (hby : ByMetadata selector) {sub : InputSubscription}
    (hsel : sub.inputSelector = selector) {k : String} {r : EntityRegistration}
    (hr : sub.receivedEntityRegistrations.get k = some r) :
    valueOf sub k = .ok (valueIn selector r) := by
  rw [valueOf, hsel, if_neg hby.notAll, hr]
  rfl

-- only the list under the stream's own key changes
theorem updateGroupedKeyValueTable_held (hby : ByMetadata selector) {sub : InputSubscription}
    (hsel : sub.inputSelector = selector) {k : String} {r : EntityRegistration}
    (hr : sub.receivedEntityRegistrations.get k = some r) (hv : Comparable (valueIn selector r))
    (uniqueKeys : GoMap (List GroupValue)) :
    ∃ next, updateGroupedKeyValueTable uniqueKeys sub k = .ok next ∧
      ∀ k', k' ≠ groupedKey selector → next.get k' = uniqueKeys.get k' := by
  rw [updateGroupedKeyValueTable, valueOf_held hby hsel hr, ok_bind, hsel]
  cases hget : uniqueKeys.get (groupedKey selector) with
  | none => exact ⟨_, rfl, fun k' hk' => GoMap.get_set_ne _ _ hk'⟩
  | some items =>
    simp only [if_neg hby.notAll, inList_eq hv, ok_bind]
    refine ⟨_, rfl, fun k' hk' => ?_⟩
    split_ifs
    · rfl
    · exact GoMap.get_set_ne _ _ hk'

-- a flow with one input stream, whose key is the only one in the table
structure SingleStream (subID : String) (sub : InputSubscription) (flow : FogFlow) : Prop extends
    Deployed flow where
  subscribed : flow.subscriptions.get subID = some sub
  only : ∀ k, k ≠ subID → flow.subscriptions.get k = none
  tabulated : ∀ k, k ≠ groupedKey sub.inputSelector → flow.uniqueKeys.get k = none

theorem product_own {key : String} {table : List KeyValues} (h : ∀ e ∈ table, e.1 = key) :
    product key v table = [(∅ : GroupInfo).set key v] := by
  induction table using List.reverseRecOn with
  | nil => rfl
  | append_singleton table e ih =>
    rw [product_concat, if_pos (h e (by simp))]
    exact ih (fun e he => h e (List.mem_append_left _ he))

section Single

variable {subID : String} {sub : InputSubscription} {flow : FogFlow}

theorem SingleStream.groups (h : SingleStream subID sub flow) (hby : ByMetadata selector)
    (hsel : sub.inputSelector = selector) {k : String} {r : EntityRegistration}
    (hr : sub.receivedEntityRegistrations.get k = some r) (keyRank : String → Nat) :
    getRelevantGroups keyRank flow.uniqueKeys sub k =
      .ok [groupOf selector (valueIn selector r)] := by
  rw [getRelevantGroups_eq (valueOf_held hby hsel hr), hsel, groupOf, product_own]
  rintro ⟨k', values⟩ he
  by_contra hk
  have hnone := h.tabulated k' (by rwa [hsel])
  rw [GoMap.mem_range.mp he] at hnone
  cases hnone

theorem SingleStream.search (h : SingleStream subID sub flow) (group : GroupInfo)
    (subRank : String → Nat) (regRank : String → String → Nat) :
    searchRelevantEntities flow.subscriptions group subRank regRank =
      (sub.receivedEntityRegistrations.range (regRank subID)).foldlM
        (fun entities e => searchReceived sub.inputSelector group entities e.2) [] := by
  rw [searchRelevantEntities, GoMap.range_eq_singleton h.subscribed h.only]
  simp only [List.foldlM_cons, List.foldlM_nil]
  exact bind_pure _

theorem SingleStream.available (h : SingleStream subID sub flow) {k : String}
    {r : EntityRegistration} (hr : sub.receivedEntityRegistrations.get k = some r) :
    checkInputAvailability flow.subscriptions = true := by
  rw [checkInputAvailability_iff]
  intro k' other hk'
  by_cases hk : k' = subID
  · obtain rfl : sub = other := Option.some.inj (h.subscribed.symm.trans (hk ▸ hk'))
    exact ⟨k, r, hr⟩
  · rw [h.only k' hk] at hk'
    cases hk'

-- what the entities found for a group make of its task, whether it is new or planned
structure Joined (flow : FogFlow) (selector : InputStreamConfig) (hashID : String)
    (entities : List InputEntity) (workerSelection : Nat → List Point → String)
    (Q : List InputEntity → Prop) : Prop where
  new : flow.executionPlan.get hashID = none → Q entities
  planned : ∀ task, flow.executionPlan.get hashID = some task → ∃ result,
    entities.zipIdx.foldlM (mergeInput flow selector workerSelection) (task, []) = .ok result ∧
      result.1.taskID = task.taskID ∧ ActionsFor task.taskID result.2 ∧ Q result.1.inputs

theorem SingleStream.expand (h : SingleStream subID sub flow) (hby : ByMetadata selector)
    (hsel : sub.inputSelector = selector) {k : String} {r : EntityRegistration}
    (hr : sub.receivedEntityRegistrations.get k = some r) {choices : Choices}
    {entities : List InputEntity}
    (hsearch : (sub.receivedEntityRegistrations.range (choices.regRank 0 subID)).foldlM
      (fun entities e => searchReceived selector (groupOf selector (valueIn selector r)) entities
        e.2) [] = .ok entities)
    {Q : List InputEntity → Prop}
    (hjoined : Joined flow selector (groupHash marshal (groupOf selector (valueIn selector r)))
      entities (choices.workerSelection 0) Q) :
    ∃ task state, expandExecutionPlan marshal choices flow k sub = .ok state ∧ Q task.inputs ∧
      state.1.executionPlan = flow.executionPlan.set
        (groupHash marshal (groupOf selector (valueIn selector r))) task ∧
      Prepared flow state := by
  generalize hgroup : groupOf selector (valueIn selector r) = group at hsearch hjoined ⊢
  have hfound := h.search group (choices.subRank 0) (choices.regRank 0)
  rw [hsel, hsearch] at hfound
  have hexpand : expandExecutionPlan marshal choices flow k sub =
      expandGroup marshal choices selector (flow, []) (group, 0) := by
    rw [expandExecutionPlan, h.groups hby hsel hr, ok_bind, hgroup, hsel]
    simp only [List.zipIdx_singleton, List.foldlM_cons, List.foldlM_nil]
    exact bind_pure _
  rw [hexpand, expandGroup, hfound, ok_bind, getHash_eq]
  cases hplan : flow.executionPlan.get (groupHash marshal group) with
  | none =>
    have hkey : lastItem (newTask flow.intent (groupHash marshal group) entities
        (generateOutputs marshal flow.intent (fun j => choices.hashRank 0 (j + 1)) group)).taskID =
        groupHash marshal group := lastItem_taskID flow.intent (fun _ => 0) group entities _
    exact ⟨_, _, rfl, hjoined.new hplan, rfl, (prepared_nil h.toDeployed).put hkey
      (by simp [ActionsFor, addNewTask]) (Or.inr ⟨_, List.mem_singleton_self _, rfl⟩)⟩
  | some task =>
    obtain ⟨result, hmerge, htask, hfor, hQ⟩ := hjoined.planned task hplan
    simp only [hmerge, ok_bind]
    refine ⟨result.1, _, rfl, hQ, rfl, ?_⟩
    exact (prepared_nil h.toDeployed).put (htask ▸ h.key _ _ hplan) (htask ▸ hfor)
      (Or.inl (htask ▸ h.deployed _ _ hplan))

-- the inputs of the task that is planned under the hash
def plannedInputs (flow : FogFlow) (hashID : String) : Option (List InputEntity) :=
  (flow.executionPlan.get hashID).map TaskConfig.inputs

theorem plannedInputs_sameTasks {plan : GoMap TaskConfig} {next : FogFlow}
    (h : SameTasks plan next.executionPlan) (k : String) :
    plannedInputs next k = (plan.get k).map TaskConfig.inputs := by
  have hk := congrArg (Option.map Prod.snd) (h k)
  rw [Option.map_map, Option.map_map] at hk
  exact hk

theorem singleStream_receive (h : SingleStream subID sub flow) (r : EntityRegistration)
    {uniqueKeys : GoMap (List GroupValue)}
    (hkeys : ∀ k, k ≠ groupedKey sub.inputSelector → uniqueKeys.get k = flow.uniqueKeys.get k) :
    SingleStream subID (receive sub r)
      { flow.putSubscription subID (receive sub r) with uniqueKeys := uniqueKeys } where
  key := h.key
  deployed := h.deployed
  subscribed := GoMap.get_set_self _ _ _
  only := fun k hk => (GoMap.get_set_ne _ _ hk).trans (h.only k hk)
  tabulated := by
    intro k hk
    rw [receive_inputSelector] at hk
    exact (hkeys k hk).trans (h.tabulated k hk)

-- one event changes the task of one group only
theorem step_singleStream (h : SingleStream subID sub flow) (hby : ByMetadata selector)
    (hsel : sub.inputSelector = selector) {e : Event} (hon : e.subID = subID)
    (hdel : e.entityAction ≠ .delete) (hans : ∀ n locations, e.selectWorker n locations ≠ "")
    {r : EntityRegistration}
    (hr : (receive sub e.registeredEntity).receivedEntityRegistrations.get
      (receivedKey sub e.registeredEntity.id) = some r)
    (hv : Comparable (valueIn selector r)) {Q : List InputEntity → Prop}
    (hjoined : ∃ entities,
      ((receive sub e.registeredEntity).receivedEntityRegistrations.range
        (e.choices.regRank 0 subID)).foldlM (fun entities e =>
          searchReceived selector (groupOf selector (valueIn selector r)) entities e.2) [] =
        .ok entities ∧
      ∀ current : FogFlow, current.executionPlan = flow.executionPlan →
        current.deploymentPlan = flow.deploymentPlan →
        Joined current selector (groupHash marshal (groupOf selector (valueIn selector r))) entities
          (e.choices.workerSelection 0) Q) :
    ∃ next inputs, step marshal flow e = some next ∧
      SingleStream subID (receive sub e.registeredEntity) next ∧ Q inputs ∧
      ∀ k, plannedInputs next k =
        if k = groupHash marshal (groupOf selector (valueIn selector r)) then some inputs
        else plannedInputs flow k := by
  obtain ⟨entities, hsearch, hjoined⟩ := hjoined
  have hsel' : (receive sub e.registeredEntity).inputSelector = selector := by
    rw [receive_inputSelector, hsel]
  obtain ⟨uniqueKeys, htable, hkeys⟩ := updateGroupedKeyValueTable_held hby hsel' hr hv
    flow.uniqueKeys
  have hreceived := singleStream_receive h e.registeredEntity (hsel ▸ hkeys)
  obtain ⟨task, state, hstate, hQ, hplan, hprepared⟩ := hreceived.expand hby hsel' hr hsearch
    (hjoined _ rfl rfl)
  obtain ⟨next, commands, hrun, hdeployed⟩ := deployed_runActions hprepared hans
  have horch := orchestration_receive marshal (hon ▸ h.subscribed) hdel
  have havail := hreceived.available hr
  rw [htable, ok_bind, hon] at horch
  simp only [havail, if_true] at horch
  have hscheduled := scheduled_runActions hrun
  refine ⟨next, task.inputs, step_eq_some.mpr ⟨state, commands, ?_, hrun⟩,
    ⟨hdeployed, ?_, ?_, ?_⟩, hQ, ?_⟩
  · rw [hon, horch, hstate]
  · rw [hscheduled.subscriptions, hprepared.frame.subscriptions]
    exact hreceived.subscribed
  · rw [hscheduled.subscriptions, hprepared.frame.subscriptions]
    exact hreceived.only
  · rw [hscheduled.uniqueKeys, hprepared.frame.uniqueKeys]
    exact hreceived.tabulated
  · intro k
    rw [plannedInputs_sameTasks hscheduled.executionPlan, hplan, GoMap.get_set]
    split_ifs <;> rfl

end Single

end FogFlow.Master
