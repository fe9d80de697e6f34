import FogFlow.Master.MetadataGroups

namespace FogFlow.Master

open Ngsi Datamodel Loop Execution

-- the flow beside what the received entities have become
structure Observed where
  flow : FogFlow
  current : GoMap EntityRegistration

-- the entity once the registration has been merged into what is known of it
def registrationAfter (current : GoMap EntityRegistration) (r : EntityRegistration) :
    EntityRegistration :=
  match current.get r.id with
  | some old => old.update r
  | none => r

def currentAfter (o : Observed) (e : Event) : GoMap EntityRegistration :=
  match o.flow.subscriptions.get e.subID with
  | some _ =>
      o.current.set e.registeredEntity.id (registrationAfter o.current e.registeredEntity)
  | none => o.current

variable (marshal : GroupValue → String) (selector : InputStreamConfig)

def observe (o : Observed) (e : Event) : Option Observed :=
  (step marshal o.flow e).map (fun flow => ⟨flow, currentAfter o e⟩)

def hashOf (v : GroupValue) : String := groupHash marshal (groupOf selector v)

-- an input without an id stands for all entities of its type
def Covers (input : InputEntity) (r : EntityRegistration) : Prop :=
  if selector.isSimpleByType then input.type = r.type else input.id = r.id

-- one task for each current value, whose inputs cover the entities that have it
structure GroupPlan (o : Observed) : Prop where
  tasks : ∀ h, plannedInputs o.flow h ≠ none ↔
    ∃ id r, o.current.get id = some r ∧ hashOf marshal selector (valueIn selector r) = h
  inputs : ∀ id r inputs, o.current.get id = some r →
    plannedInputs o.flow (hashOf marshal selector (valueIn selector r)) = some inputs →
    ∀ id' r', o.current.get id' = some r' →
      ((∃ input ∈ inputs, Covers selector input r') ↔ valueIn selector r' = valueIn selector r)
  covered : ∀ h inputs, plannedInputs o.flow h = some inputs →
    ∀ input ∈ inputs, ∃ id r, o.current.get id = some r ∧ Covers selector input r

-- a scoped stream: the entity keeps its value; by type: it has the value and type of the others
def KeepsGroup (o : Observed) (e : Event) : Prop :=
  o.flow.subscriptions.get e.subID ≠ none → ∀ id held, o.current.get id = some held →
    if selector.isSimpleByType then
      valueIn selector (registrationAfter o.current e.registeredEntity) = valueIn selector held ∧
        (registrationAfter o.current e.registeredEntity).type = held.type
    else id = e.registeredEntity.id →
      valueIn selector (registrationAfter o.current e.registeredEntity) = valueIn selector held

-- a creation or an update whose deployments succeed
structure Brings (e : Event) : Prop where
  notDelete : e.entityAction ≠ .delete
  decoded : Decoded e.registeredEntity
  comparable : Comparables selector e.registeredEntity
  answered : ∀ n locations, e.selectWorker n locations ≠ ""

variable {marshal selector}

theorem observe_unknown {o : Observed} {e : Event}
    (h : o.flow.subscriptions.get e.subID = none) : observe marshal o e = some o := by
  have hstep : step marshal o.flow e = some o.flow := by
    simp [step, handleUpdate, metadataDrivenTaskOrchestration, h, runActions, Except.toOption]
  simp [observe, hstep, currentAfter, h]

theorem registrationAfter_cases {P : EntityRegistration → Prop} {current : GoMap EntityRegistration}
    {r : EntityRegistration} (new : P r)
    (old : ∀ held, current.get r.id = some held → P (held.update r)) :
    P (registrationAfter current r) := by
  unfold registrationAfter
  cases hget : current.get r.id with
  | none => exact new
  | some held => exact old held hget

-- what is known of each entity is filed under its id, and its value can be compared
def Known (selector : InputStreamConfig) (current : GoMap EntityRegistration) : Prop :=
  ∀ id r, current.get id = some r → r.id = id ∧ Decoded r ∧ Comparables selector r

theorem held_registrationAfter {current : GoMap EntityRegistration} {r : EntityRegistration}
    (h : Known selector current) (hdec : Decoded r) (hcomp : Comparables selector r) :
    (registrationAfter current r).id = r.id ∧ Decoded (registrationAfter current r) ∧
      Comparables selector (registrationAfter current r) := by
  refine registrationAfter_cases (P := fun x => x.id = r.id ∧ Decoded x ∧ Comparables selector x)
    ⟨rfl, hdec, hcomp⟩ (fun held hheld => ?_)
  obtain ⟨hid, hd, hc⟩ := h _ held hheld
  exact ⟨hid, decoded_update hd hdec, comparables_update hc hcomp⟩

theorem held_set {current : GoMap EntityRegistration} {r : EntityRegistration}
    (h : Known selector current) (hdec : Decoded r) (hcomp : Comparables selector r) :
    Known selector (current.set r.id (registrationAfter current r)) := by
  intro id x hx
  rw [GoMap.get_set] at hx
  split_ifs at hx with hid
  · rw [← Option.some.inj hx, hid]
    exact held_registrationAfter h hdec hcomp
  · exact h id x hx

-- the search finds the entities that have the value
theorem search_byValue (hby : ByMetadata selector) (hbt : selector.isSimpleByType = false)
    {v : GroupValue} (hv : Comparable v) {received : GoMap EntityRegistration}
    (hheld : Known selector received) (rank : String → Nat) :
    ∃ entities, (received.range rank).foldlM (fun entities e =>
        searchReceived selector (groupOf selector v) entities e.2) [] = .ok entities ∧
      (entities.map InputEntity.id).Nodup ∧ ∀ id, id ∈ entities.map InputEntity.id ↔
        ∃ r, received.get id = some r ∧ valueIn selector r = v := by
  generalize hwith : (received.range rank).filter (fun e => valueIn selector e.2 = v) = having
  have hsearch : (received.range rank).foldlM (fun entities e =>
      searchReceived selector (groupOf selector v) entities e.2) [] =
        .ok (having.map (fun e => inputEntity selector e.2 (locationOf e.2))) := by
    rw [← hwith, ← flatMap_ite]
    refine foldlM_collect [] ?_
    rintro ⟨k, r⟩ hr acc
    exact searchReceived_of_isMatched (isMatched_groupOf hby hv r)
      (hheld k r (GoMap.mem_range.mp hr)).2.1 (by simp [hbt])
  have hids : (having.map (fun e => inputEntity selector e.2 (locationOf e.2))).map
      InputEntity.id = having.map (fun e => e.1) := by
    rw [List.map_map, ← hwith]
    refine List.map_congr_left ?_
    rintro ⟨k, r⟩ hr
    simp [inputEntity, hbt, (hheld k r (GoMap.mem_range.mp (List.mem_filter.mp hr).1)).1]
  refine ⟨_, hsearch, ?_, fun id => ?_⟩ <;> rw [hids, ← hwith]
  · exact (GoMap.range_keys_nodup rank received).sublist (List.filter_sublist.map _)
  · rw [List.mem_map]
    constructor
    · rintro ⟨⟨k, r⟩, hr, rfl⟩
      obtain ⟨hmem, hvalue⟩ := List.mem_filter.mp hr
      exact ⟨r, GoMap.mem_range.mp hmem, of_decide_eq_true hvalue⟩
    · rintro ⟨r, hr, hvalue⟩
      exact ⟨⟨id, r⟩, List.mem_filter.mpr ⟨GoMap.mem_range.mpr hr, decide_eq_true hvalue⟩, rfl⟩

theorem receive_scoped {sub : InputSubscription} (hbt : sub.inputSelector.isSimpleByType = false)
    (r : EntityRegistration) : (receive sub r).receivedEntityRegistrations =
      sub.receivedEntityRegistrations.set r.id
        (registrationAfter sub.receivedEntityRegistrations r) := by
  have hkey := receivedKey_eq hbt r.id
  rcases receive_cases sub r with ⟨hget, h⟩ | ⟨old, hget, ⟨hsimple, -⟩ | ⟨-, h⟩⟩
  · rw [h, hkey, registrationAfter, ← hkey, hget]
  · rw [hbt] at hsimple
    cases hsimple
  · rw [h, hkey, registrationAfter, ← hkey, hget]

-- a scoped stream holds exactly what is known of the entities
structure ScopedGroups (selector : InputStreamConfig) (subID : String) (sub : InputSubscription)
    (o : Observed) : Prop where
  single : SingleStream subID sub o.flow
  selected : sub.inputSelector = selector
  received : sub.receivedEntityRegistrations = o.current
  held : Known selector o.current
  nodup : ∀ h inputs, plannedInputs o.flow h = some inputs →
    (inputs.map InputEntity.id).Nodup

-- what one registration changes
structure Regrouped (marshal : GroupValue → String) (selector : InputStreamConfig) (o : Observed)
    (r : EntityRegistration) (t : Observed) (inputs : List InputEntity) : Prop where
  current : t.current = o.current.set r.id (registrationAfter o.current r)
  planned : ∀ k, plannedInputs t.flow k =
    if k = hashOf marshal selector (valueIn selector (registrationAfter o.current r)) then
      some inputs
    else plannedInputs o.flow k
  ids : ∀ id, id ∈ inputs.map InputEntity.id ↔
    (∃ old, plannedInputs o.flow
        (hashOf marshal selector (valueIn selector (registrationAfter o.current r))) = some old ∧
      id ∈ old.map InputEntity.id) ∨
    ∃ x, t.current.get id = some x ∧
      valueIn selector x = valueIn selector (registrationAfter o.current r)

theorem joined_scoped {flow current : FogFlow} {hashID : String} {entities : List InputEntity}
    {workerSelection : Nat → List Point → String} (hbt : selector.isSimpleByType = false)
    (hd : Deployed flow) (hplan : current.executionPlan = flow.executionPlan)
    (hdep : current.deploymentPlan = flow.deploymentPlan)
    (hnd : (entities.map InputEntity.id).Nodup)
    (hold : ∀ old, plannedInputs flow hashID = some old → (old.map InputEntity.id).Nodup) :
    Joined current selector hashID entities workerSelection (fun inputs =>
      (inputs.map InputEntity.id).Nodup ∧ ∀ id, id ∈ inputs.map InputEntity.id ↔
        (∃ old, plannedInputs flow hashID = some old ∧ id ∈ old.map InputEntity.id) ∨
          id ∈ entities.map InputEntity.id) := by
  constructor
  · intro hnone
    exact ⟨hnd, fun id => by simp [plannedInputs, ← hplan, hnone]⟩
  · intro task htask
    rw [hplan] at htask
    have hplanned : plannedInputs flow hashID = some task.inputs := by simp [plannedInputs, htask]
    have hdeployed : current.deploymentPlan.get task.taskID ≠ none :=
      hdep ▸ hd.deployed _ _ htask
    have hmerge : ∃ result, entities.zipIdx.foldlM (mergeInput current selector workerSelection)
        (task, []) = .ok result ∧ MergedFrom task [] (entities.map InputEntity.id) result :=
      mergedFrom_mergeInputs [] entities hbt hdeployed (hold _ hplanned)
    obtain ⟨result, hres, hmerged⟩ := hmerge
    obtain ⟨new, hnew, hfor⟩ := hmerged.actions
    rw [List.nil_append] at hnew
    refine ⟨result, hres, hmerged.taskID, hnew ▸ hfor, hmerged.nodup, fun id => ?_⟩
    rw [hmerged.mem, hplanned]
    simp

theorem scopedGroups_step {subID : String} {sub : InputSubscription} {o : Observed} {e : Event}
    (h : ScopedGroups selector subID sub o) (hby : ByMetadata selector)
    (hbt : selector.isSimpleByType = false) (hon : e.subID = subID) (he : Brings selector e) :
    ∃ t inputs, observe marshal o e = some t ∧
      ScopedGroups selector subID (receive sub e.registeredEntity) t ∧
      Regrouped marshal selector o e.registeredEntity t inputs := by
  have hsbt : sub.inputSelector.isSimpleByType = false := by rw [h.selected, hbt]
  have hreceived := receive_scoped hsbt e.registeredEntity
  rw [h.received] at hreceived
  have hr : (receive sub e.registeredEntity).receivedEntityRegistrations.get
      (receivedKey sub e.registeredEntity.id) =
        some (registrationAfter o.current e.registeredEntity) := by
    rw [hreceived, receivedKey_eq hsbt, GoMap.get_set_self]
  have hafter := held_registrationAfter h.held he.decoded he.comparable
  have hheld := held_set h.held he.decoded he.comparable
  have hv := comparable_valueIn hby hafter.2.2
  obtain ⟨entities, hsearch, hnd, hmem⟩ := search_byValue hby hbt hv hheld
    (e.choices.regRank 0 subID)
  rw [← hreceived] at hsearch
  obtain ⟨next, inputs, hstep, hsingle, ⟨hnodup, hids⟩, hplanned⟩ := step_singleStream
    h.single hby h.selected hon he.notDelete he.answered hr hv
    ⟨entities, hsearch, fun current hplan hdep =>
      joined_scoped hbt h.single.toDeployed hplan hdep hnd (h.nodup _)⟩
  have hcurrent : currentAfter o e = o.current.set e.registeredEntity.id
      (registrationAfter o.current e.registeredEntity) := by
    rw [currentAfter, hon, h.single.subscribed]
  refine ⟨⟨next, currentAfter o e⟩, inputs, by simp [observe, hstep], ?_,
    ⟨hcurrent, hplanned, fun id => ?_⟩⟩
  · refine ⟨hsingle, by rw [receive_inputSelector, h.selected], hreceived.trans hcurrent.symm,
      by rw [hcurrent]; exact hheld, fun k old hold => ?_⟩
    rw [hplanned] at hold
    split_ifs at hold
    · exact Option.some.inj hold ▸ hnodup
    · exact h.nodup k old hold
  · rw [hids, hmem, hcurrent]
    rfl

-- different values that the entities have before or after have different hashes
def CollisionFree (marshal : GroupValue → String) (selector : InputStreamConfig)
    (o t : Observed) : Prop :=
  ∀ id id' r r', o.current.get id = some r → t.current.get id' = some r' →
    hashOf marshal selector (valueIn selector r) = hashOf marshal selector (valueIn selector r') →
    valueIn selector r = valueIn selector r'

-- a scoped task has the ids of the entities with its value as its inputs
def ExactIds (marshal : GroupValue → String) (selector : InputStreamConfig) (o : Observed) :
    Prop :=
  ∀ id r inputs, o.current.get id = some r →
    plannedInputs o.flow (hashOf marshal selector (valueIn selector r)) = some inputs →
    ∀ id', id' ∈ inputs.map InputEntity.id ↔
      ∃ r', o.current.get id' = some r' ∧ valueIn selector r' = valueIn selector r

section Exact

variable {o t : Observed} {r : EntityRegistration} {inputs : List InputEntity}
  (hbt : selector.isSimpleByType = false)
include hbt

theorem covers_iff_mem_ids {x : EntityRegistration} :
    (∃ input ∈ inputs, Covers selector input x) ↔ x.id ∈ inputs.map InputEntity.id := by
  simp [Covers, hbt]

theorem exactIds_of_groupPlan (hheld : Known selector o.current) (h : GroupPlan marshal selector o) :
    ExactIds marshal selector o := by
  intro id x ins hx hins id'
  constructor
  · intro hid
    obtain ⟨input, hinput, rfl⟩ := List.mem_map.mp hid
    obtain ⟨k, y, hy, hcovers⟩ := h.covered _ _ hins input hinput
    have hk : input.id = k := by
      simp only [Covers, hbt, Bool.false_eq_true, if_false] at hcovers
      rw [hcovers, (hheld k y hy).1]
    exact ⟨y, hk ▸ hy, (h.inputs id x ins hx hins k y hy).mp ⟨input, hinput, hcovers⟩⟩
  · rintro ⟨y, hy, hvalue⟩
    have hcovers := (h.inputs id x ins hx hins id' y hy).mpr hvalue
    rw [covers_iff_mem_ids hbt, (hheld id' y hy).1] at hcovers
    exact hcovers

theorem groupPlan_of_exactIds (hheld : Known selector o.current)
    (htasks : ∀ h, plannedInputs o.flow h ≠ none ↔
      ∃ id r, o.current.get id = some r ∧ hashOf marshal selector (valueIn selector r) = h)
    (hids : ExactIds marshal selector o) : GroupPlan marshal selector o := by
  refine ⟨htasks, ?_, ?_⟩
  · intro id x ins hx hins id' y hy
    rw [covers_iff_mem_ids hbt, (hheld id' y hy).1, hids id x ins hx hins id', hy]
    simp
  · intro h ins hins input hinput
    obtain ⟨id, x, hx, rfl⟩ := (htasks h).mp (by simp [hins])
    obtain ⟨y, hy, -⟩ := (hids id x ins hx hins input.id).mp (List.mem_map_of_mem hinput)
    refine ⟨input.id, y, hy, ?_⟩
    simp [Covers, hbt, (hheld _ y hy).1]

variable (hheld : Known selector o.current) (hheld' : Known selector t.current)
  (h : GroupPlan marshal selector o) (hr : Regrouped marshal selector o r t inputs)
  (hot : CollisionFree marshal selector o t)
include hheld hheld' h hr hot

theorem groupPlan_regrouped (htt : CollisionFree marshal selector t t)
    (hkeeps : ∀ held, o.current.get r.id = some held →
      valueIn selector (registrationAfter o.current r) = valueIn selector held) :
    GroupPlan marshal selector t := by
  have hids := exactIds_of_groupPlan hbt hheld h
  have hget : ∀ id, t.current.get id =
      if id = r.id then some (registrationAfter o.current r) else o.current.get id :=
    fun id => by rw [hr.current, GoMap.get_set]
  have hself : t.current.get r.id = some (registrationAfter o.current r) := by rw [hget, if_pos rfl]
  -- every entity keeps its value
  have hkept : ∀ id x, o.current.get id = some x →
      ∃ y, t.current.get id = some y ∧ valueIn selector y = valueIn selector x := by
    intro id x hx
    rw [hget]
    split_ifs with hid
    · exact ⟨_, rfl, hkeeps x (hid ▸ hx)⟩
    · exact ⟨x, hx, rfl⟩
  have hback : ∀ id y, t.current.get id = some y →
      valueIn selector y ≠ valueIn selector (registrationAfter o.current r) →
        o.current.get id = some y := by
    intro id y hy hne
    rw [hget] at hy
    split_ifs at hy
    · exact absurd (by rw [← Option.some.inj hy]) hne
    · exact hy
  refine groupPlan_of_exactIds hbt hheld' (fun k => ?_) (fun id x ins hx hins id' => ?_)
  · rw [hr.planned]
    split_ifs with hk
    · exact ⟨fun _ => ⟨r.id, _, hself, hk.symm⟩, fun _ => by simp⟩
    · rw [h.tasks]
      constructor
      · rintro ⟨id, x, hx, rfl⟩
        obtain ⟨y, hy, hvalue⟩ := hkept id x hx
        exact ⟨id, y, hy, by rw [hvalue]⟩
      · rintro ⟨id, y, hy, rfl⟩
        exact ⟨id, y, hback id y hy (fun he => hk (by rw [he])), rfl⟩
  · rw [hr.planned] at hins
    split_ifs at hins with hhash
    · have hvalue := htt id r.id x _ hx hself hhash
      rw [← Option.some.inj hins, hr.ids, hvalue]
      refine ⟨fun hin => hin.elim ?_ (fun hnew => hnew), Or.inr⟩
      rintro ⟨old, hold, hmem⟩
      obtain ⟨k, y, hy, hyhash⟩ := (h.tasks _).mp (Option.ne_none_iff_exists'.mpr ⟨old, hold⟩)
      have hyvalue := hot k r.id y _ hy hself hyhash
      obtain ⟨z, hz, hzvalue⟩ := (hids k y old hy (by rw [hyhash, hold]) id').mp hmem
      obtain ⟨z', hz', hzvalue'⟩ := hkept id' z hz
      exact ⟨z', hz', by rw [hzvalue', hzvalue, hyvalue]⟩
    · have hxold := hback id x hx (fun he => hhash (by rw [he]))
      rw [hids id x ins hxold hins id']
      constructor
      · rintro ⟨y, hy, hvalue⟩
        obtain ⟨z, hz, hzvalue⟩ := hkept id' y hy
        exact ⟨z, hz, hzvalue.trans hvalue⟩
      · rintro ⟨y, hy, hvalue⟩
        exact ⟨y, hback id' y hy (fun he => hhash (by rw [← hvalue, he])), hvalue⟩

-- the old task keeps the entity among its inputs, so a new value breaks the plan
theorem keeps_of_groupPlan (h' : GroupPlan marshal selector t) {held : EntityRegistration}
    (hold : o.current.get r.id = some held) :
    valueIn selector (registrationAfter o.current r) = valueIn selector held := by
  by_contra hne
  have hself : t.current.get r.id = some (registrationAfter o.current r) := by
    rw [hr.current, GoMap.get_set_self]
  have hhash : hashOf marshal selector (valueIn selector held) ≠
      hashOf marshal selector (valueIn selector (registrationAfter o.current r)) :=
    fun he => hne (hot _ _ _ _ hold hself he).symm
  obtain ⟨ins, hins⟩ := Option.ne_none_iff_exists'.mp ((h.tasks _).mpr ⟨r.id, held, hold, rfl⟩)
  have hmem : r.id ∈ ins.map InputEntity.id :=
    (exactIds_of_groupPlan hbt hheld h r.id held ins hold hins r.id).mpr ⟨held, hold, rfl⟩
  have hins' : plannedInputs t.flow (hashOf marshal selector (valueIn selector held)) =
      some ins := by
    rw [hr.planned, if_neg hhash, hins]
  obtain ⟨id, x, hx, hxhash⟩ := (h'.tasks _).mp (Option.ne_none_iff_exists'.mpr ⟨ins, hins'⟩)
  have hxvalue := hot _ _ _ _ hold hx hxhash.symm
  obtain ⟨y, hy, hyvalue⟩ := (exactIds_of_groupPlan hbt hheld' h' id x ins hx
    (by rw [hxhash, hins']) r.id).mp hmem
  obtain rfl := Option.some.inj (hself.symm.trans hy)
  exact hne (hyvalue.trans hxvalue.symm)

end Exact

end FogFlow.Master
