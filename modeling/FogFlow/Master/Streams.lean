import FogFlow.Master.Combinations
import FogFlow.Master.Inputs
import FogFlow.Master.Received

namespace FogFlow.Master

open Ngsi Datamodel Loop

-- input streams of distinct types that are grouped as a whole or by entity
structure Streams (subscriptions : GoMap InputSubscription) : Prop where
  nonempty : ∃ subID sub, subscriptions.get subID = some sub
  grouped : ∀ subID sub, subscriptions.get subID = some sub →
    sub.inputSelector.groupBy = "ALL" ∨ sub.inputSelector.groupBy = "EntityID"
  notByType : ∀ subID sub, subscriptions.get subID = some sub →
    sub.inputSelector.isSimpleByType = false
  distinct : ∀ subID subID' sub sub', subscriptions.get subID = some sub →
    subscriptions.get subID' = some sub' →
    sub.inputSelector.entityType = sub'.inputSelector.entityType → subID = subID'

-- the decoder of context metadata turns the value of a point into a Point
def Decoded (r : EntityRegistration) : Prop :=
  ∀ m ∈ r.metadataList.values, m.type = "point" → ∃ p, m.value = .point p

-- each subscription keeps the decoded registrations of its own type under their ids
def Typed (type : String → String) (subscriptions : GoMap InputSubscription) : Prop :=
  ∀ subID sub, subscriptions.get subID = some sub →
    ∀ k r, sub.receivedEntityRegistrations.get k = some r →
      r.id = k ∧ type k = sub.inputSelector.entityType ∧ Decoded r

def Admissible (sub : InputSubscription) (v : GroupValue) : Prop :=
  if sub.inputSelector.groupBy = "ALL" then v = .text "ALL"
  else ∃ k, sub.receivedEntityRegistrations.get k ≠ none ∧ v = .text k

-- one admissible value for every input stream and nothing else
structure Combination (subscriptions : GoMap InputSubscription) (g : GroupInfo) : Prop where
  value : ∀ subID sub, subscriptions.get subID = some sub →
    ∃ v, g.get (groupedKey sub.inputSelector) = some v ∧ Admissible sub v
  only : ∀ k v, g.get k = some v → ∃ subID sub, subscriptions.get subID = some sub ∧
    k = groupedKey sub.inputSelector

def MatchesGroup (sub : InputSubscription) (g : GroupInfo) (entityID : String) : Prop :=
  sub.inputSelector.groupBy = "ALL" ∨
    g.get (groupedKey sub.inputSelector) = some (.text entityID)

-- the received entities that match the group
def Matching (subscriptions : GoMap InputSubscription) (g : GroupInfo) (entityID : String) :
    Prop :=
  ∃ subID sub, subscriptions.get subID = some sub ∧
    sub.receivedEntityRegistrations.get entityID ≠ none ∧ MatchesGroup sub g entityID

def ExactInputs (subscriptions : GoMap InputSubscription) (g : GroupInfo)
    (inputs : List InputEntity) : Prop :=
  (inputs.map InputEntity.id).Nodup ∧
    ∀ entityID, entityID ∈ inputs.map InputEntity.id ↔ Matching subscriptions g entityID

theorem matching_congr {subscriptions : GoMap InputSubscription} {g g' : GroupInfo}
    (h : SameGroup g g') (entityID : String) :
    Matching subscriptions g entityID ↔ Matching subscriptions g' entityID := by
  simp only [Matching, MatchesGroup, h _]

theorem ExactInputs.congr {subscriptions : GoMap InputSubscription} {g g' : GroupInfo}
    {inputs : List InputEntity} (h : ExactInputs subscriptions g inputs) (hs : SameGroup g g') :
    ExactInputs subscriptions g' inputs :=
  ⟨h.1, fun entityID => (h.2 entityID).trans (matching_congr hs entityID)⟩

theorem groupedKey_injective {s s' : InputStreamConfig}
    (hs : s.groupBy = "ALL" ∨ s.groupBy = "EntityID")
    (hs' : s'.groupBy = "ALL" ∨ s'.groupBy = "EntityID")
    (h : groupedKey s = groupedKey s') : s.entityType = s'.entityType := by
  have hlast : ∀ t : InputStreamConfig, t.groupBy = "ALL" ∨ t.groupBy = "EntityID" →
      (groupedKey t).toList.getLast? = if t.groupBy = "ALL" then some 'L' else some 'D' := by
    intro t ht
    rcases ht with ht | ht <;> simp [groupedKey, ht]
  have heq : s.groupBy = s'.groupBy := by
    have := (hlast s hs).symm.trans ((congrArg (fun k => k.toList.getLast?) h).trans (hlast s' hs'))
    rcases hs with hs | hs <;> rcases hs' with hs' | hs' <;> simp [hs, hs'] at this ⊢
  simp only [groupedKey, heq] at h
  have hl := congrArg String.toList h
  simp only [String.toList_append] at hl
  exact String.toList_inj.mp (List.append_cancel_right (List.append_cancel_right hl))

theorem Streams.key_injective {subscriptions : GoMap InputSubscription}
    (h : Streams subscriptions) {subID subID' : String} {sub sub' : InputSubscription}
    (hsub : subscriptions.get subID = some sub) (hsub' : subscriptions.get subID' = some sub')
    (heq : groupedKey sub.inputSelector = groupedKey sub'.inputSelector) : subID = subID' :=
  h.distinct _ _ _ _ hsub hsub'
    (groupedKey_injective (h.grouped _ _ hsub) (h.grouped _ _ hsub') heq)

theorem getLocation_decoded {r : EntityRegistration} (h : Decoded r) :
    ∃ location, r.getLocation = .ok location := by
  unfold EntityRegistration.getLocation
  cases hfind : r.metadataList.values.find?
      (fun domainMeta => domainMeta.name == "location" && domainMeta.type == "point") with
  | none => exact ⟨_, rfl⟩
  | some m =>
    have hsat := List.find?_some hfind
    simp only [Bool.and_eq_true, beq_iff_eq] at hsat
    obtain ⟨p, hp⟩ := h m (List.mem_of_find?_eq_some hfind) hsat.2
    simp only [hp]
    exact ⟨p, rfl⟩

def matchedBy (selector : InputStreamConfig) (g : GroupInfo) (r : EntityRegistration) : Bool :=
  selector.groupBy == "ALL" || g.get (groupedKey selector) == some (.text r.id)

theorem isMatched_eq {selector : InputStreamConfig} {g : GroupInfo} {r : EntityRegistration}
    {v : GroupValue} (hs : selector.groupBy = "ALL" ∨ selector.groupBy = "EntityID")
    (hv : g.get (groupedKey selector) = some v) :
    isMatched r (restrictionsOf selector g) = .ok (matchedBy selector g r) := by
  have hentries : ((∅ : GoMap GroupValue).set selector.groupBy v).entries =
      [⟨selector.groupBy, v⟩] := rfl
  rw [restrictionsOf, hv]
  simp only [isMatched, hentries, List.foldlM_cons, List.foldlM_nil]
  rcases hs with hs | hs
  · simp [hs, matchedBy, pure, Except.pure]
  · rw [if_neg (by simp [hs])]
    cases v with
    | text s =>
      have hb : decide (r.id = s) = (s == r.id) := by
        by_cases h : r.id = s
        · simp [h]
        · simp [h, Ne.symm h]
      simp [hs, matchedBy, hv, groupedValue, GroupValue.goEq, pure, Except.pure, hb]
    | metadata m =>
      simp [hs, matchedBy, hv, groupedValue, GroupValue.goEq, pure, Except.pure]

def locationOf (r : EntityRegistration) : Point := r.getLocation.toOption.getD ⟨0, 0⟩

theorem getLocation_eq {r : EntityRegistration} (h : Decoded r) :
    r.getLocation = .ok (locationOf r) := by
  obtain ⟨location, hloc⟩ := getLocation_decoded h
  rw [locationOf, hloc]
  rfl

theorem searchReceived_of_isMatched {selector : InputStreamConfig} {g : GroupInfo}
    {r : EntityRegistration} {matched : Bool} {entities : List InputEntity}
    (hm : isMatched r (restrictionsOf selector g) = .ok matched) (hdec : Decoded r)
    (hnew : (selector.isSimpleByType && entities.any (fun entity => entity.type == "")) = false) :
    searchReceived selector g entities r = .ok (entities ++
      if matched then [inputEntity selector r (locationOf r)] else []) := by
  rw [searchReceived, hm, ok_bind, hnew, getLocation_eq hdec]
  cases matched <;> simp

theorem matchedBy_iff {sub : InputSubscription} {g : GroupInfo} {r : EntityRegistration} :
    matchedBy sub.inputSelector g r = true ↔ MatchesGroup sub g r.id := by
  simp [matchedBy, MatchesGroup]

theorem searchReceived_eq {selector : InputStreamConfig} {g : GroupInfo}
    {r : EntityRegistration} {v : GroupValue}
    (hs : selector.groupBy = "ALL" ∨ selector.groupBy = "EntityID")
    (htype : selector.isSimpleByType = false) (hv : g.get (groupedKey selector) = some v)
    (hdec : Decoded r) (entities : List InputEntity) :
    searchReceived selector g entities r = .ok (entities ++
      if matchedBy selector g r then [inputEntity selector r (locationOf r)] else []) :=
  searchReceived_of_isMatched (isMatched_eq hs hv) hdec (by simp [htype])

def foundIn (g : GroupInfo) (regRank : String → String → Nat)
    (e : GoMap.Entry InputSubscription) : List InputEntity :=
  ((e.2.receivedEntityRegistrations.range (regRank e.1)).filter
    (fun r => matchedBy e.2.inputSelector g r.2)).map
      (fun r => inputEntity e.2.inputSelector r.2 (locationOf r.2))

section Search

variable {type : String → String} {subscriptions : GoMap InputSubscription} {g : GroupInfo}
  (hstreams : Streams subscriptions) (htyped : Typed type subscriptions)
include hstreams htyped

theorem search_eq
    (hv : ∀ subID sub, subscriptions.get subID = some sub →
      ∃ v, g.get (groupedKey sub.inputSelector) = some v)
    (subRank : String → Nat) (regRank : String → String → Nat) :
    searchRelevantEntities subscriptions g subRank regRank =
      .ok ((subscriptions.range subRank).flatMap (foundIn g regRank)) := by
  refine foldlM_collect [] ?_
  rintro ⟨subID, sub⟩ hmem acc
  have hsub := GoMap.mem_range.mp hmem
  obtain ⟨v, hgv⟩ := hv subID sub hsub
  rw [foundIn, ← flatMap_ite]
  refine foldlM_collect acc ?_
  rintro ⟨k, r⟩ hr acc
  exact searchReceived_eq (hstreams.grouped _ _ hsub) (hstreams.notByType _ _ hsub) hgv
    (htyped _ _ hsub k r (GoMap.mem_range.mp hr)).2.2 acc

theorem ids_foundIn {regRank : String → String → Nat} {subID : String} {sub : InputSubscription}
    (hsub : subscriptions.get subID = some sub) :
    (foundIn g regRank ⟨subID, sub⟩).map InputEntity.id =
      ((sub.receivedEntityRegistrations.range (regRank subID)).filter
        (fun r => matchedBy sub.inputSelector g r.2)).map (fun r => r.1) := by
  rw [foundIn, List.map_map]
  refine List.map_congr_left ?_
  rintro ⟨k, r⟩ hr
  have hget := GoMap.mem_range.mp (List.mem_filter.mp hr).1
  simp [inputEntity, hstreams.notByType _ _ hsub, (htyped _ _ hsub k r hget).1]

theorem mem_ids_foundIn {regRank : String → String → Nat} {subID : String}
    {sub : InputSubscription} (hsub : subscriptions.get subID = some sub) (entityID : String) :
    entityID ∈ (foundIn g regRank ⟨subID, sub⟩).map InputEntity.id ↔
      sub.receivedEntityRegistrations.get entityID ≠ none ∧ MatchesGroup sub g entityID := by
  rw [ids_foundIn hstreams htyped hsub, List.mem_map, Option.ne_none_iff_exists']
  constructor
  · rintro ⟨⟨k, r⟩, hr, rfl⟩
    obtain ⟨hmem, hmatch⟩ := List.mem_filter.mp hr
    have hget := GoMap.mem_range.mp hmem
    have hm := matchedBy_iff.mp hmatch
    rw [(htyped _ _ hsub k r hget).1] at hm
    exact ⟨⟨r, hget⟩, hm⟩
  · rintro ⟨⟨r, hget⟩, hm⟩
    refine ⟨⟨entityID, r⟩, List.mem_filter.mpr ⟨GoMap.mem_range.mpr hget, ?_⟩, rfl⟩
    rw [matchedBy_iff, (htyped _ _ hsub entityID r hget).1]
    exact hm

theorem exactInputs_search
    (hv : ∀ subID sub, subscriptions.get subID = some sub →
      ∃ v, g.get (groupedKey sub.inputSelector) = some v)
    (subRank : String → Nat) (regRank : String → String → Nat) :
    ∃ entities, searchRelevantEntities subscriptions g subRank regRank = .ok entities ∧
      ExactInputs subscriptions g entities := by
  refine ⟨_, search_eq hstreams htyped hv subRank regRank, ?_, ?_⟩
  · rw [List.map_flatMap, List.nodup_flatMap]
    constructor
    · rintro ⟨subID, sub⟩ hmem
      rw [ids_foundIn hstreams htyped (GoMap.mem_range.mp hmem)]
      exact (GoMap.range_keys_nodup _ _).sublist (List.filter_sublist.map _)
    · refine (GoMap.range_pairwise subRank subscriptions).imp_of_mem ?_
      rintro ⟨subID, sub⟩ ⟨subID', sub'⟩ hmem hmem' hne entityID hid hid'
      have hsub := GoMap.mem_range.mp hmem
      have hsub' := GoMap.mem_range.mp hmem'
      obtain ⟨r, hr⟩ := Option.ne_none_iff_exists'.mp
        ((mem_ids_foundIn hstreams htyped hsub entityID).mp hid).1
      obtain ⟨r', hr'⟩ := Option.ne_none_iff_exists'.mp
        ((mem_ids_foundIn hstreams htyped hsub' entityID).mp hid').1
      refine hne (hstreams.distinct _ _ _ _ hsub hsub' ?_)
      rw [← (htyped _ _ hsub entityID r hr).2.1, (htyped _ _ hsub' entityID r' hr').2.1]
  · intro entityID
    simp only [List.map_flatMap, List.mem_flatMap]
    constructor
    · rintro ⟨⟨subID, sub⟩, hmem, hid⟩
      have hsub := GoMap.mem_range.mp hmem
      exact ⟨subID, sub, hsub, (mem_ids_foundIn hstreams htyped hsub entityID).mp hid⟩
    · rintro ⟨subID, sub, hsub, hm⟩
      exact ⟨⟨subID, sub⟩, GoMap.mem_range.mpr hsub,
        (mem_ids_foundIn hstreams htyped hsub entityID).mpr hm⟩

end Search

-- every entry is an action, and one that adds a task adds this one
def ActionsFor (taskID : String) (actions : Actions) : Prop :=
  ∀ a ∈ actions, ∃ action, a = some action ∧
    ∀ taskInstance, action = .addTask taskInstance → taskInstance.id = taskID

theorem actionsFor_append {taskID : String} {as bs : Actions} (ha : ActionsFor taskID as)
    (hb : ActionsFor taskID bs) : ActionsFor taskID (as ++ bs) := by
  intro a hmem
  rcases List.mem_append.mp hmem with h | h
  · exact ha a h
  · exact hb a h

theorem actionsFor_removeTaskAction {flow : FogFlow} {task : TaskConfig}
    (hd : flow.deploymentPlan.get task.taskID ≠ none) (taskID : String) :
    ActionsFor taskID (removeTaskAction flow task) := by
  obtain ⟨deployed, hd⟩ := Option.ne_none_iff_exists'.mp hd
  intro a ha
  unfold removeTaskAction at ha
  split_ifs at ha
  · rw [List.mem_singleton.mp ha]
    exact ⟨.removeTask task.taskID deployed.workerID, by simp [removeExistingTask, hd], by simp⟩
  · simp at ha

theorem mergeInput_total {flow : FogFlow} {selector : InputStreamConfig}
    {workerSelection : Nat → List Point → String} {task : TaskConfig} {actions : Actions}
    (entity : InputEntity × Nat) (hd : flow.deploymentPlan.get task.taskID ≠ none) :
    ∃ result new, mergeInput flow selector workerSelection (task, actions) entity = .ok result ∧
      result.2 = actions ++ new ∧ ActionsFor task.taskID new := by
  obtain ⟨deployed, hdep⟩ := Option.ne_none_iff_exists'.mp hd
  unfold mergeInput
  cases hnew : isNewInput selector task entity.1 with
  | true =>
    simp only [hnew, if_true, deref, hdep, ok_bind]
    refine ⟨_, [some (.addInput ⟨inputStream (newInputEntity selector entity.1), task.taskID,
      deployed.workerID⟩)], rfl, rfl, ?_⟩
    simp [ActionsFor]
  | false =>
    simp only [hnew, Bool.false_eq_true, if_false]
    split_ifs
    · refine ⟨_, removeTaskAction flow _ ++ [some (addNewTask flow.intent _)], rfl,
        List.append_assoc _ _ _, actionsFor_append (actionsFor_removeTaskAction hd _) ?_⟩
      simp [ActionsFor, addNewTask]
    · exact ⟨_, [], rfl, (List.append_nil _).symm, by simp [ActionsFor]⟩

-- the task after the entities with these ids have been merged into its inputs
structure MergedFrom (task : TaskConfig) (actions : Actions) (ids : List String)
    (result : TaskConfig × Actions) : Prop where
  taskID : result.1.taskID = task.taskID
  nodup : (result.1.inputs.map InputEntity.id).Nodup
  mem : ∀ id, id ∈ result.1.inputs.map InputEntity.id ↔
    id ∈ task.inputs.map InputEntity.id ∨ id ∈ ids
  actions : ∃ new, result.2 = actions ++ new ∧ ActionsFor task.taskID new

theorem mergedFrom_step {flow : FogFlow} {selector : InputStreamConfig}
    {workerSelection : Nat → List Point → String} {task : TaskConfig} {actions : Actions}
    {ids : List String} {state : TaskConfig × Actions} (entity : InputEntity × Nat)
    (htype : selector.isSimpleByType = false)
    (hd : flow.deploymentPlan.get task.taskID ≠ none) (h : MergedFrom task actions ids state) :
    ∃ result, mergeInput flow selector workerSelection state entity = .ok result ∧
      MergedFrom task actions (ids ++ [entity.1.id]) result := by
  obtain ⟨current, sofar⟩ := state
  obtain ⟨new, hnew, hfor⟩ := h.actions
  have htotal : ∃ result new', mergeInput flow selector workerSelection (current, sofar) entity =
      .ok result ∧ result.2 = sofar ++ new' ∧ ActionsFor current.taskID new' :=
    mergeInput_total entity (h.taskID ▸ hd)
  obtain ⟨result, new', hres, hnew', hfor'⟩ := htotal
  obtain ⟨htask, hids⟩ := ids_mergeInput hres
  refine ⟨result, hres, htask.trans h.taskID, ?_, ?_, new ++ new', ?_, ?_⟩
  · rw [hids]
    split_ifs with hnewin
    · rw [isNewInput_eq_true_iff htype] at hnewin
      exact List.nodup_append.mpr ⟨h.nodup, List.nodup_singleton _, fun a ha b hb hab =>
        hnewin (List.mem_singleton.mp hb ▸ hab ▸ ha)⟩
    · simpa using h.nodup
  · intro id
    rw [hids, List.mem_append, List.mem_append, ← or_assoc, ← h.mem]
    split_ifs with hnewin
    · rfl
    · have hin : entity.1.id ∈ current.inputs.map InputEntity.id :=
        not_not.mp ((isNewInput_eq_true_iff htype).not.mp hnewin)
      constructor
      · exact fun hm => Or.inl (hm.resolve_right List.not_mem_nil)
      · rintro (hm | hm)
        · exact Or.inl hm
        · rw [List.mem_singleton.mp hm]
          exact Or.inl hin
  · rw [hnew', show sofar = actions ++ new from hnew, List.append_assoc]
  · have hcur : current.taskID = task.taskID := h.taskID
    exact actionsFor_append hfor (hcur ▸ hfor')

theorem mergedFrom_mergeInputs {flow : FogFlow} {selector : InputStreamConfig}
    {workerSelection : Nat → List Point → String} {task : TaskConfig} (actions : Actions)
    (entities : List InputEntity) (htype : selector.isSimpleByType = false)
    (hd : flow.deploymentPlan.get task.taskID ≠ none)
    (hnd : (task.inputs.map InputEntity.id).Nodup) :
    ∃ result, entities.zipIdx.foldlM (mergeInput flow selector workerSelection) (task, actions) =
      .ok result ∧ MergedFrom task actions (entities.map InputEntity.id) result := by
  have hinit : MergedFrom task actions [] (task, actions) :=
    ⟨rfl, hnd, by simp, [], by simp, by simp [ActionsFor]⟩
  refine foldlM_zipIdx_total (I := fun done result =>
    MergedFrom task actions (done.map InputEntity.id) result) hinit ?_
  intro done entity rest i state _ h
  rw [List.map_append]
  exact mergedFrom_step (entity, i) htype hd h

end FogFlow.Master
