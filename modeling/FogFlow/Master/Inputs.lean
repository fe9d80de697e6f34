import FogFlow.Master.PlanFrame

namespace FogFlow.Master

open Ngsi Datamodel Loop

variable {marshal : GroupValue → String} {choices : Choices}

@[simp] theorem newInputEntity_id (selector : InputStreamConfig) (entity : InputEntity) :
    (newInputEntity selector entity).id = entity.id := rfl

@[simp] theorem relocate_ids (entity : InputEntity) (inputs : List InputEntity) :
    (relocate entity inputs).1.map InputEntity.id = inputs.map InputEntity.id := by
  induction inputs with
  | nil => rfl
  | cons input rest ih =>
    unfold relocate
    split
    · rfl
    · simp [ih]

@[simp] theorem relocate_types (entity : InputEntity) (inputs : List InputEntity) :
    (relocate entity inputs).1.map InputEntity.type = inputs.map InputEntity.type := by
  induction inputs with
  | nil => rfl
  | cons input rest ih =>
    unfold relocate
    split
    · rfl
    · simp [ih]

theorem isNewInput_eq_true_iff {selector : InputStreamConfig} {task : TaskConfig}
    {entity : InputEntity} (h : selector.isSimpleByType = false) :
    isNewInput selector task entity = true ↔ entity.id ∉ task.inputs.map InputEntity.id := by
  simp [isNewInput, h]

theorem ids_mergeInput {flow : FogFlow} {selector : InputStreamConfig}
    {workerSelection : Nat → List Point → String} {state result : TaskConfig × Actions}
    {entity : InputEntity × Nat}
    (h : mergeInput flow selector workerSelection state entity = .ok result) :
    result.1.taskID = state.1.taskID ∧
      result.1.inputs.map InputEntity.id = state.1.inputs.map InputEntity.id ++
        (if isNewInput selector state.1 entity.1 then [entity.1.id] else []) := by
  unfold mergeInput at h
  cases hnew : isNewInput selector state.1 entity.1 with
  | true =>
    simp only [hnew, if_true] at h
    obtain ⟨deployed, -, h⟩ := bind_eq_ok.mp h
    rw [← Except.ok.inj h]
    simp
  | false =>
    simp only [hnew, Bool.false_eq_true, if_false] at h
    split_ifs at h <;> rw [← Except.ok.inj h] <;> simp

theorem mem_mergeInputs {flow : FogFlow} {selector : InputStreamConfig}
    {workerSelection : Nat → List Point → String} {task : TaskConfig} {actions : Actions}
    {entities : List InputEntity} {result : TaskConfig × Actions}
    (h : entities.zipIdx.foldlM (mergeInput flow selector workerSelection) (task, actions) =
      .ok result) :
    ∀ id ∈ result.1.inputs.map InputEntity.id,
      id ∈ task.inputs.map InputEntity.id ∨ id ∈ entities.map InputEntity.id := by
  refine foldlM_zipIdx_invariant (I := fun _ state => ∀ id ∈ state.1.inputs.map InputEntity.id,
    id ∈ task.inputs.map InputEntity.id ∨ id ∈ entities.map InputEntity.id) h
    (fun id hid => Or.inl hid) ?_
  intro done entity rest i acc next hsplit hI hnext id hid
  rw [(ids_mergeInput hnext).2, List.mem_append] at hid
  rcases hid with hid | hid
  · exact hI id hid
  · split_ifs at hid
    · have hmem : entity ∈ entities := by simp [hsplit]
      rw [List.mem_singleton.mp hid]
      exact Or.inr (List.mem_map_of_mem hmem)
    · simp at hid

section Search

variable {subscriptions : GoMap InputSubscription} {group : GroupInfo}
  {selector : InputStreamConfig} {entities next : List InputEntity} {r : EntityRegistration}
  {subRank : String → Nat} {regRank : String → String → Nat}

def Matched (group : GroupInfo) (selector : InputStreamConfig) (r : EntityRegistration) : Prop :=
  isMatched r (restrictionsOf selector group) = .ok true

-- what the visit of one registration adds to the entities found before
inductive Visit (group : GroupInfo) (entities : List InputEntity) (selector : InputStreamConfig)
    (r : EntityRegistration) : List InputEntity → Prop where
  | unmatched : isMatched r (restrictionsOf selector group) = .ok false →
      Visit group entities selector r entities
  | skipped (entity : InputEntity) : Matched group selector r → selector.isSimpleByType = true →
      entity ∈ entities → entity.type = "" → Visit group entities selector r entities
  | listed (location : Point) : Matched group selector r → r.getLocation = .ok location →
      Visit group entities selector r (entities ++ [inputEntity selector r location])

theorem searchReceived_cases (h : searchReceived selector group entities r = .ok next) :
    Visit group entities selector r next := by
  unfold searchReceived at h
  obtain ⟨matched, hmatched, h⟩ := bind_eq_ok.mp h
  cases matched with
  | false =>
    rw [← Except.ok.inj h]
    exact .unmatched hmatched
  | true =>
    rw [if_pos rfl] at h
    split_ifs at h with hskip
    · rw [← Except.ok.inj h]
      rw [Bool.and_eq_true, List.any_eq_true] at hskip
      obtain ⟨hsimple, entity, hin, htype⟩ := hskip
      exact .skipped entity hmatched hsimple hin (beq_iff_eq.mp htype)
    · obtain ⟨location, hlocation, h⟩ := bind_eq_ok.mp h
      rw [← Except.ok.inj h]
      exact .listed location hmatched hlocation

theorem visit_subset (h : Visit group entities selector r next) : entities ⊆ next := by
  cases h with
  | unmatched _ => exact List.Subset.refl _
  | skipped _ _ _ _ _ => exact List.Subset.refl _
  | listed _ _ _ => exact List.subset_append_left _ _

theorem mem_of_visit (h : Visit group entities selector r next) :
    ∀ x ∈ next, x ∈ entities ∨ ∃ location, x = inputEntity selector r location := by
  intro x hx
  cases h with
  | unmatched _ => exact .inl hx
  | skipped _ _ _ _ _ => exact .inl hx
  | listed location _ _ =>
    rcases List.mem_append.mp hx with hx | hx
    · exact .inl hx
    · exact .inr ⟨location, List.mem_singleton.mp hx⟩

-- the streams and their registrations in the order in which the search visits them
def visits (subscriptions : GoMap InputSubscription) (subRank : String → Nat)
    (regRank : String → String → Nat) : List (InputSubscription × EntityRegistration) :=
  (subscriptions.range subRank).flatMap (fun inputSub =>
    (inputSub.2.receivedEntityRegistrations.range (regRank inputSub.1)).map
      (fun registration => (inputSub.2, registration.2)))

theorem mem_visits {visit : InputSubscription × EntityRegistration} :
    visit ∈ visits subscriptions subRank regRank ↔ ∃ subID k,
      subscriptions.get subID = some visit.1 ∧
        visit.1.receivedEntityRegistrations.get k = some visit.2 := by
  simp only [visits, List.mem_flatMap, List.mem_map]
  constructor
  · rintro ⟨⟨subID, sub⟩, hsub, ⟨k, r⟩, hr, rfl⟩
    exact ⟨subID, k, GoMap.mem_range.mp hsub, GoMap.mem_range.mp hr⟩
  · rintro ⟨subID, k, hsub, hr⟩
    exact ⟨⟨subID, visit.1⟩, GoMap.mem_range.mpr hsub, ⟨k, visit.2⟩, GoMap.mem_range.mpr hr, rfl⟩

theorem search_visits : searchRelevantEntities subscriptions group subRank regRank =
    (visits subscriptions subRank regRank).foldlM (fun entities visit =>
      searchReceived visit.1.inputSelector group entities visit.2) [] := by
  rw [visits, foldlM_flatMap]
  simp only [List.foldlM_map]
  rfl

-- the invariant of a search speaks of the registrations already visited
theorem search_invariant
    {I : List (InputSubscription × EntityRegistration) → List InputEntity → Prop}
    (h : searchRelevantEntities subscriptions group subRank regRank = .ok entities)
    (nil : I [] [])
    (snoc : ∀ done visit found next subID k, subscriptions.get subID = some visit.1 →
      visit.1.receivedEntityRegistrations.get k = some visit.2 → I done found →
      Visit group found visit.1.inputSelector visit.2 next → I (done ++ [visit]) next) :
    I (visits subscriptions subRank regRank) entities := by
  rw [search_visits] at h
  refine foldlM_invariant h nil (fun done visit rest found next hsplit hI hnext => ?_)
  obtain ⟨subID, k, hsub, hr⟩ := mem_visits.mp (show visit ∈ visits subscriptions subRank regRank by
    rw [hsplit]
    simp)
  exact snoc done visit found next subID k hsub hr hI (searchReceived_cases hnext)

-- an entity found by the search has been received by one of the input subscriptions
def Found (subscriptions : GoMap InputSubscription) (entity : InputEntity) : Prop :=
  ∃ subID sub key r location, subscriptions.get subID = some sub ∧
    sub.receivedEntityRegistrations.get key = some r ∧
    entity = inputEntity sub.inputSelector r location

theorem found_of_visit {subID k : String} {sub : InputSubscription}
    (hsub : subscriptions.get subID = some sub)
    (hr : sub.receivedEntityRegistrations.get k = some r)
    (hfound : ∀ x ∈ entities, Found subscriptions x)
    (h : Visit group entities sub.inputSelector r next) : ∀ x ∈ next, Found subscriptions x := by
  intro x hx
  rcases mem_of_visit h x hx with hx | ⟨location, rfl⟩
  · exact hfound x hx
  · exact ⟨subID, sub, k, r, location, hsub, hr, rfl⟩

theorem found_of_search
    (h : searchRelevantEntities subscriptions group subRank regRank = .ok entities) :
    ∀ x ∈ entities, Found subscriptions x :=
  search_invariant (I := fun _ found => ∀ x ∈ found, Found subscriptions x) h (by simp)
    (fun _ _ _ _ _ _ hsub hr hfound hvisit => found_of_visit hsub hr hfound hvisit)

end Search

-- every input of the plan was there before or has been found by the search
theorem inputs_expandExecutionPlan {flow : FogFlow} {entityID : String}
    {sub : InputSubscription} {result : FogFlow × Actions}
    (h : expandExecutionPlan marshal choices flow entityID sub = .ok result) :
    ∀ k task, result.1.executionPlan.get k = some task →
      ∀ id ∈ task.inputs.map InputEntity.id,
        (∃ k' task', flow.executionPlan.get k' = some task' ∧
          id ∈ task'.inputs.map InputEntity.id) ∨
        ∃ x, Found flow.subscriptions x ∧ x.id = id := by
  obtain ⟨groups, -, h⟩ := bind_eq_ok.mp h
  have key := foldlM_invariant (I := fun _ state => PlanOnly flow state.1 ∧
    ∀ k task, state.1.executionPlan.get k = some task →
      ∀ id ∈ task.inputs.map InputEntity.id,
        (∃ k' task', flow.executionPlan.get k' = some task' ∧
          id ∈ task'.inputs.map InputEntity.id) ∨
        ∃ x, Found flow.subscriptions x ∧ x.id = id) h
    ⟨.refl flow, fun k task hk id hid => Or.inl ⟨k, task, hk, hid⟩⟩ ?_
  · exact key.2
  · rintro done ⟨group, i⟩ rest state next - ⟨hframe, hI⟩ hnext
    have hcases := expandGroup_cases hnext
    refine ⟨hframe.trans (planOnly_groupExpansion hcases), ?_⟩
    intro k task hk id hid
    cases hcases with
    | merged old entities merged hsearch hold hmerge =>
      simp only [FogFlow.putTask, GoMap.get_set] at hk
      split_ifs at hk
      · obtain rfl := Option.some.inj hk
        rcases mem_mergeInputs hmerge id hid with hid | hid
        · exact hI _ old hold id hid
        · obtain ⟨x, hx, rfl⟩ := List.mem_map.mp hid
          rw [hframe.subscriptions] at hsearch
          exact Or.inr ⟨x, found_of_search hsearch x hx, rfl⟩
      · exact hI k task hk id hid
    | created new hsearch _ _ =>
      simp only [FogFlow.putTask, GoMap.get_set] at hk
      split_ifs at hk
      · obtain rfl := Option.some.inj hk
        obtain ⟨x, hx, rfl⟩ := List.mem_map.mp hid
        rw [hframe.subscriptions] at hsearch
        exact Or.inr ⟨x, found_of_search hsearch x hx, rfl⟩
      · exact hI k task hk id hid

end FogFlow.Master
