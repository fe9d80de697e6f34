import FogFlow.Master.Calls
import FogFlow.Master.ProductPlan

namespace FogFlow.Master

open Ngsi Datamodel Loop

variable {marshal : GroupValue → String} {type : String → String} {choices : Choices}

-- every input is where the received registration of its entity is
def Located (subscriptions : GoMap InputSubscription) (inputs : List InputEntity) : Prop :=
  ∀ input ∈ inputs, ∀ subID sub r, subscriptions.get subID = some sub →
    sub.receivedEntityRegistrations.get input.id = some r → input.location = locationOf r

-- the entity is one of the inputs and has not moved
def Settled (inputs : List InputEntity) (entity : InputEntity) : Prop :=
  entity.id ∈ inputs.map InputEntity.id ∧
    ∀ input ∈ inputs, input.id = entity.id → input.location = entity.location

theorem isEqual_iff {p q : Point} : p.isEqual q = true ↔ p = q := by
  cases p
  cases q
  simp [Point.isEqual]

section Relocate

variable {entity : InputEntity} {inputs : List InputEntity}

theorem relocate_unmoved (h : ∀ input ∈ inputs, input.id = entity.id →
    input.location = entity.location) : relocate entity inputs = (inputs, false) := by
  induction inputs with
  | nil => rfl
  | cons input rest ih =>
    have hrest := ih (fun x hx => h x (List.mem_cons_of_mem _ hx))
    have hkept : (input.id == entity.id && !input.location.isEqual entity.location) = false := by
      by_cases hid : input.id = entity.id
      · simp [isEqual_iff.mpr (h input List.mem_cons_self hid)]
      · simp [hid]
    rw [relocate, hkept, hrest]
    rfl

theorem relocate_location (hnd : (inputs.map InputEntity.id).Nodup) :
    ∀ input ∈ (relocate entity inputs).1, input.id = entity.id →
      input.location = entity.location := by
  induction inputs with
  | nil => exact fun input hin => absurd hin List.not_mem_nil
  | cons first rest ih =>
    rw [List.map_cons, List.nodup_cons] at hnd
    intro input hin hid
    unfold relocate at hin
    split at hin
    · rename_i hmoved
      rw [Bool.and_eq_true, beq_iff_eq] at hmoved
      rcases List.mem_cons.mp hin with rfl | hin
      · rfl
      · exact absurd (List.mem_map.mpr ⟨input, hin, hid.trans hmoved.1.symm⟩) hnd.1
    · rename_i hkept
      rcases List.mem_cons.mp hin with rfl | hin
      · simpa [hid, isEqual_iff] using hkept
      · exact ih hnd.2 input hin hid

theorem mem_of_relocate {input : InputEntity} (hin : input ∈ (relocate entity inputs).1)
    (hne : input.id ≠ entity.id) : input ∈ inputs := by
  induction inputs with
  | nil => exact hin
  | cons first rest ih =>
    unfold relocate at hin
    split at hin
    · rename_i hmoved
      rw [Bool.and_eq_true, beq_iff_eq] at hmoved
      rcases List.mem_cons.mp hin with rfl | hin
      · exact absurd hmoved.1 hne
      · exact List.mem_cons_of_mem _ hin
    · rcases List.mem_cons.mp hin with rfl | hin
      · exact List.mem_cons_self
      · exact List.mem_cons_of_mem _ (ih hin)

end Relocate

section Merge

variable {flow : FogFlow} {selector : InputStreamConfig} {task : TaskConfig} {actions : Actions}
  {entity : InputEntity}

theorem mergeInput_settled {workerSelection : Nat → List Point → String}
    {state : TaskConfig × Actions} {entity : InputEntity × Nat}
    (htype : selector.isSimpleByType = false) (h : Settled state.1.inputs entity.1) :
    mergeInput flow selector workerSelection state entity = .ok state := by
  have hnew : isNewInput selector state.1 entity.1 = false := by
    rw [← Bool.not_eq_true, isNewInput_eq_true_iff htype]
    exact not_not.mpr h.1
  simp [mergeInput, hnew, relocate_unmoved h.2, newOptimalWorkerID]

-- merging an entity settles it and leaves the others as they are
theorem MergeStep.settled {next : TaskConfig × Actions} (htype : selector.isSimpleByType = false)
    (hnd : (task.inputs.map InputEntity.id).Nodup)
    (h : MergeStep flow selector task actions entity next) :
    Settled next.1.inputs entity ∧
      ∀ other, other.id ≠ entity.id → Settled task.inputs other → Settled next.1.inputs other := by
  have hrelocated : isNewInput selector task entity = false →
      Settled (relocate entity task.inputs).1 entity ∧
        ∀ other, other.id ≠ entity.id → Settled task.inputs other →
          Settled (relocate entity task.inputs).1 other := by
    intro hold
    rw [← Bool.not_eq_true, isNewInput_eq_true_iff htype, not_not] at hold
    refine ⟨⟨by rw [relocate_ids]; exact hold, relocate_location hnd⟩, fun other hne hs => ?_⟩
    refine ⟨by rw [relocate_ids]; exact hs.1, fun input hin hid => ?_⟩
    exact hs.2 input (mem_of_relocate hin (hid ▸ hne)) hid
  cases h with
  | added deployed hisNew hdeployed =>
    rw [isNewInput_eq_true_iff htype] at hisNew
    refine ⟨⟨by simp, fun input hin hid => ?_⟩, fun other hne hs => ⟨?_, fun input hin hid => ?_⟩⟩
    · rcases List.mem_append.mp hin with hin | hin
      · exact absurd (List.mem_map.mpr ⟨input, hin, hid⟩) hisNew
      · rw [List.mem_singleton.mp hin]
        rfl
    · rw [List.map_append]
      exact List.mem_append_left _ hs.1
    · rcases List.mem_append.mp hin with hin | hin
      · exact hs.2 input hin hid
      · rw [List.mem_singleton.mp hin, newInputEntity_id] at hid
        exact absurd hid.symm hne
  | kept hold => exact hrelocated hold
  | migrated workerID hold hmoved hworker => exact hrelocated hold

-- when all entities but one are settled, the loop over them is one step at most
theorem merge_once {workerSelection : Nat → List Point → String} {entities : List InputEntity}
    {result : TaskConfig × Actions} (htype : selector.isSimpleByType = false)
    (hnd : (task.inputs.map InputEntity.id).Nodup) (hids : (entities.map InputEntity.id).Nodup)
    {entityID : String} (hs : ∀ x ∈ entities, x.id ≠ entityID → Settled task.inputs x)
    (h : entities.zipIdx.foldlM (mergeInput flow selector workerSelection) (task, actions) =
      .ok result) :
    (∀ x ∈ entities, Settled result.1.inputs x) ∧
      (result = (task, actions) ∨ ∃ x, MergeStep flow selector task actions x result) := by
  let I : List InputEntity → TaskConfig × Actions → Prop := fun done state =>
    (state = (task, actions) ∧ ∀ x ∈ done, x.id ≠ entityID) ∨
      ∃ x ∈ done, x.id = entityID ∧ MergeStep flow selector task actions x state
  have hloop : I entities result := by
    refine foldlM_zipIdx_invariant (I := I) h (Or.inl ⟨rfl, by simp⟩) ?_
    intro done entity rest i state next hsplit hI hnext
    have hmem : entity ∈ entities := by
      rw [hsplit]
      simp
    rcases hI with ⟨rfl, hbefore⟩ | ⟨x, hx, hid, hstep⟩
    · by_cases hone : entity.id = entityID
      · exact Or.inr ⟨entity, by simp, hone, mergeInput_cases hnext⟩
      · have hkept : mergeInput flow selector workerSelection (task, actions) (entity, i) =
            .ok (task, actions) := mergeInput_settled htype (hs _ hmem hone)
        rw [hkept] at hnext
        refine Or.inl ⟨(Except.ok.inj hnext).symm, fun y hy => ?_⟩
        rcases List.mem_append.mp hy with hy | hy
        · exact hbefore y hy
        · rw [List.mem_singleton.mp hy]
          exact hone
    · have hne : entity.id ≠ entityID := by
        rintro heq
        rw [hsplit, List.map_append, List.nodup_append] at hids
        exact hids.2.2 x.id (List.mem_map_of_mem hx) entity.id (by simp) (hid.trans heq.symm)
      have hsettled := (hstep.settled htype hnd).2 entity (hid ▸ hne) (hs _ hmem hne)
      rw [mergeInput_settled htype hsettled] at hnext
      rw [← Except.ok.inj hnext]
      exact Or.inr ⟨x, List.mem_append_left _ hx, hid, hstep⟩
  rcases hloop with ⟨rfl, hnone⟩ | ⟨x, hx, hid, hstep⟩
  · exact ⟨fun y hy => hs y hy (hnone y hy), Or.inl rfl⟩
  · obtain ⟨hself, hothers⟩ := hstep.settled htype hnd
    refine ⟨fun y hy => ?_, Or.inr ⟨x, hstep⟩⟩
    by_cases hyx : y.id = x.id
    · obtain rfl : y = x := List.inj_on_of_nodup_map hids hy hx hyx
      exact hself
    · exact hothers y hyx (hs y hy (hid ▸ hyx))

end Merge

theorem search_located {subscriptions : GoMap InputSubscription} {g : GroupInfo}
    {subRank : String → Nat} {regRank : String → String → Nat} {entities : List InputEntity}
    (hs : Streams subscriptions) (ht : Typed type subscriptions)
    (hv : ∀ subID sub, subscriptions.get subID = some sub →
      ∃ v, g.get (groupedKey sub.inputSelector) = some v)
    (h : searchRelevantEntities subscriptions g subRank regRank = .ok entities) :
    Located subscriptions entities := by
  rw [search_eq hs ht hv] at h
  intro x hx subID sub r hsub hr
  rw [← Except.ok.inj h, List.mem_flatMap] at hx
  obtain ⟨⟨subID', sub'⟩, hmem, hx⟩ := hx
  have hsub' := GoMap.mem_range.mp hmem
  obtain ⟨⟨k, r'⟩, hr', rfl⟩ := List.mem_map.mp hx
  have hget := GoMap.mem_range.mp (List.mem_filter.mp hr').1
  have hkey : (inputEntity sub'.inputSelector r' (locationOf r')).id = k := by
    simp [inputEntity, hs.notByType _ _ hsub', (ht _ _ hsub' k r' hget).1]
  rw [hkey] at hr
  have hsame : subID' = subID := by
    refine hs.distinct _ _ _ _ hsub' hsub ?_
    rw [← (ht _ _ hsub' k r' hget).2.1, (ht _ _ hsub k r hr).2.1]
  subst hsame
  obtain rfl := Option.some.inj (hsub.symm.trans hsub')
  rw [← Option.some.inj (hget.symm.trans hr)]
  rfl

-- what the entities of a group do to its task at most
structure Once (flow : FogFlow) (id : String) (new : Actions) : Prop where
  nodup : (adds new).Nodup
  own : ∀ added ∈ adds new, added = id
  inputs : ∀ flowInfo, some (.addInput flowInfo) ∈ new → flowInfo.taskInstanceID = id ∧
    assigned flow id = some flowInfo.workerID ∧ adds new = []

theorem once_nil (flow : FogFlow) (id : String) : Once flow id [] :=
  ⟨List.nodup_nil, by simp [adds], by simp⟩

theorem not_input_of_removeTaskAction {flow : FogFlow} {task : TaskConfig} {flowInfo : FlowInfo} :
    some (.addInput flowInfo) ∉ removeTaskAction flow task := by
  unfold removeTaskAction
  split_ifs
  · cases hd : flow.deploymentPlan.get task.taskID <;> simp [removeExistingTask, hd]
  · exact List.not_mem_nil

theorem MergeStep.once {flow before : FogFlow} {selector : InputStreamConfig} {task : TaskConfig}
    {actions : Actions} {entity : InputEntity} {next : TaskConfig × Actions} {h : String}
    (hr : Ready before) (hplan : before.executionPlan.get h = some task)
    (hdep : flow.deploymentPlan = before.deploymentPlan)
    (hstep : MergeStep flow selector task actions entity next) :
    ∃ new, next.2 = actions ++ new ∧ Once before task.taskID new := by
  cases hstep with
  | added deployed hisNew hdeployed =>
    refine ⟨_, rfl, List.nodup_nil, fun added hin => absurd hin List.not_mem_nil,
      fun flowInfo hin => ?_⟩
    obtain ⟨scheduled, hs, hworker, -⟩ := hr.deployed h task hplan
    rw [hdep, hs] at hdeployed
    obtain rfl := DeploymentAction.addInput.inj (Option.some.inj (List.mem_singleton.mp hin))
    rw [hr.assigned hplan, ← hworker, Option.some.inj hdeployed]
    exact ⟨rfl, rfl, rfl⟩
  | kept hold => exact ⟨[], (List.append_nil _).symm, once_nil _ _⟩
  | migrated workerID hold hmoved hworker =>
    refine ⟨_, List.append_assoc _ _ _, ?_, ?_, fun flowInfo hin => ?_⟩
    · rw [adds_append, adds_removeTaskAction]
      exact List.nodup_singleton _
    · rw [adds_append, adds_removeTaskAction]
      exact fun added hin => List.mem_singleton.mp hin
    · rcases List.mem_append.mp hin with hin | hin
      · exact absurd hin not_input_of_removeTaskAction
      · simp [addNewTask] at hin

-- no entity but this one is new or has moved
structure Stays (marshal : GroupValue → String) (flow : FogFlow) (entityID : String) : Prop where
  known : ∀ g task, Combination flow.subscriptions g →
    flow.executionPlan.get (groupHash marshal g) = some task →
      ∀ id, id ≠ entityID → Matching flow.subscriptions g id →
        id ∈ task.inputs.map InputEntity.id
  located : ∀ h task, flow.executionPlan.get h = some task → ∀ input ∈ task.inputs,
    input.id ≠ entityID → ∀ subID sub r, flow.subscriptions.get subID = some sub →
      sub.receivedEntityRegistrations.get input.id = some r → input.location = locationOf r

-- no task is added twice, and inputs go to the tasks that stay where they are
structure Steady (marshal : GroupValue → String) (flow : FogFlow) (groups : List GroupInfo)
    (state : FogFlow × Actions) : Prop where
  nodup : (adds state.2).Nodup
  addedBy : ∀ id ∈ adds state.2, ∃ g ∈ groups, groupHash marshal g = lastItem id
  inputs : ∀ flowInfo, some (.addInput flowInfo) ∈ state.2 →
    assigned flow flowInfo.taskInstanceID = some flowInfo.workerID ∧
    flowInfo.taskInstanceID ∉ adds state.2 ∧
    ∃ g ∈ groups, groupHash marshal g = lastItem flowInfo.taskInstanceID
  located : ∀ g ∈ groups, ∀ task, state.1.executionPlan.get (groupHash marshal g) = some task →
    Located flow.subscriptions task.inputs

theorem steady_nil (flow : FogFlow) : Steady marshal flow [] (flow, []) :=
  ⟨List.nodup_nil, by simp [adds], by simp, by simp⟩

section Steady

variable {flow : FogFlow} {groups : List GroupInfo} {state : FogFlow × Actions} {g : GroupInfo}
  {task : TaskConfig} {new : Actions}

theorem Steady.put (h : Steady marshal flow groups state)
    (hfresh : ∀ g' ∈ groups, groupHash marshal g' ≠ groupHash marshal g)
    (hkey : lastItem task.taskID = groupHash marshal g) (honce : Once flow task.taskID new)
    (hlocated : Located flow.subscriptions task.inputs) :
    Steady marshal flow (groups ++ [g])
      (state.1.putTask (groupHash marshal g) task, state.2 ++ new) := by
  have hnotmem : task.taskID ∉ adds state.2 := by
    intro hmem
    obtain ⟨g', hg', hhash⟩ := h.addedBy _ hmem
    exact hfresh g' hg' (hhash.trans hkey)
  refine ⟨?_, ?_, ?_, ?_⟩
  · rw [adds_append, List.nodup_append]
    refine ⟨h.nodup, honce.nodup, fun a ha b hb => ?_⟩
    rintro rfl
    exact hnotmem (honce.own a hb ▸ ha)
  · intro id hid
    rw [adds_append, List.mem_append] at hid
    rcases hid with hid | hid
    · obtain ⟨g', hg', hhash⟩ := h.addedBy id hid
      exact ⟨g', List.mem_append_left _ hg', hhash⟩
    · exact ⟨g, by simp, by rw [honce.own id hid, hkey]⟩
  · intro flowInfo hin
    rw [adds_append, List.mem_append]
    rcases List.mem_append.mp hin with hin | hin
    · obtain ⟨hassigned, hnot, g', hg', hhash⟩ := h.inputs flowInfo hin
      refine ⟨hassigned, ?_, g', List.mem_append_left _ hg', hhash⟩
      rintro (hmem | hmem)
      · exact hnot hmem
      · rw [honce.own _ hmem, hkey] at hhash
        exact hfresh g' hg' hhash
    · obtain ⟨hid, hassigned, hnil⟩ := honce.inputs flowInfo hin
      rw [hid, hnil]
      refine ⟨hassigned, ?_, g, by simp, hkey.symm⟩
      rintro (hmem | hmem)
      · exact hnotmem hmem
      · exact List.not_mem_nil hmem
  · intro g' hg' t ht
    rw [FogFlow.putTask, GoMap.get_set] at ht
    split_ifs at ht with heq
    · rw [← Option.some.inj ht]
      exact hlocated
    · rcases List.mem_append.mp hg' with hg' | hg'
      · exact h.located g' hg' t ht
      · rw [List.mem_singleton.mp hg'] at heq
        exact absurd rfl heq

-- one more group keeps the event steady when only one entity can be new to it or have moved
theorem Steady.step {entityID : String} {selector : InputStreamConfig} {i : Nat}
    {next : FogFlow × Actions} (hs : Streams flow.subscriptions)
    (ht : Typed type flow.subscriptions) (hr : Ready flow) (hexp : Expandable marshal flow)
    (hstays : Stays marshal flow entityID)
    (hbt : selector.isSimpleByType = false) (hg : Combination flow.subscriptions g)
    (hfresh : ∀ g' ∈ groups, groupHash marshal g' ≠ groupHash marshal g)
    (hexpanded : Expanded marshal flow groups state) (h : Steady marshal flow groups state)
    (hstep : GroupExpansion marshal choices selector state.1 state.2 g i next)
    (hnext : Expanded marshal flow (groups ++ [g]) next) :
    Steady marshal flow (groups ++ [g]) next := by
  have hsubs := hexpanded.frame.subscriptions
  have hvalue : ∀ subID sub, flow.subscriptions.get subID = some sub →
      ∃ v, g.get (groupedKey sub.inputSelector) = some v :=
    fun subID sub hsub => (hg.value subID sub hsub).imp (fun _ hv => hv.1)
  have hplan := hexpanded.untouched (groupHash marshal g) hfresh
  have hfound : ∀ entities, searchRelevantEntities state.1.subscriptions g (choices.subRank i)
      (choices.regRank i) = .ok entities →
      Located flow.subscriptions entities ∧ ExactInputs flow.subscriptions g entities := by
    intro entities hsearch
    rw [hsubs] at hsearch
    refine ⟨search_located hs ht hvalue hsearch, ?_⟩
    obtain ⟨entities', hsearch', hexact⟩ := exactInputs_search hs ht hvalue (choices.subRank i)
      (choices.regRank i)
    rw [Except.ok.inj (hsearch.symm.trans hsearch')]
    exact hexact
  cases hstep with
  | merged task entities result hsearch hget hmerge =>
    rw [getHash_eq] at hget
    have hold := hplan.symm.trans hget
    obtain ⟨hlocated, hexact⟩ := hfound entities hsearch
    obtain ⟨c, -, -, hnd, -⟩ := hexp.known _ _ hold
    have hsettled : ∀ x ∈ entities, x.id ≠ entityID → Settled task.inputs x := by
      intro x hx hne
      have hmatch := (hexact.2 x.id).mp (List.mem_map_of_mem hx)
      refine ⟨hstays.known g task hg hold x.id hne hmatch, fun input hin hid => ?_⟩
      obtain ⟨subID, sub, hsub, hheld, -⟩ := hmatch
      obtain ⟨r, hr⟩ := Option.ne_none_iff_exists'.mp hheld
      rw [hlocated x hx subID sub r hsub hr]
      exact hstays.located _ task hold input hin (hid ▸ hne) subID sub r hsub (hid ▸ hr)
    obtain ⟨hall, hone⟩ := merge_once hbt hnd hexact.1 hsettled hmerge
    have honce : ∃ new, result.2 = state.2 ++ new ∧ Once flow task.taskID new := by
      rcases hone with rfl | ⟨x, hx⟩
      · exact ⟨[], (List.append_nil _).symm, once_nil _ _⟩
      · exact hx.once hr hold hexpanded.frame.deploymentPlan
    obtain ⟨new, hnew, honce⟩ := honce
    have htaskID : result.1.taskID = task.taskID := by
      rcases hone with rfl | ⟨x, hx⟩
      · rfl
      · cases hx <;> rfl
    rw [getHash_eq, hnew]
    refine h.put hfresh (htaskID ▸ hexp.key _ _ hold) (htaskID ▸ honce) ?_
    intro input hin subID sub r hsub hget
    obtain ⟨t, ht', hexact'⟩ := hnext.done g (by simp)
    rw [getHash_eq, FogFlow.putTask, GoMap.get_set_self] at ht'
    obtain rfl := Option.some.inj ht'
    have hmem := (hexact'.2 input.id).mp (List.mem_map_of_mem hin)
    obtain ⟨x, hx, hid⟩ := List.mem_map.mp ((hexact.2 input.id).mpr hmem)
    rw [(hall x hx).2 input hin hid.symm]
    exact hlocated x hx subID sub r hsub (hid.symm ▸ hget)
  | created task hsearch htask hget =>
    have hkey : lastItem task.taskID = groupHash marshal g := by
      rw [htask, ← getHash_eq (choices.hashRank i 0)]
      exact lastItem_taskID _ _ _ _ _
    rw [getHash_eq]
    refine h.put hfresh hkey ⟨List.nodup_singleton _, fun added hin => ?_, ?_⟩
      (hfound task.inputs hsearch).1
    · exact List.mem_singleton.mp hin
    · simp [addNewTask]

end Steady

theorem expandExecutionPlan_steady {flow : FogFlow} {subID entityID : String}
    {sub : InputSubscription} {result : FogFlow × Actions} (hs : Streams flow.subscriptions)
    (ht : Typed type flow.subscriptions) (htab : Tabulated flow.subscriptions flow.uniqueKeys)
    (havail : Available flow.subscriptions) (hno : NoCollision marshal flow.subscriptions)
    (hexp : Expandable marshal flow) (hr : Ready flow) (hstays : Stays marshal flow entityID)
    (hsub : flow.subscriptions.get subID = some sub)
    (hheld : sub.receivedEntityRegistrations.get entityID ≠ none)
    (h : expandExecutionPlan marshal choices flow entityID sub = .ok result) :
    ∃ groups, Relevant flow.subscriptions (groupedKey sub.inputSelector)
        (ownValue sub entityID) groups ∧
      Expanded marshal flow groups result ∧ Steady marshal flow groups result := by
  have hrel := relevant_product htab havail hs hsub (admissible_ownValue hheld) choices.keyRank
  rw [expandExecutionPlan, getRelevantGroups_eq (valueOf_eq hs ht hsub hheld), ok_bind] at h
  generalize product (groupedKey sub.inputSelector) (ownValue sub entityID)
    (flow.uniqueKeys.range choices.keyRank) = groups at hrel h
  have hloop := foldlM_zipIdx_invariant (I := fun done state =>
    Expanded marshal flow done state ∧ Steady marshal flow done state) h
    ⟨expanded_nil hexp, steady_nil flow⟩ ?_
  · exact ⟨groups, hrel, hloop⟩
  · rintro done g rest i state next hsplit ⟨hexpanded, hsteady⟩ hnext
    have hpair := hrel.distinct
    rw [hsplit, List.pairwise_append] at hpair
    have hg := hrel.combination g (by rw [hsplit]; simp)
    have hbefore : ∀ g' ∈ done, Combination flow.subscriptions g' ∧ ¬ SameGroup g' g :=
      fun g' hg' => ⟨hrel.combination g' (by rw [hsplit]; exact List.mem_append_left _ hg'),
        hpair.2.2 g' hg' g List.mem_cons_self⟩
    have hfresh : ∀ g' ∈ done, groupHash marshal g' ≠ groupHash marshal g :=
      fun g' hg' heq => (hbefore g' hg').2 (hno g' g (hbefore g' hg').1 hg heq)
    have hbt := hs.notByType _ _ hsub
    have hstep : ∃ next, expandGroup marshal choices sub.inputSelector state (g, i) = .ok next ∧
        Expanded marshal flow (done ++ [g]) next :=
      expanded_step i hs ht hno hexp hbt hg hbefore hexpanded
    obtain ⟨next', hnext', hexpanded'⟩ := hstep
    obtain rfl := Except.ok.inj (hnext.symm.trans hnext')
    exact ⟨hexpanded', hsteady.step hs ht hr hexp hstays hbt hg hfresh hexpanded
      (expandGroup_cases hnext) hexpanded'⟩

-- all inputs are where their entities have been registered last
def Placed (flow : FogFlow) : Prop :=
  ∀ h task, flow.executionPlan.get h = some task → Located flow.subscriptions task.inputs

theorem matching_of_receive {subscriptions : GoMap InputSubscription} {subID : String}
    {sub : InputSubscription} {r : EntityRegistration} {g : GroupInfo} {id : String}
    (hs : Streams subscriptions) (hsub : subscriptions.get subID = some sub) (hne : id ≠ r.id)
    (h : Matching (subscriptions.set subID (receive sub r)) g id) :
    Matching subscriptions g id := by
  obtain ⟨k, other, hother, hheld, hmatch⟩ := h
  rw [GoMap.get_set] at hother
  split_ifs at hother
  · obtain rfl := Option.some.inj hother
    rw [MatchesGroup, receive_inputSelector] at hmatch
    exact ⟨subID, sub, hsub,
      ((held_receive_iff (hs.notByType _ _ hsub)).mp hheld).resolve_left hne, hmatch⟩
  · exact ⟨k, other, hother, hheld, hmatch⟩

theorem located_of_receive {subscriptions : GoMap InputSubscription} {subID : String}
    {sub : InputSubscription} {r : EntityRegistration} {inputs : List InputEntity}
    (hs : Streams subscriptions) (hsub : subscriptions.get subID = some sub)
    (h : Located subscriptions inputs) : ∀ input ∈ inputs, input.id ≠ r.id →
      ∀ k other reg, (subscriptions.set subID (receive sub r)).get k = some other →
        other.receivedEntityRegistrations.get input.id = some reg →
          input.location = locationOf reg := by
  intro input hin hne k other reg hother hreg
  rw [GoMap.get_set] at hother
  split_ifs at hother
  · obtain rfl := Option.some.inj hother
    have hkey : input.id ≠ receivedKey sub r.id := by
      rw [receivedKey_eq (hs.notByType _ _ hsub)]
      exact hne
    rw [get_receive_ne hkey] at hreg
    exact h input hin subID sub reg hsub hreg
  · exact h input hin k other reg hother hreg

section Received

variable {flow : FogFlow} {subID : String} {sub : InputSubscription} {r : EntityRegistration}
  {uniqueKeys : GoMap (List GroupValue)} (h : Covered marshal type flow)
  (hsub : flow.subscriptions.get subID = some sub)
include h hsub

theorem stays_receive (hplaced : Placed flow)
    (hno : NoCollision marshal (flow.subscriptions.set subID (receive sub r))) :
    Stays marshal { flow.putSubscription subID (receive sub r) with uniqueKeys := uniqueKeys }
      r.id := by
  constructor
  · intro g task hg hk id hne hmatch
    obtain ⟨c, hc, hhash, hexact⟩ := h.exact hk
    have hsame := hno c g (combination_mono h.streams hsub hc) hg hhash
    have hold := matching_of_receive h.streams hsub hne hmatch
    exact (hexact.2 id).mpr ((matching_congr hsame id).mpr hold)
  · exact fun k task hk => located_of_receive h.streams hsub (hplaced k task hk)

-- a task that the loop has not visited does not have the received entity among its inputs
theorem unvisited_of_untouched (htype : type r.id = sub.inputSelector.entityType)
    {groups : List GroupInfo}
    (hrel : Relevant (flow.subscriptions.set subID (receive sub r))
      (groupedKey sub.inputSelector) (ownValue sub r.id) groups)
    {k : String} {task : TaskConfig} (hk : flow.executionPlan.get k = some task)
    (hnot : ∀ g ∈ groups, groupHash marshal g ≠ k) :
    ∀ input ∈ task.inputs, input.id ≠ r.id := by
  rintro input hin heq
  obtain ⟨c, hc, rfl, hexact⟩ := h.exact hk
  obtain ⟨k', other, hother, hheld, hmatch⟩ :=
    (hexact.2 input.id).mp (List.mem_map_of_mem hin)
  obtain ⟨reg, hreg⟩ := Option.ne_none_iff_exists'.mp hheld
  have hsame : k' = subID := by
    refine h.streams.distinct _ _ _ _ hother hsub ?_
    rw [← (h.typed _ _ hother _ reg hreg).2.1, heq, htype]
  subst hsame
  obtain rfl := Option.some.inj (hother.symm.trans hsub)
  have hown : c.get (groupedKey other.inputSelector) = some (ownValue other r.id) := by
    rcases hmatch with hall | hvalue
    · obtain ⟨v, hv, hadm⟩ := hc.value _ _ hother
      rw [hv]
      simpa [Admissible, ownValue, hall] using hadm
    · obtain ⟨v, hv, hadm⟩ := hc.value _ _ hother
      unfold ownValue
      split_ifs with hall
      · rw [hv]
        simpa [Admissible, hall] using hadm
      · rw [hvalue, heq]
  obtain ⟨g, hg, hgroup⟩ := hrel.complete c (combination_mono h.streams hsub hc) hown
  refine hnot g hg ?_
  rw [groupHash, groupHash, getHash_congr hgroup.symm]

end Received

-- the actions of an event move no task twice, and give inputs to tasks that stay
structure Calm (flow : FogFlow) (actions : Actions) : Prop where
  nodup : (adds actions).Nodup
  inputs : ∀ flowInfo, some (.addInput flowInfo) ∈ actions →
    assigned flow flowInfo.taskInstanceID = some flowInfo.workerID ∧
    flowInfo.taskInstanceID ∉ adds actions

theorem calm_nil (flow : FogFlow) : Calm flow [] := ⟨List.nodup_nil, by simp⟩

theorem orchestration_calm {flow : FogFlow} {e : Event} (h : Covered marshal type flow)
    (hr : Ready flow) (hplaced : Placed flow) (he : Announces type flow.subscriptions e)
    (hno : NoCollision marshal (receiveEvent flow.subscriptions e)) :
    ∃ before state, SamePlans flow before ∧
      metadataDrivenTaskOrchestration marshal e.choices flow e.subID e.entityAction
        e.registeredEntity = .ok state ∧
      Expanding before state ∧ Calm before state.2 ∧ Placed state.1 := by
  simp only [receiveEvent] at hno
  cases hsub : flow.subscriptions.get e.subID with
  | none =>
    refine ⟨flow, (flow, []), ⟨rfl, rfl⟩, ?_, expanding_nil hr, calm_nil _, hplaced⟩
    simp [metadataDrivenTaskOrchestration, hsub]
  | some sub =>
    simp only [hsub] at hno
    have htype := he.typed sub hsub
    obtain ⟨uniqueKeys, hrec⟩ := receives_of_announced h he hsub
    have hready : Ready (withReceived flow e sub uniqueKeys) :=
      hr.received e.subID (receive sub e.registeredEntity) uniqueKeys
    by_cases havail : Available (flow.subscriptions.set e.subID (receive sub e.registeredEntity))
    · have hexpandable : Expandable marshal (withReceived flow e sub uniqueKeys) :=
        expandable_receive h hsub
      have htotal : ∃ groups state, expandExecutionPlan marshal e.choices
          (withReceived flow e sub uniqueKeys) e.registeredEntity.id
            (receive sub e.registeredEntity) = .ok state ∧
          Relevant (withReceived flow e sub uniqueKeys).subscriptions
            (groupedKey (receive sub e.registeredEntity).inputSelector)
            (ownValue (receive sub e.registeredEntity) e.registeredEntity.id) groups ∧
          Expanded marshal (withReceived flow e sub uniqueKeys) groups state :=
        expanded_expandExecutionPlan hrec.streams hrec.typed hrec.tabulated havail hno hexpandable
          (GoMap.get_set_self _ _ _) hrec.held
      obtain ⟨-, state, hstate, -⟩ := htotal
      obtain ⟨groups, hrel, hexpanded, hsteady⟩ := expandExecutionPlan_steady hrec.streams
        hrec.typed hrec.tabulated havail hno hexpandable hready (stays_receive h hsub hplaced hno)
        (GoMap.get_set_self _ _ _) hrec.held hstate
      rw [receive_inputSelector, ownValue_receive] at hrel
      refine ⟨withReceived flow e sub uniqueKeys, state, ⟨rfl, rfl⟩,
        (hrec.expands havail).trans hstate, expanding_expandExecutionPlan hready hstate,
        ⟨hsteady.nodup, fun flowInfo hin => ?_⟩, ?_⟩
      · obtain ⟨hassigned, hnot, -⟩ := hsteady.inputs flowInfo hin
        exact ⟨hassigned, hnot⟩
      · intro k task hk
        rw [hexpanded.frame.subscriptions]
        by_cases hin : ∃ g ∈ groups, groupHash marshal g = k
        · obtain ⟨g, hg, rfl⟩ := hin
          exact hsteady.located g hg task hk
        · have hnot : ∀ g ∈ groups, groupHash marshal g ≠ k := fun g hg heq => hin ⟨g, hg, heq⟩
          rw [hexpanded.untouched k hnot] at hk
          have hunvisited := unvisited_of_untouched h hsub htype hrel hk hnot
          exact fun input hin => located_of_receive h.streams hsub (hplaced k task hk) input hin
            (hunvisited input hin)
    · obtain ⟨horch, hempty⟩ := hrec.waits havail
      refine ⟨withReceived flow e sub uniqueKeys, (withReceived flow e sub uniqueKeys, []),
        ⟨rfl, rfl⟩, horch, expanding_nil hready, calm_nil _, fun k task hk => ?_⟩
      cases (hempty k).symm.trans hk

end FogFlow.Master
