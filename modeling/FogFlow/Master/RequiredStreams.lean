import FogFlow.Master.Assignment
import FogFlow.Master.Routing

namespace FogFlow.Master

open Ngsi Datamodel Loop Execution

variable {marshal : GroupValue → String} {choices : Choices}

-- the types of the inputs cover the input streams of the task
def Supplied (intent : TaskIntent) (types : List String) : Prop :=
  ∀ stream ∈ intent.taskObject.inputStreams, stream.entityType ∈ types

theorem Supplied.mono {intent : TaskIntent} {types types' : List String} (h : Supplied intent types)
    (hsub : types ⊆ types') : Supplied intent types' :=
  fun stream hin => hsub (h stream hin)

def inputTypes (task : TaskConfig) : List String := task.inputs.map InputEntity.type

theorem checkInputsOfTaskInstance_iff {intent : TaskIntent} {task : TaskConfig} :
    checkInputsOfTaskInstance intent task = true ↔ Supplied intent (inputTypes task) := by
  simp [checkInputsOfTaskInstance, Supplied, inputTypes, List.any_eq_true]

def deployedTypes (t : ScheduledTaskInstance) : List String := t.inputs.map InputStream.type

-- every task that the actions add has an input of each required type
def AddsSupplied (intent : TaskIntent) (actions : Actions) : Prop :=
  ∀ t, some (.addTask t) ∈ actions → Supplied intent (deployedTypes t)

def PlanSupplied (intent : TaskIntent) (plan : GoMap TaskConfig) : Prop :=
  ∀ h task, plan.get h = some task → Supplied intent (inputTypes task)

theorem deployedTypes_scheduled (intent : TaskIntent) (task : TaskConfig)
    {t : ScheduledTaskInstance} (h : addNewTask intent task = .addTask t) :
    deployedTypes t = inputTypes task := by
  rw [← DeploymentAction.addTask.inj h]
  simp [deployedTypes, inputTypes, inputStream, Function.comp_def]

theorem AddsSupplied.append {intent : TaskIntent} {as bs : Actions} (ha : AddsSupplied intent as)
    (hb : AddsSupplied intent bs) : AddsSupplied intent (as ++ bs) := by
  intro t hin
  rcases List.mem_append.mp hin with hin | hin
  · exact ha t hin
  · exact hb t hin

theorem addsSupplied_addNewTask {intent : TaskIntent} (other : TaskIntent) {task : TaskConfig}
    (h : Supplied intent (inputTypes task)) :
    AddsSupplied intent [some (addNewTask other task)] := by
  intro t hin
  have heq := Option.some.inj (List.mem_singleton.mp hin)
  rw [deployedTypes_scheduled other task heq.symm]
  exact h

section Merging

theorem MergeStep.supplied {intent : TaskIntent} {flow : FogFlow} {selector : InputStreamConfig}
    {task : TaskConfig} {actions : Actions} {entity : InputEntity}
    {next : TaskConfig × Actions} (h : MergeStep flow selector task actions entity next)
    (htask : Supplied intent (inputTypes task)) (hadds : AddsSupplied intent actions) :
    Supplied intent (inputTypes next.1) ∧ AddsSupplied intent next.2 := by
  cases h with
  | added deployed _ _ =>
    refine ⟨htask.mono ?_, hadds.append (by simp [AddsSupplied])⟩
    rw [inputTypes, inputTypes, List.map_append]
    exact List.subset_append_left _ _
  | kept _ =>
    refine ⟨?_, hadds⟩
    simpa [inputTypes] using htask
  | migrated workerID _ _ _ =>
    have hmoved : Supplied intent (inputTypes { task with
        inputs := (relocate entity task.inputs).1, workerID := workerID }) := by
      simpa [inputTypes] using htask
    have hremoves : AddsSupplied intent (removeTaskAction flow { task with
        inputs := (relocate entity task.inputs).1 }) := by
      intro t hin
      have hid : t.id ∈ adds (removeTaskAction flow { task with
          inputs := (relocate entity task.inputs).1 }) := mem_adds.mpr ⟨t, hin, rfl⟩
      simp [adds_removeTaskAction] at hid
    exact ⟨hmoved, (hadds.append hremoves).append (addsSupplied_addNewTask _ hmoved)⟩

end Merging

section Searching

-- the value that the group has for the stream is that of a registration of its type which the
-- subscription still holds
def Current (subscriptions : GoMap InputSubscription) (g : GroupInfo)
    (stream : InputStreamConfig) : Prop :=
  ∃ subID sub k r, subscriptions.get subID = some sub ∧
    sub.receivedEntityRegistrations.get k = some r ∧ r.type = stream.entityType ∧
    (∀ v, g.get (groupedKey sub.inputSelector) = some v → valueOf sub k = .ok v) ∧
    (sub.inputSelector.isSimpleByType = true → ∀ subID' sub' k' r',
      subscriptions.get subID' = some sub' →
      sub'.receivedEntityRegistrations.get k' = some r' → r'.type ≠ "")

theorem value_goEq_self {v : Value} {same : Bool} (h : v.goEq v = .ok same) : same = true := by
  unfold Value.goEq at h
  split at h <;> simp_all

theorem goEq_self {v : GroupValue} {same : Bool} (h : v.goEq v = .ok same) : same = true := by
  cases v with
  | text s => simpa [GroupValue.goEq] using (Except.ok.inj h).symm
  | metadata m =>
    simp only [GroupValue.goEq, ContextMetadata.goEq, ne_eq, not_true_eq_false, if_false] at h
    obtain ⟨sameValue, hvalue, h⟩ := bind_eq_ok.mp h
    rw [value_goEq_self hvalue, if_pos rfl] at h
    exact value_goEq_self h

theorem isMatched_current {sub : InputSubscription} {g : GroupInfo} {k : String}
    {r : EntityRegistration} (hr : sub.receivedEntityRegistrations.get k = some r)
    (hv : ∀ v, g.get (groupedKey sub.inputSelector) = some v → valueOf sub k = .ok v)
    {matched : Bool} (h : isMatched r (restrictionsOf sub.inputSelector g) = .ok matched) :
    matched = true := by
  cases hg : g.get (groupedKey sub.inputSelector) with
  | none =>
    rw [restrictionsOf, hg] at h
    exact (Except.ok.inj h).symm
  | some v =>
    have hvalue := hv v hg
    have hentries : ((∅ : GoMap GroupValue).set sub.inputSelector.groupBy v).entries =
        [⟨sub.inputSelector.groupBy, v⟩] := rfl
    rw [restrictionsOf, hg] at h
    simp only [isMatched, hentries, List.foldlM_cons, List.foldlM_nil] at h
    rw [valueOf, hr] at hvalue
    split_ifs at hvalue h with hall
    · exact (Except.ok.inj h).symm
    · obtain rfl := Except.ok.inj hvalue
      obtain ⟨acc, hacc, hlast⟩ := bind_eq_ok.mp h
      obtain ⟨same, hsame, hacc⟩ := bind_eq_ok.mp hacc
      rw [goEq_self hsame] at hacc
      rw [← Except.ok.inj hlast, ← Except.ok.inj hacc]
      rfl

variable {subscriptions : GoMap InputSubscription} {g : GroupInfo}

theorem visit_finds {selector : InputStreamConfig} {entities next : List InputEntity}
    {r : EntityRegistration} (h : Visit g entities selector r next)
    (hmatched : ∀ matched, isMatched r (restrictionsOf selector g) = .ok matched → matched = true)
    (hnamed : selector.isSimpleByType = true → ∀ x ∈ entities, x.type ≠ "") :
    r.type ∈ next.map InputEntity.type := by
  cases h with
  | unmatched hfalse => cases hmatched false hfalse
  | skipped entity _ hsimple hin hempty => exact absurd hempty (hnamed hsimple entity hin)
  | listed location _ _ => simp [inputEntity]

theorem searchRelevantEntities_finds {subRank : String → Nat} {regRank : String → String → Nat}
    {entities : List InputEntity} {stream : InputStreamConfig}
    (h : searchRelevantEntities subscriptions g subRank regRank = .ok entities)
    (hcurrent : Current subscriptions g stream) :
    stream.entityType ∈ entities.map InputEntity.type := by
  obtain ⟨subID, sub, k, r, hsub, hr, htype, hvalue, hnamed⟩ := hcurrent
  have key := search_invariant (I := fun done found => (∀ x ∈ found, Found subscriptions x) ∧
    ((sub, r) ∈ done → stream.entityType ∈ found.map InputEntity.type)) h ⟨by simp, by simp⟩ ?_
  · exact key.2 (mem_visits.mpr ⟨subID, k, hsub, hr⟩)
  · rintro done visit found next subID' k' hsub' hr' ⟨hfound, hdone⟩ hvisit
    refine ⟨found_of_visit hsub' hr' hfound hvisit, fun hin => ?_⟩
    rcases List.mem_append.mp hin with hin | hin
    · exact List.map_subset _ (visit_subset hvisit) (hdone hin)
    · obtain rfl := List.mem_singleton.mp hin
      rw [← htype]
      refine visit_finds hvisit (fun _ => isMatched_current hr hvalue) ?_
      intro hsimple x hx
      obtain ⟨_, _, _, r', _, hs, hreg, rfl⟩ := hfound x hx
      exact hnamed hsimple _ _ _ r' hs hreg

end Searching

section Planning

variable {flow : FogFlow} {entityID : String} {sub : InputSubscription}
  {result : FogFlow × Actions}

theorem planSupplied_put {intent : TaskIntent} {plan : GoMap TaskConfig} {h : String}
    {task : TaskConfig} (hplan : PlanSupplied intent plan)
    (htask : Supplied intent (inputTypes task)) : PlanSupplied intent (plan.set h task) := by
  intro k other hk
  rw [GoMap.get_set] at hk
  split_ifs at hk
  · rw [← Option.some.inj hk]
    exact htask
  · exact hplan k other hk

theorem mergeInputs_supplied {intent : TaskIntent} {selector : InputStreamConfig}
    {workerSelection : Nat → List Point → String} {task : TaskConfig} {actions : Actions}
    {entities : List InputEntity} {merged : TaskConfig × Actions}
    (h : entities.zipIdx.foldlM (mergeInput flow selector workerSelection) (task, actions) =
      .ok merged)
    (htask : Supplied intent (inputTypes task)) (hadds : AddsSupplied intent actions) :
    Supplied intent (inputTypes merged.1) ∧ AddsSupplied intent merged.2 :=
  foldlM_invariant (I := fun _ state => Supplied intent (inputTypes state.1) ∧
    AddsSupplied intent state.2) h ⟨htask, hadds⟩
    (fun _ _ _ _ _ _ hI hnext => (mergeInput_cases hnext).supplied hI.1 hI.2)

theorem expandExecutionPlan_supplied
    (h : expandExecutionPlan marshal choices flow entityID sub = .ok result)
    (hplan : PlanSupplied flow.intent flow.executionPlan)
    (hcurrent : ∀ groups, getRelevantGroups choices.keyRank flow.uniqueKeys sub entityID =
      .ok groups → ∀ g ∈ groups, flow.executionPlan.get (groupHash marshal g) = none →
        ∀ stream ∈ flow.intent.taskObject.inputStreams, Current flow.subscriptions g stream) :
    PlanSupplied flow.intent result.1.executionPlan ∧ AddsSupplied flow.intent result.2 := by
  obtain ⟨groups, hgroups, h⟩ := bind_eq_ok.mp h
  have key := foldlM_zipIdx_invariant (I := fun _ state => PlanOnly flow state.1 ∧
    (∀ k, state.1.executionPlan.get k = none → flow.executionPlan.get k = none) ∧
      PlanSupplied flow.intent state.1.executionPlan ∧ AddsSupplied flow.intent state.2) h
    ⟨.refl flow, fun _ hk => hk, hplan, by simp [AddsSupplied]⟩ ?_
  · exact key.2.2
  rintro done g rest i state next hsplit ⟨hframe, hgrows, hplanned, hadds⟩ hnext
  have hin : g ∈ groups := by simp [hsplit]
  have hcases := expandGroup_cases hnext
  have hkept : ∀ k task, (state.1.executionPlan.set
      (getHash marshal (choices.hashRank i 0) g) task).get k = none →
        flow.executionPlan.get k = none := by
    intro k task hk
    rw [GoMap.get_set] at hk
    split_ifs at hk
    exact hgrows k hk
  refine ⟨hframe.trans (planOnly_groupExpansion hcases), ?_⟩
  cases hcases with
  | merged task entities merged hsearch hold hmerge =>
    obtain ⟨htask, hmore⟩ := mergeInputs_supplied hmerge (hplanned _ task hold) hadds
    exact ⟨fun k hk => hkept k _ hk, planSupplied_put hplanned htask, hmore⟩
  | created task hsearch hnew hnone =>
    have hnone' : flow.executionPlan.get (groupHash marshal g) = none := by
      rw [getHash_eq] at hnone
      exact hgrows _ hnone
    have htask : Supplied flow.intent (inputTypes task) := by
      intro stream hstream
      rw [hframe.subscriptions] at hsearch
      exact searchRelevantEntities_finds hsearch
        (hcurrent groups hgroups g hin hnone' stream hstream)
    exact ⟨fun k hk => hkept k _ hk, planSupplied_put hplanned htask,
      hadds.append (addsSupplied_addNewTask _ htask)⟩

theorem removeExecutionPlan_supplied
    (h : removeExecutionPlan marshal choices flow entityID sub = .ok result)
    (hplan : PlanSupplied flow.intent flow.executionPlan) :
    PlanSupplied flow.intent result.1.executionPlan ∧ AddsSupplied flow.intent result.2 := by
  obtain ⟨groups, -, h⟩ := bind_eq_ok.mp h
  have key := foldlM_invariant (I := fun _ state => PlanOnly flow state.1 ∧
    PlanSupplied flow.intent state.1.executionPlan ∧ AddsSupplied flow.intent state.2) h
    ⟨.refl flow, hplan, by simp [AddsSupplied]⟩ ?_
  · exact key.2
  rintro done ⟨g, i⟩ rest state next - ⟨hframe, hplanned, hadds⟩ hnext
  have hcases := removeGroup_cases hnext
  refine ⟨hframe.trans (planOnly_groupRemoval hcases), ?_⟩
  cases hcases with
  | absent _ => exact ⟨hplanned, hadds⟩
  | removed task hget hcheck =>
    refine ⟨fun k other hk => ?_, hadds.append ?_⟩
    · exact hplanned k other (GoMap.get_of_get_delete hk).2
    · intro t hin
      obtain ⟨action, haction, heq⟩ := List.mem_map.mp hin
      obtain ⟨deployed, -, rfl⟩ := Option.map_eq_some_iff.mp (Option.mem_toList.mp haction)
      simp at heq
  | reduced task deployed hget hcheck _ =>
    rw [hframe.intent, checkInputsOfTaskInstance_iff] at hcheck
    exact ⟨planSupplied_put hplanned hcheck, hadds.append (by simp [AddsSupplied])⟩

end Planning

-- every planned task and every task deployed for the last event has an input of each required type
structure StreamsPresent (s : Traced) : Prop where
  planned : ∀ h task, s.flow.executionPlan.get h = some task →
    checkInputsOfTaskInstance s.flow.intent task = true
  deployed : ∀ t, .deployTask t ∈ s.commands →
    ∀ stream ∈ s.flow.intent.taskObject.inputStreams,
      ∃ input ∈ t.inputs, input.type = stream.entityType

-- no new combination of the event has a value that its stream has lost
def Stocked (marshal : GroupValue → String) (s : Traced) (e : Event) : Prop :=
  e.entityAction ≠ .delete → ∀ sub, s.flow.subscriptions.get e.subID = some sub →
    checkInputAvailability (s.flow.subscriptions.set e.subID (receive sub e.registeredEntity)) =
      true →
    ∀ groups, visitedGroups s.flow e = .ok groups → ∀ g ∈ groups,
      s.flow.executionPlan.get (groupHash marshal g) = none →
        ∀ stream ∈ s.flow.intent.taskObject.inputStreams,
          Current (s.flow.subscriptions.set e.subID (receive sub e.registeredEntity)) g stream

theorem added_of_runActions {selectWorker : Nat → List Point → String} {n : Nat}
    {flow next : FogFlow} {actions : Actions} {commands : List Command}
    (h : runActions selectWorker n flow actions = .ok (next, commands)) {t : ScheduledTaskInstance}
    (hin : .deployTask t ∈ commands) :
    ∃ t', some (.addTask t') ∈ actions ∧ t.inputs = t'.inputs := by
  induction actions generalizing n flow commands with
  | nil =>
    obtain ⟨-, rfl⟩ := Prod.mk.inj (Except.ok.inj h)
    cases hin
  | cons action rest ih =>
    have hrest : ∀ first, (∃ t', some (.addTask t') ∈ rest ∧ t.inputs = t'.inputs) →
        ∃ t', some (.addTask t') ∈ first :: rest ∧ t.inputs = t'.inputs :=
      fun _ ⟨t', ht', heq⟩ => ⟨t', List.mem_cons_of_mem _ ht', heq⟩
    match action with
    | none => simp [runActions] at h
    | some (.addTask taskInstance) =>
      simp only [runActions] at h
      obtain ⟨locations, -, h⟩ := bind_eq_ok.mp h
      split_ifs at h
      · obtain ⟨-, rfl⟩ := Prod.mk.inj (Except.ok.inj h)
        cases hin
      · obtain ⟨result, hr, h⟩ := bind_eq_ok.mp h
        obtain ⟨rfl, rfl⟩ := Prod.mk.inj (Except.ok.inj h)
        rcases List.mem_cons.mp hin with heq | hin
        · refine ⟨taskInstance, List.mem_cons_self, ?_⟩
          rw [Command.deployTask.inj heq]
        · exact hrest _ (ih hr hin)
    | some (.removeTask _ _) =>
      simp only [runActions] at h
      obtain ⟨result, hr, h⟩ := bind_eq_ok.mp h
      obtain ⟨rfl, rfl⟩ := Prod.mk.inj (Except.ok.inj h)
      rcases List.mem_append.mp hin with hin | hin
      · split_ifs at hin <;> simp at hin
      · exact hrest _ (ih hr hin)
    | some (.addInput _) | some (.removeInput _ _ _) =>
      simp only [runActions] at h
      obtain ⟨result, hr, h⟩ := bind_eq_ok.mp h
      obtain ⟨rfl, rfl⟩ := Prod.mk.inj (Except.ok.inj h)
      exact hrest _ (ih hr (by simpa using hin))

theorem orchestration_supplied {s : Traced} {e : Event} {result : FogFlow × Actions}
    (hplan : PlanSupplied s.flow.intent s.flow.executionPlan) (hc : Stocked marshal s e)
    (h : metadataDrivenTaskOrchestration marshal e.choices s.flow e.subID e.entityAction
      e.registeredEntity = .ok result) :
    PlanSupplied s.flow.intent result.1.executionPlan ∧ AddsSupplied s.flow.intent result.2 := by
  cases orchestration_cases h with
  | unknown _ => exact ⟨hplan, by simp [AddsSupplied]⟩
  | received _ _ _ _ _ _ => exact ⟨hplan, by simp [AddsSupplied]⟩
  | absent _ _ _ _ => exact ⟨hplan, by simp [AddsSupplied]⟩
  | forgotten _ _ _ _ _ => exact ⟨hplan, by simp [AddsSupplied]⟩
  | expanded sub uniqueKeys _ hsub hact hkeys hyes hexp =>
    have hsupplied := expandExecutionPlan_supplied hexp hplan (fun groups hgroups g hin hnone =>
      hc hact sub hsub hyes groups (visitedGroups_eq_ok hsub hkeys hgroups) g hin hnone)
    exact hsupplied
  | removed sub _ _ _ _ _ hremove => exact removeExecutionPlan_supplied hremove hplan

theorem present_step {s t : Traced} {e : Event}
    (hplan : PlanSupplied s.flow.intent s.flow.executionPlan) (hc : Stocked marshal s e)
    (hs : trace marshal s e = some t) :
    PlanSupplied t.flow.intent t.flow.executionPlan ∧ StreamsPresent t := by
  obtain ⟨orchestrated, ho, hrun, -⟩ := trace_eq_some.mp hs
  obtain ⟨hplanned, hadds⟩ := orchestration_supplied hplan hc ho
  have hsched := scheduled_runActions hrun
  have hintent : t.flow.intent = s.flow.intent :=
    hsched.intent.trans (intent_orchestration (orchestration_cases ho))
  have hplan' : PlanSupplied t.flow.intent t.flow.executionPlan := by
    intro h task htask
    have hsame := hsched.executionPlan h
    rw [htask] at hsame
    obtain ⟨task', htask', heq⟩ := Option.map_eq_some_iff.mp hsame.symm
    rw [hintent, inputTypes, ← (Prod.mk.inj heq).2]
    exact hplanned h task' htask'
  refine ⟨hplan', fun h task htask => checkInputsOfTaskInstance_iff.mpr (hplan' h task htask), ?_⟩
  intro t' hin stream hstream
  obtain ⟨added, hadded, hinputs⟩ := added_of_runActions hrun hin
  rw [hintent] at hstream
  rw [hinputs]
  exact List.mem_map.mp (hadds added hadded stream hstream)

def RequiredStreamsPresent (marshal : GroupValue → String) : Prop :=
  ∀ flow₀ events, Established flow₀ →
    (flow₀.intent.taskObject.inputStreams.map InputStreamConfig.entityType).Nodup →
    Always (trace marshal) StreamsPresent ⟨flow₀, [], []⟩ events

def carAndRoad : FogFlow :=
  exampleFlow [exampleStream "Car" "EntityID", exampleStream "Road" "EntityID"]

def forgottenCar : List Event :=
  [exampleEvent "subCar" .create "car1" "Car", exampleEvent "subCar" .delete "car1" "Car",
    exampleEvent "subCar" .create "car2" "Car", exampleEvent "subRoad" .create "road1" "Road"]

-- the first car leaves before there is a road, but its id stays among the unique keys
theorem forgotten_car_planned : ¬ RequiredStreamsPresent exampleMarshal := by
  intro h
  have hrun : (exec (trace exampleMarshal) ⟨carAndRoad, [], []⟩ forgottenCar).map (fun s =>
      s.flow.executionPlan.values.all (checkInputsOfTaskInstance s.flow.intent)) =
        some false := by
    decide +kernel
  obtain ⟨s, hs, hall⟩ := Option.map_eq_some_iff.mp hrun
  have hpresent := h carAndRoad forgottenCar (established_exampleFlow _) (by decide) forgottenCar s
    (List.prefix_refl _) hs
  rw [List.all_eq_false] at hall
  obtain ⟨task, hin, hmissing⟩ := hall
  obtain ⟨k, hk⟩ := GoMap.mem_values.mp hin
  exact hmissing (hpresent.planned k task hk)

theorem required_streams_present {flow₀ : FogFlow} {events : List Event} (h₀ : Established flow₀)
    (hm : Meets (trace marshal) (Stocked marshal) ⟨flow₀, [], []⟩ events) :
    Always (trace marshal) StreamsPresent ⟨flow₀, [], []⟩ events := by
  have hempty : PlanSupplied flow₀.intent flow₀.executionPlan := by
    simp [PlanSupplied, h₀.executionPlan]
  refine always_of_meets (I := fun _ s => PlanSupplied s.flow.intent s.flow.executionPlan ∧
    StreamsPresent s) hm ⟨hempty, ?_, by simp⟩ ?_ (fun _ _ hI => hI.2)
  · simp [h₀.executionPlan]
  · exact fun _ _ _ _ _ _ hI hc hs => present_step hI.1 hc hs

def isCurrent (subscriptions : GoMap InputSubscription) (g : GroupInfo)
    (stream : InputStreamConfig) : Bool :=
  subscriptions.entries.any (fun s => !s.2.inputSelector.isSimpleByType &&
    s.2.receivedEntityRegistrations.entries.any (fun r => r.2.type == stream.entityType &&
      (g.get (groupedKey s.2.inputSelector)).all (fun v => (valueOf s.2 r.1).toOption == some v)))

def isStocked (s : Traced) (e : Event) : Bool :=
  (s.flow.subscriptions.get e.subID).all (fun sub =>
    let subscriptions := s.flow.subscriptions.set e.subID (receive sub e.registeredEntity)
    !checkInputAvailability subscriptions ||
      (visitedGroups s.flow e).toOption.all (fun groups => groups.all (fun g =>
        s.flow.intent.taskObject.inputStreams.all (isCurrent subscriptions g))))

theorem current_of_isCurrent {subscriptions : GoMap InputSubscription} {g : GroupInfo}
    {stream : InputStreamConfig} (h : isCurrent subscriptions g stream = true) :
    Current subscriptions g stream := by
  obtain ⟨⟨subID, sub⟩, hsub, h⟩ := List.any_eq_true.mp h
  obtain ⟨hsimple, h⟩ := Bool.and_eq_true_iff.mp h
  obtain ⟨⟨k, r⟩, hr, h⟩ := List.any_eq_true.mp h
  obtain ⟨htype, hvalue⟩ := Bool.and_eq_true_iff.mp h
  refine ⟨subID, sub, k, r, GoMap.mem_entries.mp hsub, GoMap.mem_entries.mp hr,
    beq_iff_eq.mp htype, fun v hv => ?_, fun hyes => ?_⟩
  · simp only [hv, Option.all_some, beq_iff_eq] at hvalue
    cases hof : valueOf sub k with
    | error fault => simp [hof, Except.toOption] at hvalue
    | ok w =>
      rw [hof] at hvalue
      rw [Option.some.inj hvalue]
  · simp [hyes] at hsimple

theorem stocked_of_isStocked {s : Traced} {e : Event} (h : isStocked s e = true) :
    Stocked marshal s e := by
  intro _ sub hsub hyes groups hgroups g hin _ stream hstream
  rw [isStocked, hsub, Option.all_some] at h
  simp only [hyes, Bool.not_true, Bool.false_or, hgroups, Except.toOption, Option.all_some,
    List.all_eq_true] at h
  exact current_of_isCurrent (h g hin stream hstream)

def carThenRoads : List Event :=
  [exampleEvent "subCar" .create "car1" "Car", exampleEvent "subRoad" .create "road1" "Road",
    exampleEvent "subRoad" .create "road2" "Road", exampleEvent "subRoad" .delete "road1" "Road"]

theorem roads_present :
    Always (trace exampleMarshal) StreamsPresent ⟨carAndRoad, [], []⟩ carThenRoads ∧
      ∃ s, exec (trace exampleMarshal) ⟨carAndRoad, [], []⟩ carThenRoads = some s ∧
        (s.earlier ++ s.commands).length = 3 := by
  have hrun : (exec (trace exampleMarshal) ⟨carAndRoad, [], []⟩ carThenRoads).map
      (fun s => (s.earlier ++ s.commands).length) = some 3 := by
    decide +kernel
  have hm : Meets (trace exampleMarshal) (Stocked exampleMarshal) ⟨carAndRoad, [], []⟩
      carThenRoads :=
    meets_of_check (c := isStocked) (fun _ _ _ hc => stocked_of_isStocked hc) (by decide +kernel)
  exact ⟨required_streams_present (established_exampleFlow _) hm,
    Option.map_eq_some_iff.mp hrun⟩

end FogFlow.Master
