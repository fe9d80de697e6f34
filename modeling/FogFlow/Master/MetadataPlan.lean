import FogFlow.Master.ScopedGroups

namespace FogFlow.Master

open Ngsi Datamodel Loop Execution

variable {marshal : GroupValue → String} {selector : InputStreamConfig} {subID : String}
  {sub : InputSubscription} {first : EntityRegistration} {o t : Observed} {e : Event}

-- a stream by type keeps the registration that came first and plans one task for its value
structure Collapsed (marshal : GroupValue → String) (selector : InputStreamConfig)
    (subID : String) (sub : InputSubscription) (first : EntityRegistration) (o : Observed) :
    Prop where
  single : SingleStream subID sub o.flow
  selected : sub.inputSelector = selector
  received : sub.receivedEntityRegistrations.get "*" = some first
  only : ∀ k, k ≠ "*" → sub.receivedEntityRegistrations.get k = none
  decoded : Decoded first
  comparable : Comparables selector first
  planned : ∀ k, plannedInputs o.flow k =
    if k = hashOf marshal selector (valueIn selector first) then
      some [inputEntity selector first (locationOf first)]
    else none
  observed : ∃ id r, o.current.get id = some r

-- the one entity that the search finds is already the input of the planned task
theorem joined_collapsed {flow current : FogFlow} {hashID : String}
    {workerSelection : Nat → List Point → String} (hbt : selector.isSimpleByType = true)
    (entity : InputEntity) (hplan : current.executionPlan = flow.executionPlan)
    (hold : ∀ old, plannedInputs flow hashID = some old → old = [entity]) :
    Joined current selector hashID [entity] workerSelection (fun inputs => inputs = [entity]) := by
  refine ⟨fun _ => rfl, fun task htask => ?_⟩
  rw [hplan] at htask
  have hin : task.inputs = [entity] := hold _ (by simp [plannedInputs, htask])
  have hnew : isNewInput selector task entity = false := by simp [isNewInput, hbt, hin]
  have hmoved : relocate entity task.inputs = ([entity], false) := by
    rw [hin]
    simp [relocate, Point.isEqual]
  refine ⟨({ task with inputs := [entity] }, []), ?_, rfl, by simp [ActionsFor], rfl⟩
  simp only [List.zipIdx_singleton, List.foldlM_cons, List.foldlM_nil, mergeInput, hnew, hmoved,
    newOptimalWorkerID, Bool.false_eq_true, if_false, ne_eq, not_true_eq_false]
  rfl

theorem step_collapsed (hs : SingleStream subID sub o.flow) (hsel : sub.inputSelector = selector)
    (hby : ByMetadata selector) (hbt : selector.isSimpleByType = true) (hon : e.subID = subID)
    (he : Brings selector e) (hdec : Decoded first) (hcomp : Comparables selector first)
    (hfirst : (receive sub e.registeredEntity).receivedEntityRegistrations.get "*" = some first)
    (honly : ∀ k, k ≠ "*" →
      (receive sub e.registeredEntity).receivedEntityRegistrations.get k = none)
    (hold : ∀ k old, plannedInputs o.flow k = some old →
      k = hashOf marshal selector (valueIn selector first) ∧
        old = [inputEntity selector first (locationOf first)]) :
    ∃ t, observe marshal o e = some t ∧
      t.current = o.current.set e.registeredEntity.id
        (registrationAfter o.current e.registeredEntity) ∧
      Collapsed marshal selector subID (receive sub e.registeredEntity) first t := by
  have hr : (receive sub e.registeredEntity).receivedEntityRegistrations.get
      (receivedKey sub e.registeredEntity.id) = some first := by
    rw [receivedKey, hsel, if_pos hbt, hfirst]
  have hv := comparable_valueIn hby hcomp
  have hone : searchReceived selector (groupOf selector (valueIn selector first)) [] first =
      .ok [inputEntity selector first (locationOf first)] := by
    rw [searchReceived_of_isMatched (isMatched_groupOf hby hv first) hdec (by simp)]
    simp
  have hsearch : ((receive sub e.registeredEntity).receivedEntityRegistrations.range
      (e.choices.regRank 0 subID)).foldlM (fun entities x => searchReceived selector
        (groupOf selector (valueIn selector first)) entities x.2) [] =
      .ok [inputEntity selector first (locationOf first)] := by
    rw [GoMap.range_eq_singleton hfirst honly]
    simp only [List.foldlM_cons, List.foldlM_nil, hone, ok_bind]
    rfl
  have hjoined : ∀ current : FogFlow, current.executionPlan = o.flow.executionPlan →
      current.deploymentPlan = o.flow.deploymentPlan →
      Joined current selector (hashOf marshal selector (valueIn selector first))
        [inputEntity selector first (locationOf first)] (e.choices.workerSelection 0)
        (fun inputs => inputs = [inputEntity selector first (locationOf first)]) :=
    fun current hplan _ => joined_collapsed hbt _ hplan (fun old hk => (hold _ old hk).2)
  obtain ⟨next, inputs, hstep, hsingle, rfl, hplanned⟩ := step_singleStream hs hby hsel hon
    he.notDelete he.answered hr hv ⟨_, hsearch, hjoined⟩
  have hcurrent : currentAfter o e = o.current.set e.registeredEntity.id
      (registrationAfter o.current e.registeredEntity) := by
    rw [currentAfter, hon, hs.subscribed]
  refine ⟨⟨next, currentAfter o e⟩, by simp [observe, hstep], hcurrent, hsingle,
    by rw [receive_inputSelector, hsel], hfirst, honly, hdec, hcomp, fun k => ?_, ?_⟩
  · rw [hplanned]
    unfold hashOf
    split_ifs with hk
    · rfl
    · cases hplan : plannedInputs o.flow k with
      | none => rfl
      | some old => exact absurd (hold k old hplan).1 hk
  · exact ⟨_, _, by rw [hcurrent]; exact GoMap.get_set_self _ _ _⟩

-- every known entity falls into the group and the type of the registration that came first
def Uniform (marshal : GroupValue → String) (selector : InputStreamConfig)
    (first : EntityRegistration) (current : GoMap EntityRegistration) : Prop :=
  ∀ id r, current.get id = some r →
    hashOf marshal selector (valueIn selector r) =
        hashOf marshal selector (valueIn selector first) ∧
      r.type = first.type

theorem groupPlan_collapsed_iff (hbt : selector.isSimpleByType = true)
    (h : Collapsed marshal selector subID sub first o) (hno : CollisionFree marshal selector o o) :
    GroupPlan marshal selector o ↔ Uniform marshal selector first o.current := by
  have hne : ∀ k, plannedInputs o.flow k ≠ none ↔
      k = hashOf marshal selector (valueIn selector first) := by
    intro k
    rw [h.planned]
    split_ifs with hk <;> simp [hk]
  have hcovers : ∀ r, (∃ input ∈ [inputEntity selector first (locationOf first)],
      Covers selector input r) ↔ r.type = first.type := by
    intro r
    simp [Covers, hbt, inputEntity, eq_comm]
  constructor
  · intro hp id r hr
    have hhash := (hne _).mp ((hp.tasks _).mpr ⟨id, r, hr, rfl⟩)
    have hin := hp.inputs id r _ hr (by rw [h.planned, if_pos hhash]) id r hr
    exact ⟨hhash, (hcovers r).mp (hin.mpr rfl)⟩
  · intro hu
    obtain ⟨id₀, r₀, hr₀⟩ := h.observed
    refine ⟨fun k => ?_, fun id r inputs hr hins id' r' hr' => ?_,
      fun k inputs hins input hin => ?_⟩
    · rw [hne]
      constructor
      · rintro rfl
        exact ⟨id₀, r₀, hr₀, (hu id₀ r₀ hr₀).1⟩
      · rintro ⟨id, r, hr, rfl⟩
        exact (hu id r hr).1
    · rw [h.planned, if_pos (hu id r hr).1] at hins
      rw [← Option.some.inj hins, hcovers]
      exact iff_of_true (hu id' r' hr').2
        (hno _ _ _ _ hr' hr ((hu id' r' hr').1.trans (hu id r hr).1.symm))
    · rw [h.planned] at hins
      split_ifs at hins
      refine ⟨id₀, r₀, hr₀, ?_⟩
      have hall := (hcovers r₀).mpr (hu id₀ r₀ hr₀).2
      rw [← Option.some.inj hins, List.mem_singleton] at hin
      simpa [hin] using hall

-- before the first registration there is nothing but the stream
structure Waiting (selector : InputStreamConfig) (subID : String) (sub : InputSubscription)
    (o : Observed) : Prop where
  single : SingleStream subID sub o.flow
  selected : sub.inputSelector = selector
  received : sub.receivedEntityRegistrations = ∅
  current : o.current = ∅
  planned : ∀ k, plannedInputs o.flow k = none

theorem groupPlan_waiting (h : Waiting selector subID sub o) : GroupPlan marshal selector o := by
  refine ⟨fun k => ?_, ?_, ?_⟩
  · simp [h.planned, h.current]
  · intro id r inputs hr
    simp [h.current] at hr
  · intro k inputs hins
    simp [h.planned] at hins

inductive Grouped (marshal : GroupValue → String) (selector : InputStreamConfig)
    (subID : String) (o : Observed) : Prop where
  | inScope (sub : InputSubscription) : selector.isSimpleByType = false →
      ScopedGroups selector subID sub o → Grouped marshal selector subID o
  | waiting (sub : InputSubscription) : selector.isSimpleByType = true →
      Waiting selector subID sub o → Grouped marshal selector subID o
  | byType (sub : InputSubscription) (first : EntityRegistration) :
      selector.isSimpleByType = true → Collapsed marshal selector subID sub first o →
      Grouped marshal selector subID o

theorem Grouped.single (h : Grouped marshal selector subID o) :
    ∃ sub, SingleStream subID sub o.flow := by
  cases h with
  | inScope sub _ h => exact ⟨sub, h.single⟩
  | waiting sub _ h => exact ⟨sub, h.single⟩
  | byType sub _ _ h => exact ⟨sub, h.single⟩

theorem receive_first (hbt : sub.inputSelector.isSimpleByType = true)
    (hnone : sub.receivedEntityRegistrations = ∅) (r : EntityRegistration) :
    (receive sub r).receivedEntityRegistrations = (∅ : GoMap EntityRegistration).set "*" r := by
  simp [receive, receivedKey, hbt, hnone]

theorem receive_collapsed (hbt : sub.inputSelector.isSimpleByType = true)
    (hfirst : sub.receivedEntityRegistrations.get "*" = some first) (r : EntityRegistration) :
    receive sub r = sub := by
  simp [receive, receivedKey, hbt, hfirst]

theorem waiting_step (h : Waiting selector subID sub o) (hby : ByMetadata selector)
    (hbt : selector.isSimpleByType = true) (hon : e.subID = subID) (he : Brings selector e) :
    ∃ t, observe marshal o e = some t ∧
      t.current = (∅ : GoMap EntityRegistration).set e.registeredEntity.id e.registeredEntity ∧
      Collapsed marshal selector subID (receive sub e.registeredEntity) e.registeredEntity t := by
  have hreceived := receive_first (h.selected ▸ hbt) h.received e.registeredEntity
  obtain ⟨t, hstep, hcurrent, ht⟩ := step_collapsed h.single h.selected hby hbt hon he he.decoded
    he.comparable (by rw [hreceived, GoMap.get_set_self])
    (fun k hk => by rw [hreceived, GoMap.get_set_ne _ _ hk, GoMap.get_empty])
    (fun k old hk => by simp [h.planned] at hk)
  refine ⟨t, hstep, ?_, ht⟩
  rw [hcurrent, h.current]
  rfl

theorem collapsed_step (h : Collapsed marshal selector subID sub first o)
    (hby : ByMetadata selector) (hbt : selector.isSimpleByType = true) (hon : e.subID = subID)
    (he : Brings selector e) :
    ∃ t, observe marshal o e = some t ∧
      t.current = o.current.set e.registeredEntity.id
        (registrationAfter o.current e.registeredEntity) ∧
      Collapsed marshal selector subID sub first t := by
  have hsame := receive_collapsed (h.selected ▸ hbt) h.received e.registeredEntity
  have hold : ∀ k old, plannedInputs o.flow k = some old →
      k = hashOf marshal selector (valueIn selector first) ∧
        old = [inputEntity selector first (locationOf first)] := by
    intro k old hk
    rw [h.planned] at hk
    split_ifs at hk with hhash
    exact ⟨hhash, (Option.some.inj hk).symm⟩
  obtain ⟨t, hstep, hcurrent, ht⟩ := step_collapsed h.single h.selected hby hbt hon he h.decoded
    h.comparable (by rw [hsame, h.received]) (by rw [hsame]; exact h.only) hold
  exact ⟨t, hstep, hcurrent, hsame ▸ ht⟩

theorem grouped_step (h : Grouped marshal selector subID o) (hby : ByMetadata selector)
    (he : Brings selector e) :
    ∃ t, observe marshal o e = some t ∧ Grouped marshal selector subID t := by
  obtain ⟨sub₀, hsingle⟩ := h.single
  by_cases hon : e.subID = subID
  · cases h with
    | inScope sub hbt h =>
      obtain ⟨t, inputs, hstep, ht, -⟩ := scopedGroups_step h hby hbt hon he
      exact ⟨t, hstep, .inScope _ hbt ht⟩
    | waiting sub hbt h =>
      obtain ⟨t, hstep, -, ht⟩ := waiting_step h hby hbt hon he
      exact ⟨t, hstep, .byType _ _ hbt ht⟩
    | byType sub first hbt h =>
      obtain ⟨t, hstep, -, ht⟩ := collapsed_step h hby hbt hon he
      exact ⟨t, hstep, .byType _ _ hbt ht⟩
  · exact ⟨o, observe_unknown (hsingle.only _ hon), h⟩

theorem keepsGroup_scoped_iff (hbt : selector.isSimpleByType = false)
    (hsub : o.flow.subscriptions.get e.subID ≠ none) :
    KeepsGroup selector o e ↔ ∀ held, o.current.get e.registeredEntity.id = some held →
      valueIn selector (registrationAfter o.current e.registeredEntity) =
        valueIn selector held := by
  simp only [KeepsGroup, hbt, Bool.false_eq_true, if_false]
  constructor
  · exact fun h held hheld => h hsub _ held hheld rfl
  · rintro h - id held hheld rfl
    exact h held hheld

theorem uniform_set_iff (hbt : selector.isSimpleByType = true)
    (hsub : o.flow.subscriptions.get e.subID ≠ none) (hseen : ∃ id r, o.current.get id = some r)
    (hu : Uniform marshal selector first o.current)
    (hcurrent : t.current = o.current.set e.registeredEntity.id
      (registrationAfter o.current e.registeredEntity))
    (hno : CollisionFree marshal selector o t) :
    KeepsGroup selector o e ↔ Uniform marshal selector first t.current := by
  have hself : t.current.get e.registeredEntity.id =
      some (registrationAfter o.current e.registeredEntity) := by
    rw [hcurrent, GoMap.get_set_self]
  simp only [KeepsGroup, hbt, if_true]
  constructor
  · intro h id r hr
    rw [hcurrent, GoMap.get_set] at hr
    split_ifs at hr
    · obtain ⟨id₀, r₀, hr₀⟩ := hseen
      obtain ⟨hvalue, htype⟩ := h hsub id₀ r₀ hr₀
      obtain ⟨hhash, hfirst⟩ := hu id₀ r₀ hr₀
      rw [← Option.some.inj hr, hvalue, htype]
      exact ⟨hhash, hfirst⟩
    · exact hu id r hr
  · intro h _ id held hheld
    obtain ⟨hhash, htype⟩ := hu id held hheld
    obtain ⟨hhash', htype'⟩ := h _ _ hself
    exact ⟨(hno _ _ _ _ hheld hself (hhash.trans hhash'.symm)).symm, htype'.trans htype.symm⟩

-- the condition is exact at every single event
theorem keepsGroup_iff (h : Grouped marshal selector subID o) (hp : GroupPlan marshal selector o)
    (hby : ByMetadata selector) (he : Brings selector e) (hstep : observe marshal o e = some t)
    (hoo : CollisionFree marshal selector o o) (hot : CollisionFree marshal selector o t)
    (htt : CollisionFree marshal selector t t) :
    KeepsGroup selector o e ↔ GroupPlan marshal selector t := by
  obtain ⟨sub₀, hsingle⟩ := h.single
  by_cases hon : e.subID = subID
  · have hsub : o.flow.subscriptions.get e.subID ≠ none := by
      rw [hon, hsingle.subscribed]
      simp
    cases h with
    | inScope sub hbt h =>
      obtain ⟨t', inputs, hstep', ht, hr⟩ := scopedGroups_step h hby hbt hon he
      obtain rfl := Option.some.inj (hstep.symm.trans hstep')
      rw [keepsGroup_scoped_iff hbt hsub]
      exact ⟨groupPlan_regrouped hbt h.held ht.held hp hr hot htt,
        fun hp' held hheld => keeps_of_groupPlan hbt h.held ht.held hp hr hot hp' hheld⟩
    | waiting sub hbt h =>
      obtain ⟨t', hstep', hcurrent, ht⟩ := waiting_step h hby hbt hon he
      obtain rfl := Option.some.inj (hstep.symm.trans hstep')
      refine iff_of_true (fun _ id held hheld => ?_) ?_
      · simp [h.current] at hheld
      · rw [groupPlan_collapsed_iff hbt ht htt, hcurrent]
        intro id r hr
        rw [GoMap.get_set] at hr
        split_ifs at hr
        · rw [← Option.some.inj hr]
          exact ⟨rfl, rfl⟩
        · simp at hr
    | byType sub first hbt h =>
      obtain ⟨t', hstep', hcurrent, ht⟩ := collapsed_step h hby hbt hon he
      obtain rfl := Option.some.inj (hstep.symm.trans hstep')
      rw [groupPlan_collapsed_iff hbt ht htt]
      exact uniform_set_iff hbt hsub h.observed ((groupPlan_collapsed_iff hbt h hoo).mp hp)
        hcurrent hot
  · have hnone := hsingle.only _ hon
    obtain rfl := Option.some.inj ((observe_unknown hnone).symm.trans hstep)
    exact iff_of_true (fun hsub => absurd hnone hsub) hp

-- the values of the entities at any two moments of the run do not collide
def NoCollisions (marshal : GroupValue → String) (selector : InputStreamConfig) (o₀ : Observed)
    (events : List Event) : Prop :=
  ∀ js ks o t, js <+: events → ks <+: events → exec (observe marshal) o₀ js = some o →
    exec (observe marshal) o₀ ks = some t → CollisionFree marshal selector o t

theorem exec_observe (o : Observed) (events : List Event) :
    (exec (observe marshal) o events).map Observed.flow = exec (step marshal) o.flow events := by
  induction events generalizing o with
  | nil => rfl
  | cons e events ih =>
    cases hstep : step marshal o.flow e with
    | none => simp [exec, observe, hstep]
    | some flow =>
      have hnext : observe marshal o e = some ⟨flow, currentAfter o e⟩ := by
        simp [observe, hstep]
      simp only [exec, hnext, hstep, Option.bind_some]
      exact ih _

theorem grouped_established {flow : FogFlow} (h : Established flow)
    (hsub : flow.subscriptions.get subID = some sub)
    (hone : ∀ k, k ≠ subID → flow.subscriptions.get k = none) :
    Grouped marshal sub.inputSelector subID ⟨flow, ∅⟩ ∧
      GroupPlan marshal sub.inputSelector ⟨flow, ∅⟩ := by
  have hsingle : SingleStream subID sub flow :=
    ⟨⟨by simp [h.executionPlan], by simp [h.executionPlan]⟩, hsub, hone, by simp [h.uniqueKeys]⟩
  have hplanned : ∀ k, plannedInputs flow k = none := by simp [plannedInputs, h.executionPlan]
  have hwaiting : Waiting sub.inputSelector subID sub ⟨flow, ∅⟩ :=
    ⟨hsingle, rfl, h.nothingReceived _ _ hsub, rfl, hplanned⟩
  refine ⟨?_, groupPlan_waiting hwaiting⟩
  cases hbt : sub.inputSelector.isSimpleByType with
  | true => exact .waiting sub hbt hwaiting
  | false =>
    refine .inScope sub hbt ⟨hsingle, rfl, hwaiting.received, ?_, ?_⟩
    · simp [Known]
    · simp [hplanned]

theorem noCollisions_of_two {flow : FogFlow} {e₁ e₂ : Event} (values : List GroupValue)
    (hinj : ∀ v ∈ values, ∀ w ∈ values,
      hashOf marshal selector v = hashOf marshal selector w → v = w)
    (h₁ : (exec (observe marshal) ⟨flow, ∅⟩ [e₁]).any
      (fun o => o.current.values.all (fun r => valueIn selector r ∈ values)) = true)
    (h₂ : (exec (observe marshal) ⟨flow, ∅⟩ [e₁, e₂]).any
      (fun o => o.current.values.all (fun r => valueIn selector r ∈ values)) = true) :
    NoCollisions marshal selector ⟨flow, ∅⟩ [e₁, e₂] := by
  have hvalues : ∀ js o, js <+: [e₁, e₂] → exec (observe marshal) ⟨flow, ∅⟩ js = some o →
      ∀ id r, o.current.get id = some r → valueIn selector r ∈ values := by
    intro js o hp ho id r hr
    have hin : ∀ ks, (exec (observe marshal) ⟨flow, ∅⟩ ks).any
        (fun o => o.current.values.all (fun r => valueIn selector r ∈ values)) = true →
        js = ks → valueIn selector r ∈ values := by
      rintro ks hall rfl
      rw [ho, Option.any_some, List.all_eq_true] at hall
      exact of_decide_eq_true (hall r (GoMap.mem_values.mpr ⟨id, hr⟩))
    simp only [List.prefix_cons_iff, List.prefix_nil] at hp
    rcases hp with rfl | ⟨ks, rfl, rfl | ⟨ls, rfl, rfl⟩⟩
    · rw [← Option.some.inj ho] at hr
      simp at hr
    · exact hin _ h₁ rfl
    · exact hin _ h₂ rfl
  intro js ks o t hjs hks ho ht id id' r r' hr hr' hhash
  exact hinj _ (hvalues js o hjs ho id r hr) _ (hvalues ks t hks ht id' r' hr') hhash

def colorOf (color : String) : ContextMetadata := ⟨"color", "string", .string color, .null⟩

def marshalColor : GroupValue → String
  | .text s => "\"" ++ s ++ "\""
  | .metadata m => "\x7b\"name\":\"" ++ m.name ++ "\",\"type\":\"" ++ m.type ++
      "\",\"value\":\"" ++ (match m.value with | .string s => s | _ => "") ++ "\"\x7d"

def carsByColor : InputStreamConfig := { exampleStream "Car" "color" with isScoped := true }

def painted (id color : String) (entityAction : EntityAction) : Event :=
  { exampleEvent "subCar" entityAction id "Car" with
    registeredEntity := { exampleEntity id "Car" with
      metadataList := (∅ : GoMap ContextMetadata).set "color" (colorOf color) } }

theorem byMetadata_carsByColor : ByMetadata carsByColor := ⟨by decide, by decide, by decide⟩

theorem brings_painted (id color : String) {entityAction : EntityAction}
    (h : entityAction ≠ .delete) : Brings carsByColor (painted id color entityAction) := by
  have hmeta : ∀ k m, (painted id color entityAction).registeredEntity.metadataList.get k =
      some m → m = colorOf color := by
    intro k m hm
    have hget : (painted id color entityAction).registeredEntity.metadataList.get k =
        if k = "color" then some (colorOf color) else none := GoMap.get_set _ _ _ _
    rw [hget] at hm
    split_ifs at hm
    exact (Option.some.inj hm).symm
  refine ⟨h, fun m hm ht => ?_, fun k m hm _ => ?_,
    fun n locations => by simp [painted, exampleEvent]⟩
  · obtain ⟨k, hk⟩ := GoMap.mem_values.mp hm
    rw [hmeta k m hk] at ht
    simp [colorOf] at ht
  · rw [hmeta k m hm]
    simp [Comparable, GroupValue.goEq, ContextMetadata.goEq, colorOf, Value.goEq]

theorem only_subCar (k : String) (hk : k ≠ "subCar") :
    (exampleFlow [carsByColor]).subscriptions.get k = none :=
  GoMap.get_set_ne _ _ hk

def redAndBlue : List GroupValue := [.metadata (colorOf "red"), .metadata (colorOf "blue")]

theorem redAndBlue_apart : ∀ v ∈ redAndBlue, ∀ w ∈ redAndBlue,
    hashOf marshalColor carsByColor v = hashOf marshalColor carsByColor w → v = w := by
  decide +kernel

def PlanFollowsValues (marshal : GroupValue → String) : Prop :=
  ∀ flow₀ subID sub events, Established flow₀ → flow₀.subscriptions.get subID = some sub →
    (∀ k, k ≠ subID → flow₀.subscriptions.get k = none) → ByMetadata sub.inputSelector →
    (∀ e ∈ events, Brings sub.inputSelector e) →
    NoCollisions marshal sub.inputSelector ⟨flow₀, ∅⟩ events →
    Always (observe marshal) (GroupPlan marshal sub.inputSelector) ⟨flow₀, ∅⟩ events

-- the car is painted blue, and the task of the red cars still has it among its inputs
theorem repainted_car_stays : ¬ PlanFollowsValues marshalColor := by
  intro h
  have hred : (exec (observe marshalColor) ⟨exampleFlow [carsByColor], ∅⟩
      [painted "car1" "red" .create]).any (fun o =>
        o.current.values.all (fun r => valueIn carsByColor r ∈ redAndBlue)) = true := by
    decide +kernel
  have hblue : (exec (observe marshalColor) ⟨exampleFlow [carsByColor], ∅⟩
      [painted "car1" "red" .create, painted "car1" "blue" .update]).any (fun o =>
        o.current.values.all (fun r => valueIn carsByColor r ∈ redAndBlue)) = true := by
    decide +kernel
  have hstale : (exec (observe marshalColor) ⟨exampleFlow [carsByColor], ∅⟩
      [painted "car1" "red" .create, painted "car1" "blue" .update]).any (fun o =>
        plannedInputs o.flow (hashOf marshalColor carsByColor (.metadata (colorOf "red"))) ≠ none ∧
        o.current.values.all (fun r => hashOf marshalColor carsByColor (valueIn carsByColor r) ≠
          hashOf marshalColor carsByColor (.metadata (colorOf "red")))) = true := by
    decide +kernel
  have hbrings : ∀ e ∈ [painted "car1" "red" .create, painted "car1" "blue" .update],
      Brings carsByColor e := by
    simp only [List.forall_mem_cons, List.not_mem_nil, false_imp_iff, implies_true, and_true]
    exact ⟨brings_painted _ _ (by decide), brings_painted _ _ (by decide)⟩
  obtain ⟨o, ho, hstale⟩ := (Option.any_eq_true _ _).mp hstale
  obtain ⟨hplanned, hnone⟩ := of_decide_eq_true hstale
  have hplan := h _ "subCar" ⟨carsByColor, "subCar", ∅⟩ _ (established_exampleFlow _) rfl
    only_subCar byMetadata_carsByColor hbrings
    (noCollisions_of_two redAndBlue redAndBlue_apart hred hblue) _ o (List.prefix_refl _) ho
  obtain ⟨id, r, hr, hhash⟩ := (hplan.tasks _).mp hplanned
  rw [List.all_eq_true] at hnone
  exact of_decide_eq_true (hnone r (GoMap.mem_values.mpr ⟨id, hr⟩)) hhash

theorem plan_follows_values_iff {flow₀ : FogFlow} {events : List Event} (hinit : Established flow₀)
    (hsub : flow₀.subscriptions.get subID = some sub)
    (hone : ∀ k, k ≠ subID → flow₀.subscriptions.get k = none)
    (hby : ByMetadata sub.inputSelector) (he : ∀ e ∈ events, Brings sub.inputSelector e)
    (hno : NoCollisions marshal sub.inputSelector ⟨flow₀, ∅⟩ events) :
    (∃ last, exec (observe marshal) ⟨flow₀, ∅⟩ events = some last ∧
      exec (step marshal) flow₀ events = some last.flow) ∧
    (Always (observe marshal) (GroupPlan marshal sub.inputSelector) ⟨flow₀, ∅⟩ events ↔
      Meets (observe marshal) (KeepsGroup sub.inputSelector) ⟨flow₀, ∅⟩ events) := by
  have hfirst : Grouped marshal sub.inputSelector subID ⟨flow₀, ∅⟩ ∧
      GroupPlan marshal sub.inputSelector ⟨flow₀, ∅⟩ := grouped_established hinit hsub hone
  have hstep : ∀ o, ∀ e ∈ events, Grouped marshal sub.inputSelector subID o →
      ∃ t, observe marshal o e = some t ∧ Grouped marshal sub.inputSelector subID t :=
    fun o e hin h => grouped_step h hby (he e hin)
  obtain ⟨last, hrun, -⟩ := exec_progress hfirst.1 hstep
  refine ⟨⟨last, hrun, by rw [← exec_observe ⟨flow₀, ∅⟩ events, hrun]; rfl⟩, ?_⟩
  have hexact : ∀ js e o t, js ++ [e] <+: events →
      (exec (observe marshal) ⟨flow₀, ∅⟩ js = some o ∧
        Grouped marshal sub.inputSelector subID o ∧ GroupPlan marshal sub.inputSelector o) →
      observe marshal o e = some t →
      (KeepsGroup sub.inputSelector o e ↔ GroupPlan marshal sub.inputSelector t) := by
    rintro js e o t hp ⟨ho, hs, hplan⟩ ht
    have hjs : js <+: events := (List.prefix_append js [e]).trans hp
    have hnext : exec (observe marshal) ⟨flow₀, ∅⟩ (js ++ [e]) = some t :=
      exec_concat.mpr ⟨o, ho, ht⟩
    exact keepsGroup_iff hs hplan hby (he e (hp.subset (by simp))) ht
      (hno js js o o hjs hjs ho ho) (hno js _ o t hjs hp ho hnext)
      (hno _ _ t t hp hp hnext hnext)
  refine always_iff_meets (I := fun js o => exec (observe marshal) ⟨flow₀, ∅⟩ js = some o ∧
    Grouped marshal sub.inputSelector subID o ∧ GroupPlan marshal sub.inputSelector o) hrun
    ⟨rfl, hfirst⟩ hfirst.2 ?_ hexact
  intro js e o t hp hI hkeeps ht
  obtain ⟨t', ht', hs⟩ := hstep o e (hp.subset (by simp)) hI.2.1
  obtain rfl := Option.some.inj (ht.symm.trans ht')
  exact ⟨exec_concat.mpr ⟨o, hI.1, ht⟩, hs, (hexact js e o t hp hI ht).mp hkeeps⟩

-- each of the two cars keeps its color
theorem two_colors_two_tasks :
    Always (observe marshalColor) (GroupPlan marshalColor carsByColor)
      ⟨exampleFlow [carsByColor], ∅⟩
      [painted "car1" "red" .create, painted "car2" "blue" .create] := by
  have hred : (exec (observe marshalColor) ⟨exampleFlow [carsByColor], ∅⟩
      [painted "car1" "red" .create]).any (fun o =>
        o.current.values.all (fun r => valueIn carsByColor r ∈ redAndBlue)) = true := by
    decide +kernel
  have hblue : (exec (observe marshalColor) ⟨exampleFlow [carsByColor], ∅⟩
      [painted "car1" "red" .create, painted "car2" "blue" .create]).any (fun o =>
        o.current.values.all (fun r => valueIn carsByColor r ∈ redAndBlue)) = true := by
    decide +kernel
  have hbrings : ∀ e ∈ [painted "car1" "red" .create, painted "car2" "blue" .create],
      Brings carsByColor e := by
    simp only [List.forall_mem_cons, List.not_mem_nil, false_imp_iff, implies_true, and_true]
    exact ⟨brings_painted _ _ (by decide), brings_painted _ _ (by decide)⟩
  have hiff := (plan_follows_values_iff (established_exampleFlow [carsByColor])
    (show (exampleFlow [carsByColor]).subscriptions.get "subCar" =
      some ⟨carsByColor, "subCar", ∅⟩ from rfl) only_subCar byMetadata_carsByColor hbrings
    (noCollisions_of_two redAndBlue redAndBlue_apart hred hblue)).2
  refine hiff.mpr (meets_of_check (c := fun o e =>
    (o.current.get e.registeredEntity.id).isNone) ?_ (by decide +kernel))
  intro o e _ hnew _ id held hheld
  have hbt : carsByColor.isSimpleByType = false := rfl
  rw [hbt, if_neg (by simp)]
  rintro rfl
  simp [hheld] at hnew

end FogFlow.Master
