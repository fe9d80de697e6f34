import FogFlow.Master.Inputs
import FogFlow.Master.Received

namespace FogFlow.Master

open Ngsi Datamodel Execution

def lastAction (events : List Event) (subID entityID : String) : Option EntityAction :=
  (events.filter (fun e => e.subID == subID && e.registeredEntity.id == entityID)).getLast?.map
    Event.entityAction

def lastEventOn (events : List Event) (entityID : String) : Option Event :=
  (events.filter (fun e => e.registeredEntity.id == entityID)).getLast?

theorem lastAction_concat (events : List Event) (e : Event) (subID entityID : String) :
    lastAction (events ++ [e]) subID entityID =
      if e.subID = subID ∧ e.registeredEntity.id = entityID then some e.entityAction
      else lastAction events subID entityID := by
  unfold lastAction
  rw [List.filter_append]
  split_ifs with h <;> simp [h]

theorem lastEventOn_concat (events : List Event) (e : Event) (entityID : String) :
    lastEventOn (events ++ [e]) entityID =
      if e.registeredEntity.id = entityID then some e else lastEventOn events entityID := by
  unfold lastEventOn
  rw [List.filter_append]
  split_ifs with h <;> simp [h]

-- a deleted entity has left the received registrations and the inputs of all tasks, and a
-- by-type stream without any entity leaves no task
structure Forgotten (events : List Event) (flow : FogFlow) : Prop where
  received : ∀ subID sub entityID, flow.subscriptions.get subID = some sub →
    lastAction events subID entityID = some .delete →
    ∀ k r, sub.receivedEntityRegistrations.get k = some r → r.id ≠ entityID
  inputs : ∀ entityID e, lastEventOn events entityID = some e → e.entityAction = .delete →
    flow.subscriptions.get e.subID ≠ none →
    ∀ k task, flow.executionPlan.get k = some task → entityID ∉ task.inputs.map InputEntity.id
  byType : ∀ subID sub, flow.subscriptions.get subID = some sub →
    sub.inputSelector.isSimpleByType = true →
    (∀ entityID action, lastAction events subID entityID = some action → action = .delete) →
    ∀ k, flow.executionPlan.get k = none

-- the DELETE finds the entity held while a stream is still missing or does not find it at all,
-- and no other subscription holds it
def DeletesSafely (flow : FogFlow) (e : Event) : Prop :=
  e.entityAction = .delete → ∀ sub, flow.subscriptions.get e.subID = some sub →
    (checkInputAvailability flow.subscriptions = false ∨
      sub.receivedEntityRegistrations.get (receivedKey sub e.registeredEntity.id) = none) ∧
    e.registeredEntity.id ≠ "" ∧
    ∀ subID' sub', flow.subscriptions.get subID' = some sub' → subID' ≠ e.subID →
      sub'.inputSelector.isSimpleByType = false →
      sub'.receivedEntityRegistrations.get e.registeredEntity.id = none

-- some subscription that tells its entities apart holds the entity
def Held (subscriptions : GoMap InputSubscription) (entityID : String) : Prop :=
  ∃ subID sub, subscriptions.get subID = some sub ∧ sub.inputSelector.isSimpleByType = false ∧
    sub.receivedEntityRegistrations.get entityID ≠ none

def Keyed (subscriptions : GoMap InputSubscription) : Prop :=
  ∀ subID sub, subscriptions.get subID = some sub →
    ∀ k r, sub.receivedEntityRegistrations.get k = some r → k = receivedKey sub r.id

-- the parts of the invariant that speak of the subscriptions and the events alone
structure Tracked (events : List Event) (subscriptions : GoMap InputSubscription) : Prop where
  keyed : Keyed subscriptions
  alive : ∀ subID sub, subscriptions.get subID = some sub →
    ∀ k r, sub.receivedEntityRegistrations.get k = some r →
      ∃ action, lastAction events subID r.id = some action ∧ action ≠ .delete
  gone : ∀ entityID e, lastEventOn events entityID = some e → e.entityAction = .delete →
    subscriptions.get e.subID ≠ none → entityID ≠ "" ∧ ¬ Held subscriptions entityID

structure Planned (subscriptions : GoMap InputSubscription) (plan : GoMap TaskConfig) : Prop where
  available : ∀ k task, plan.get k = some task → checkInputAvailability subscriptions = true
  inputs : ∀ k task, plan.get k = some task → ∀ id ∈ task.inputs.map InputEntity.id,
    id = "" ∨ Held subscriptions id

theorem forgotten_of_tracked {events : List Event} {flow : FogFlow}
    (ht : Tracked events flow.subscriptions) (hp : Planned flow.subscriptions flow.executionPlan) :
    Forgotten events flow := by
  refine ⟨?_, ?_, ?_⟩
  · rintro subID sub _ hsub hlast k r hr rfl
    obtain ⟨action, ha, hne⟩ := ht.alive subID sub hsub k r hr
    rw [hlast] at ha
    exact hne (Option.some.inj ha).symm
  · intro entityID e he hdel hknown k task hk hin
    obtain ⟨hne, hnot⟩ := ht.gone entityID e he hdel hknown
    exact (hp.inputs k task hk entityID hin).elim hne hnot
  · intro subID sub hsub _ hall k
    rw [Option.eq_none_iff_forall_ne_some]
    intro task hk
    obtain ⟨key, r, hr⟩ := checkInputAvailability_iff.mp (hp.available k task hk) subID sub hsub
    obtain ⟨action, ha, hne⟩ := ht.alive subID sub hsub key r hr
    exact hne (hall r.id action ha)

theorem planned_of_sameTasks {subscriptions : GoMap InputSubscription}
    {plan plan' : GoMap TaskConfig} (h : Planned subscriptions plan) (hs : SameTasks plan plan') :
    Planned subscriptions plan' := by
  have hold : ∀ k task, plan'.get k = some task → ∃ old, plan.get k = some old ∧
      old.inputs = task.inputs := by
    intro k task hk
    have := hs k
    rw [hk, Option.map_some, eq_comm, Option.map_eq_some_iff] at this
    obtain ⟨old, ho, he⟩ := this
    exact ⟨old, ho, (Prod.mk.inj he).2⟩
  constructor
  · intro k task hk
    obtain ⟨old, ho, -⟩ := hold k task hk
    exact h.available k old ho
  · intro k task hk id hid
    obtain ⟨old, ho, heq⟩ := hold k task hk
    exact h.inputs k old ho id (heq ▸ hid)

theorem held_of_found {subscriptions : GoMap InputSubscription} (hkeyed : Keyed subscriptions)
    {x : InputEntity} (hx : Found subscriptions x) : x.id = "" ∨ Held subscriptions x.id := by
  obtain ⟨subID, sub, key, r, location, hsub, hr, rfl⟩ := hx
  cases hs : sub.inputSelector.isSimpleByType with
  | true => exact Or.inl (by simp [inputEntity, hs])
  | false =>
    have hid : (inputEntity sub.inputSelector r location).id = r.id := by simp [inputEntity, hs]
    have hkey : key = r.id := by simpa [receivedKey, hs] using hkeyed subID sub hsub key r hr
    rw [hid]
    exact Or.inr ⟨subID, sub, hsub, hs, by rw [← hkey, hr]; simp⟩

theorem held_receive {subscriptions : GoMap InputSubscription} {subID : String}
    {sub : InputSubscription} {r : EntityRegistration} (hsub : subscriptions.get subID = some sub)
    {entityID : String} (h : Held subscriptions entityID) :
    Held (subscriptions.set subID (receive sub r)) entityID := by
  obtain ⟨subID', sub', hsub', hs, hheld⟩ := h
  by_cases heq : subID' = subID
  · obtain rfl : sub = sub' := by rw [heq, hsub] at hsub'; exact Option.some.inj hsub'
    refine ⟨subID, receive sub r, GoMap.get_set_self _ _ _, by simpa using hs, ?_⟩
    rw [ne_eq, get_receive_eq_none_iff, not_and_or]
    exact Or.inr hheld
  · exact ⟨subID', sub', by rw [GoMap.get_set_ne _ _ heq, hsub'], hs, hheld⟩

theorem held_of_held_receive {subscriptions : GoMap InputSubscription} {subID : String}
    {sub : InputSubscription} {r : EntityRegistration} (hsub : subscriptions.get subID = some sub)
    {entityID : String} (hne : entityID ≠ r.id)
    (h : Held (subscriptions.set subID (receive sub r)) entityID) :
    Held subscriptions entityID := by
  obtain ⟨subID', sub', hsub', hs, hheld⟩ := h
  rw [GoMap.get_set] at hsub'
  split_ifs at hsub' with heq
  · obtain rfl := Option.some.inj hsub'
    rw [receive_inputSelector] at hs
    rw [get_receive_ne (by simpa [receivedKey, hs] using hne)] at hheld
    exact ⟨subID, sub, hsub, hs, hheld⟩
  · exact ⟨subID', sub', hsub', hs, hheld⟩

theorem tracked_unknown {events : List Event} {e : Event}
    {subscriptions : GoMap InputSubscription} (h : Tracked events subscriptions)
    (hunknown : subscriptions.get e.subID = none) : Tracked (events ++ [e]) subscriptions := by
  refine ⟨h.keyed, ?_, ?_⟩
  · intro subID sub hsub k r hr
    have hne : e.subID ≠ subID := by
      rintro rfl
      simp [hunknown] at hsub
    rw [lastAction_concat, if_neg (fun hc => hne hc.1)]
    exact h.alive subID sub hsub k r hr
  · intro entityID ev hev hdel hknown
    rw [lastEventOn_concat] at hev
    split_ifs at hev with hon
    · obtain rfl := Option.some.inj hev
      exact absurd hunknown hknown
    · exact h.gone entityID ev hev hdel hknown

theorem tracked_receive {events : List Event} {e : Event} {sub : InputSubscription}
    {subscriptions : GoMap InputSubscription} (h : Tracked events subscriptions)
    (hsub : subscriptions.get e.subID = some sub) (hact : e.entityAction ≠ .delete) :
    Tracked (events ++ [e])
      (subscriptions.set e.subID (receive sub e.registeredEntity)) := by
  refine ⟨?_, ?_, ?_⟩
  · intro subID other hother k r hr
    rw [GoMap.get_set] at hother
    split_ifs at hother with heq
    · obtain rfl := Option.some.inj hother
      rw [receivedKey_receive]
      rcases held_receive_cases hr with ⟨rfl, rfl⟩ | ⟨old, hold, hid⟩
      · rfl
      · rw [hid]
        exact h.keyed _ sub hsub k old hold
    · exact h.keyed subID other hother k r hr
  · intro subID other hother k r hr
    rw [lastAction_concat]
    split_ifs with hon
    · exact ⟨e.entityAction, rfl, hact⟩
    rw [GoMap.get_set] at hother
    split_ifs at hother with heq
    · obtain rfl := Option.some.inj hother
      rcases held_receive_cases hr with ⟨-, rfl⟩ | ⟨old, hold, hid⟩
      · exact absurd ⟨heq.symm, rfl⟩ hon
      · rw [hid, heq]
        exact h.alive _ sub hsub k old hold
    · exact h.alive subID other hother k r hr
  · intro entityID ev hev hdel hknown
    rw [lastEventOn_concat] at hev
    split_ifs at hev with hon
    · obtain rfl := Option.some.inj hev
      exact absurd hdel hact
    · have hknown' : subscriptions.get ev.subID ≠ none := by
        rw [GoMap.get_set] at hknown
        split_ifs at hknown with heq
        · rw [heq, hsub]
          simp
        · exact hknown
      obtain ⟨hne, hnot⟩ := h.gone entityID ev hev hdel hknown'
      exact ⟨hne, fun hheld => hnot (held_of_held_receive hsub (Ne.symm hon) hheld)⟩

-- both outcomes of a safe DELETE: the entity was not there, or it has been taken out
structure TakesOut (e : Event) (sub sub' : InputSubscription)
    (subscriptions next : GoMap InputSubscription) : Prop where
  known : subscriptions.get e.subID = some sub
  next : ∀ k, next.get k = if k = e.subID then some sub' else subscriptions.get k
  selector : sub'.inputSelector = sub.inputSelector
  received : ∀ k, sub'.receivedEntityRegistrations.get k =
    if k = receivedKey sub e.registeredEntity.id then none
    else sub.receivedEntityRegistrations.get k

section TakesOut

variable {events : List Event} {e : Event} {sub sub' : InputSubscription}
  {subscriptions next : GoMap InputSubscription}

theorem TakesOut.before (h : TakesOut e sub sub' subscriptions next) {subID : String}
    {other : InputSubscription} (hother : next.get subID = some other) :
    ∃ old, subscriptions.get subID = some old ∧ old.inputSelector = other.inputSelector ∧
      ∀ k r, other.receivedEntityRegistrations.get k = some r →
        old.receivedEntityRegistrations.get k = some r ∧
          (subID = e.subID → k ≠ receivedKey old e.registeredEntity.id) := by
  rw [h.next] at hother
  split_ifs at hother with heq
  · obtain rfl := Option.some.inj hother
    refine ⟨sub, heq ▸ h.known, h.selector.symm, fun k r hr => ?_⟩
    rw [h.received] at hr
    split_ifs at hr with hk
    exact ⟨hr, fun _ => hk⟩
  · exact ⟨other, hother, rfl, fun k r hr => ⟨hr, fun hsame => absurd hsame heq⟩⟩

theorem held_of_takesOut (h : TakesOut e sub sub' subscriptions next) {entityID : String}
    (hheld : Held next entityID) : Held subscriptions entityID := by
  obtain ⟨subID, other, hother, hsimple, hin⟩ := hheld
  obtain ⟨old, hold, hsel, hback⟩ := h.before hother
  obtain ⟨r, hr⟩ := Option.ne_none_iff_exists'.mp hin
  refine ⟨subID, old, hold, hsel ▸ hsimple, ?_⟩
  rw [(hback entityID r hr).1]
  simp

theorem not_held_of_takesOut (h : TakesOut e sub sub' subscriptions next)
    (hothers : ∀ subID' sub', subscriptions.get subID' = some sub' → subID' ≠ e.subID →
      sub'.inputSelector.isSimpleByType = false →
      sub'.receivedEntityRegistrations.get e.registeredEntity.id = none) :
    ¬ Held next e.registeredEntity.id := by
  rintro ⟨subID, other, hother, hsimple, hin⟩
  obtain ⟨old, hold, hsel, hback⟩ := h.before hother
  obtain ⟨r, hr⟩ := Option.ne_none_iff_exists'.mp hin
  obtain ⟨hr, hkey⟩ := hback _ r hr
  by_cases heq : subID = e.subID
  · exact hkey heq (by simp [receivedKey, hsel, hsimple])
  · have hnone := hothers subID old hold heq (hsel ▸ hsimple)
    cases hr.symm.trans hnone

theorem tracked_delete (h : Tracked events subscriptions)
    (htakes : TakesOut e sub sub' subscriptions next) (hne : e.registeredEntity.id ≠ "")
    (hothers : ∀ subID' sub', subscriptions.get subID' = some sub' → subID' ≠ e.subID →
      sub'.inputSelector.isSimpleByType = false →
      sub'.receivedEntityRegistrations.get e.registeredEntity.id = none) :
    Tracked (events ++ [e]) next := by
  refine ⟨?_, ?_, ?_⟩
  · intro subID other hother k r hr
    obtain ⟨old, hold, hsel, hback⟩ := htakes.before hother
    have hkey : receivedKey other r.id = receivedKey old r.id := by simp [receivedKey, hsel]
    rw [hkey]
    exact h.keyed subID old hold k r (hback k r hr).1
  · intro subID other hother k r hr
    obtain ⟨old, hold, -, hback⟩ := htakes.before hother
    obtain ⟨hr, hk⟩ := hback k r hr
    have hon : ¬ (e.subID = subID ∧ e.registeredEntity.id = r.id) := by
      rintro ⟨heq, hid⟩
      refine hk heq.symm ?_
      rw [hid]
      exact h.keyed subID old hold k r hr
    rw [lastAction_concat, if_neg hon]
    exact h.alive subID old hold k r hr
  · intro entityID ev hev hdel hknown
    rw [lastEventOn_concat] at hev
    split_ifs at hev with hon
    · subst hon
      exact ⟨hne, not_held_of_takesOut htakes hothers⟩
    · have hknown' : subscriptions.get ev.subID ≠ none := by
        obtain ⟨other, hother⟩ := Option.ne_none_iff_exists'.mp hknown
        obtain ⟨old, hold, -⟩ := htakes.before hother
        rw [hold]
        simp
      obtain ⟨hne', hnot⟩ := h.gone entityID ev hev hdel hknown'
      exact ⟨hne', fun hheld => hnot (held_of_takesOut htakes hheld)⟩

end TakesOut

theorem planned_of_unavailable {subscriptions subscriptions' : GoMap InputSubscription}
    {plan : GoMap TaskConfig} (h : Planned subscriptions plan)
    (hno : checkInputAvailability subscriptions = false) : Planned subscriptions' plan := by
  have hempty : ∀ k task, plan.get k ≠ some task := by
    intro k task hk
    exact absurd (h.available k task hk) (by simp [hno])
  exact ⟨fun k task hk => absurd hk (hempty k task), fun k task hk => absurd hk (hempty k task)⟩

variable {marshal : GroupValue → String}

theorem tracked_orchestration {events : List Event} {flow : FogFlow} {e : Event}
    {result : FogFlow × Actions} (ht : Tracked events flow.subscriptions)
    (hp : Planned flow.subscriptions flow.executionPlan) (hc : DeletesSafely flow e)
    (h : Orchestration marshal e.choices flow e.subID e.entityAction e.registeredEntity result) :
    Tracked (events ++ [e]) result.1.subscriptions ∧
      Planned result.1.subscriptions result.1.executionPlan := by
  cases h with
  | unknown hsub => exact ⟨tracked_unknown ht hsub, hp⟩
  | received sub uniqueKeys hsub hact _ hno =>
    have hno' : checkInputAvailability flow.subscriptions = false := by
      rw [← Bool.not_eq_true] at hno ⊢
      exact fun hyes => hno (available_receive hyes)
    exact ⟨tracked_receive ht hsub hact, planned_of_unavailable hp hno'⟩
  | expanded sub uniqueKeys _ hsub hact _ hyes hexp =>
    have ht' := tracked_receive ht hsub hact
    have hframe := planOnly_expandExecutionPlan hexp
    rw [hframe.subscriptions]
    refine ⟨ht', fun _ _ _ => hyes, ?_⟩
    intro k task hk id hid
    rcases inputs_expandExecutionPlan hexp k task hk id hid with
      ⟨k', old, hold, hid⟩ | ⟨x, hx, rfl⟩
    · exact (hp.inputs k' old hold id hid).imp_right (held_receive hsub)
    · exact held_of_found ht'.keyed hx
  | absent sub hsub hact hnone =>
    obtain ⟨-, hne, hothers⟩ := hc hact sub hsub
    have hsame : ∀ k, flow.subscriptions.get k =
        if k = e.subID then some sub else flow.subscriptions.get k := by
      intro k
      split_ifs with hk
      · rw [hk, hsub]
      · rfl
    refine ⟨tracked_delete ht ⟨hsub, hsame, rfl, fun k => ?_⟩ hne hothers, hp⟩
    split_ifs with hk
    · rw [hk, hnone]
    · rfl
  | removed sub _ hsub hact hheld hyes _ =>
    obtain ⟨hsafe | hsafe, -, -⟩ := hc hact sub hsub
    · simp [hyes] at hsafe
    · exact absurd hsafe hheld
  | forgotten sub hsub hact _ hno =>
    obtain ⟨-, hne, hothers⟩ := hc hact sub hsub
    refine ⟨?_, planned_of_unavailable hp hno⟩
    exact tracked_delete ht ⟨hsub, fun k => GoMap.get_set _ _ _ _, rfl, get_forget sub _⟩ hne
      hothers

theorem tracked_step {events : List Event} {flow next : FogFlow} {e : Event}
    (ht : Tracked events flow.subscriptions)
    (hp : Planned flow.subscriptions flow.executionPlan) (hc : DeletesSafely flow e)
    (h : step marshal flow e = some next) :
    Tracked (events ++ [e]) next.subscriptions ∧
      Planned next.subscriptions next.executionPlan := by
  obtain ⟨orchestrated, commands, ho, hr⟩ := step_eq_some.mp h
  obtain ⟨ht', hp'⟩ := tracked_orchestration ht hp hc (orchestration_cases ho)
  have hsched := scheduled_runActions hr
  rw [hsched.subscriptions]
  exact ⟨ht', planned_of_sameTasks hp' hsched.executionPlan⟩

theorem tracked_established {flow : FogFlow} (h : Established flow) :
    Tracked [] flow.subscriptions ∧ Planned flow.subscriptions flow.executionPlan := by
  refine ⟨⟨?_, ?_, by simp [lastEventOn]⟩, by simp [h.executionPlan], by simp [h.executionPlan]⟩
  · intro subID sub hsub k r hr
    simp [h.nothingReceived subID sub hsub] at hr
  · intro subID sub hsub k r hr
    simp [h.nothingReceived subID sub hsub] at hr

def DeletionForgets (marshal : GroupValue → String) : Prop :=
  ∀ flow₀ events flow, Established flow₀ → exec (step marshal) flow₀ events = some flow →
    Forgotten events flow

-- with every stream available the DELETE branch returns before the registration is removed
theorem deleted_entity_stays : ¬ DeletionForgets exampleMarshal := by
  intro h
  have hrun : ∃ flow, exec (step exampleMarshal) (exampleFlow [exampleStream "Car" "EntityID"])
        [exampleEvent "subCar" .create "car1" "Car", exampleEvent "subCar" .delete "car1" "Car"] =
          some flow ∧
      ∃ sub, flow.subscriptions.get "subCar" = some sub ∧
        sub.receivedEntityRegistrations.get "car1" = some (exampleEntity "car1" "Car") :=
    ⟨_, rfl, _, rfl, rfl⟩
  obtain ⟨flow, hflow, sub, hsub, hheld⟩ := hrun
  exact (h _ _ flow (established_exampleFlow _) hflow).received "subCar" sub "car1" hsub
    (by decide) "car1" _ hheld rfl

theorem deleted_entities_forgotten {flow₀ : FogFlow} {events : List Event}
    (h₀ : Established flow₀) (hsafe : Meets (step marshal) DeletesSafely flow₀ events) :
    ∀ before flow, before <+: events → exec (step marshal) flow₀ before = some flow →
      Forgotten before flow := by
  intro before flow hpre hrun
  have key := exec_induction_of_meets (motive := fun es flow =>
    Tracked es flow.subscriptions ∧ Planned flow.subscriptions flow.executionPlan)
    (hsafe.shorter hpre) hrun (tracked_established h₀)
    (fun es e flow next _ _ hI hc hs => tracked_step hI.1 hI.2 hc hs)
  exact forgotten_of_tracked key.1 key.2

def twoStreams : FogFlow :=
  exampleFlow [exampleStream "Car" "EntityID", exampleStream "Road" "EntityID"]

def createThenDelete : List Event :=
  [exampleEvent "subCar" .create "car1" "Car", exampleEvent "subCar" .delete "car1" "Car"]

theorem deleted_car_forgotten :
    ∃ flow, exec (step exampleMarshal) twoStreams createThenDelete = some flow ∧
      Forgotten createThenDelete flow := by
  have hrun : ∃ created flow,
      exec (step exampleMarshal) twoStreams (createThenDelete.take 1) = some created ∧
      created.subscriptions = twoStreams.subscriptions.set "subCar"
        (receive ⟨exampleStream "Car" "EntityID", "subCar", ∅⟩ (exampleEntity "car1" "Car")) ∧
      checkInputAvailability created.subscriptions = false ∧
      exec (step exampleMarshal) twoStreams createThenDelete = some flow :=
    ⟨_, _, rfl, rfl, rfl, rfl⟩
  obtain ⟨created, flow, hcreated, hsubs, hno, hflow⟩ := hrun
  have hothers : ∀ subID' sub', created.subscriptions.get subID' = some sub' →
      subID' ≠ "subCar" → sub'.receivedEntityRegistrations.get "car1" = none := by
    intro subID' sub' hget hne
    rw [hsubs, GoMap.get_set_ne _ _ hne] at hget
    rw [(established_exampleFlow _).nothingReceived subID' sub' hget]
    rfl
  have hcreate : Meets (step exampleMarshal) DeletesSafely twoStreams
      ([] ++ [exampleEvent "subCar" .create "car1" "Car"]) :=
    (meets_concat rfl).mpr ⟨by simp [Meets], by simp [DeletesSafely, exampleEvent]⟩
  have hmeets : Meets (step exampleMarshal) DeletesSafely twoStreams
      (createThenDelete.take 1 ++ [exampleEvent "subCar" .delete "car1" "Car"]) := by
    refine (meets_concat hcreated).mpr ⟨hcreate, fun _ sub _ => ⟨Or.inl hno, by decide, ?_⟩⟩
    exact fun subID' sub' hget hne _ => hothers subID' sub' hget hne
  exact ⟨flow, hflow, deleted_entities_forgotten (established_exampleFlow _) hmeets
    createThenDelete flow (List.prefix_refl _) hflow⟩

end FogFlow.Master
