import FogFlow.Master.PlanFrame

namespace FogFlow.Master

open Ngsi Datamodel

theorem receive_cases (sub : InputSubscription) (r : EntityRegistration) :
    (sub.receivedEntityRegistrations.get (receivedKey sub r.id) = none ∧
      receive sub r = { sub with receivedEntityRegistrations :=
        sub.receivedEntityRegistrations.set (receivedKey sub r.id) r }) ∨
    ∃ old, sub.receivedEntityRegistrations.get (receivedKey sub r.id) = some old ∧
      ((sub.inputSelector.isSimpleByType = true ∧ receive sub r = sub) ∨
        (sub.inputSelector.isSimpleByType = false ∧
          receive sub r = { sub with receivedEntityRegistrations :=
            sub.receivedEntityRegistrations.set (receivedKey sub r.id) (old.update r) })) := by
  cases hget : sub.receivedEntityRegistrations.get (receivedKey sub r.id) with
  | none => exact Or.inl ⟨rfl, by simp [receive, hget]⟩
  | some old =>
    cases hs : sub.inputSelector.isSimpleByType with
    | true => exact Or.inr ⟨old, rfl, Or.inl ⟨rfl, by simp [receive, hget, hs]⟩⟩
    | false => exact Or.inr ⟨old, rfl, Or.inr ⟨rfl, by simp [receive, hget, hs]⟩⟩

@[simp] theorem receive_inputSelector (sub : InputSubscription) (r : EntityRegistration) :
    (receive sub r).inputSelector = sub.inputSelector := by
  rcases receive_cases sub r with ⟨-, h⟩ | ⟨old, -, ⟨-, h⟩ | ⟨-, h⟩⟩ <;> rw [h]

@[simp] theorem receivedKey_receive (sub : InputSubscription) (r : EntityRegistration)
    (entityID : String) : receivedKey (receive sub r) entityID = receivedKey sub entityID := by
  simp [receivedKey]

theorem get_forget (sub : InputSubscription) (entityID k : String) :
    (forget sub entityID).receivedEntityRegistrations.get k =
      if k = entityID then none else sub.receivedEntityRegistrations.get k :=
  GoMap.get_delete _ _ _

theorem get_receive_ne {sub : InputSubscription} {r : EntityRegistration} {k : String}
    (hk : k ≠ receivedKey sub r.id) :
    (receive sub r).receivedEntityRegistrations.get k = sub.receivedEntityRegistrations.get k := by
  rcases receive_cases sub r with ⟨-, h⟩ | ⟨old, -, ⟨-, h⟩ | ⟨-, h⟩⟩ <;> rw [h]
  · exact GoMap.get_set_ne _ _ hk
  · exact GoMap.get_set_ne _ _ hk

-- a registration that is already there keeps its id when it is updated
theorem get_receive_self (sub : InputSubscription) (r : EntityRegistration) :
    ∃ r', (receive sub r).receivedEntityRegistrations.get (receivedKey sub r.id) = some r' ∧
      ((sub.receivedEntityRegistrations.get (receivedKey sub r.id) = none ∧ r' = r) ∨
        ∃ old, sub.receivedEntityRegistrations.get (receivedKey sub r.id) = some old ∧
          r'.id = old.id) := by
  rcases receive_cases sub r with ⟨hget, h⟩ | ⟨old, hget, ⟨-, h⟩ | ⟨-, h⟩⟩ <;> rw [h]
  · exact ⟨r, GoMap.get_set_self _ _ _, Or.inl ⟨hget, rfl⟩⟩
  · exact ⟨old, hget, Or.inr ⟨old, hget, rfl⟩⟩
  · exact ⟨old.update r, GoMap.get_set_self _ _ _, Or.inr ⟨old, hget, rfl⟩⟩

theorem get_receive_eq_none_iff {sub : InputSubscription} {r : EntityRegistration} {k : String} :
    (receive sub r).receivedEntityRegistrations.get k = none ↔
      k ≠ receivedKey sub r.id ∧ sub.receivedEntityRegistrations.get k = none := by
  by_cases hk : k = receivedKey sub r.id
  · obtain ⟨r', hr', -⟩ := get_receive_self sub r
    simp [hk, hr']
  · simp [hk, get_receive_ne hk]

theorem checkInputAvailability_iff {subscriptions : GoMap InputSubscription} :
    checkInputAvailability subscriptions = true ↔
      ∀ subID sub, subscriptions.get subID = some sub →
        ∃ k r, sub.receivedEntityRegistrations.get k = some r := by
  have hne : ∀ m : GoMap EntityRegistration,
      (!m.values.isEmpty) = true ↔ ∃ k r, m.get k = some r := by
    intro m
    rw [Bool.not_eq_true', ← Bool.not_eq_true, List.isEmpty_iff]
    constructor
    · intro h
      obtain ⟨r, hr⟩ := List.exists_mem_of_ne_nil _ h
      obtain ⟨k, hk⟩ := GoMap.mem_values.mp hr
      exact ⟨k, r, hk⟩
    · rintro ⟨k, r, hk⟩ hnil
      have hmem := GoMap.mem_values.mpr ⟨k, hk⟩
      simp [hnil] at hmem
  simp only [checkInputAvailability, List.all_eq_true, hne]
  constructor
  · exact fun h subID sub hsub => h sub (GoMap.mem_values.mpr ⟨subID, hsub⟩)
  · rintro h sub hsub
    obtain ⟨subID, hsub⟩ := GoMap.mem_values.mp hsub
    exact h subID sub hsub

theorem available_receive {subscriptions : GoMap InputSubscription} {subID : String}
    {sub : InputSubscription} {r : EntityRegistration}
    (h : checkInputAvailability subscriptions = true) :
    checkInputAvailability (subscriptions.set subID (receive sub r)) = true := by
  rw [checkInputAvailability_iff] at h ⊢
  intro k other hk
  rw [GoMap.get_set] at hk
  split_ifs at hk
  · obtain rfl := Option.some.inj hk
    obtain ⟨r', hr', -⟩ := get_receive_self sub r
    exact ⟨_, r', hr'⟩
  · exact h k other hk

-- what is held after a registration was there before, but for the registration itself
theorem held_receive_cases {sub : InputSubscription} {r r' : EntityRegistration} {k : String}
    (h : (receive sub r).receivedEntityRegistrations.get k = some r') :
    (k = receivedKey sub r.id ∧ r' = r) ∨
      ∃ old, sub.receivedEntityRegistrations.get k = some old ∧ r'.id = old.id := by
  by_cases hk : k = receivedKey sub r.id
  · obtain ⟨r'', hr'', hcases⟩ := get_receive_self sub r
    rw [hk, hr''] at h
    obtain rfl := Option.some.inj h
    rcases hcases with ⟨-, rfl⟩ | ⟨old, hold, hid⟩
    · exact Or.inl ⟨hk, rfl⟩
    · exact Or.inr ⟨old, hk ▸ hold, hid⟩
  · rw [get_receive_ne hk] at h
    exact Or.inr ⟨r', h, rfl⟩

-- what handleASynchronousTaskIntent publishes: subscriptions that have received nothing yet
structure Established (flow : FogFlow) : Prop where
  uniqueKeys : flow.uniqueKeys = ∅
  executionPlan : flow.executionPlan = ∅
  deploymentPlan : flow.deploymentPlan = ∅
  nothingReceived : ∀ subID sub, flow.subscriptions.get subID = some sub →
    sub.receivedEntityRegistrations = ∅

def exampleStream (entityType groupBy : String) : InputStreamConfig :=
  ⟨entityType, [], groupBy, false, "", "", "", ""⟩

def exampleIntent (inputStreams : List InputStreamConfig) : TaskIntent :=
  ⟨⟨"", .null⟩, ⟨false, 0⟩, "topology", ⟨"task", "operator", inputStreams, []⟩, "intent"⟩

def exampleEntity (id type : String) : EntityRegistration := ⟨id, type, ∅, ∅, "broker"⟩

def exampleChoices : Choices where
  keyRank := fun _ => 0
  hashRank := fun _ _ _ => 0
  subRank := fun _ _ => 0
  regRank := fun _ _ _ => 0
  workerSelection := fun _ _ _ => "worker"

def exampleMarshal : GroupValue → String
  | .text s => "\"" ++ s ++ "\""
  | .metadata _ => "null"

def exampleEvent (subID : String) (entityAction : EntityAction) (id type : String) : Event :=
  ⟨subID, entityAction, exampleEntity id type, exampleChoices, fun _ _ => "worker"⟩

def exampleFlow (inputStreams : List InputStreamConfig) : FogFlow :=
  inputStreams.foldl (fun flow s =>
    flow.putSubscription ("sub" ++ s.entityType) ⟨s, "sub" ++ s.entityType, ∅⟩)
    (.init (exampleIntent inputStreams))

theorem established_exampleFlow (inputStreams : List InputStreamConfig) :
    Established (exampleFlow inputStreams) := by
  refine List.foldlRecOn (motive := Established) inputStreams _ ?_ ?_
  · exact ⟨rfl, rfl, rfl, by simp [FogFlow.init]⟩
  · intro flow h s _
    refine ⟨h.uniqueKeys, h.executionPlan, h.deploymentPlan, ?_⟩
    intro subID sub hsub
    simp only [FogFlow.putSubscription, GoMap.get_set] at hsub
    split_ifs at hsub
    · rw [← Option.some.inj hsub]
    · exact h.nothingReceived subID sub hsub

end FogFlow.Master
