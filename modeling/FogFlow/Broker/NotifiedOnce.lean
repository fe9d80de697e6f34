import FogFlow.Broker.Selection

namespace FogFlow.Broker.NotifiedOnce

open Ngsi Execution Processing TypeIndex Selection
open Network (withoutSuffix isProsumerSubscription)
open Forwarding (subscriberList beTheSame elementFor notifySubscribers)

def startsWithStar (id : String) : Bool := id.toList.head? == some '*'

theorem startsWithStar_genWildCard (type : String) : startsWithStar (genWildCard type) = true := by
  simp [startsWithStar, genWildCard]

theorem ne_genWildCard {id : String} (h : startsWithStar id = false) (type : String) :
    id ≠ genWildCard type := by
  rintro rfl
  rw [startsWithStar_genWildCard] at h
  cases h

-- every selected subscription that is not the origin gets the stored element
theorem notified_eq_selected {tb : ThinBroker} {entities : Entities} {ctxElem : ContextElement}
    {correlator : String} {checkSelectedAttributes : Bool}
    (hstored : entities.get ctxElem.entity.id ≠ none) :
    (notifySubscribers tb entities ctxElem correlator checkSelectedAttributes).map Prod.snd =
      (subscriberList tb ctxElem.entity.id ctxElem.getTypeWildCard).filter (fun sid =>
        !isProsumerSubscription correlator sid && !beTheSame tb correlator sid) := by
  obtain ⟨element, helement⟩ := Option.ne_none_iff_exists'.mp hstored
  have hsent : ∀ sid, ∃ sent, (elementFor tb entities ctxElem checkSelectedAttributes sid).map
      (·, sid) = some (sent, sid) := by
    intro sid
    unfold elementFor
    split_ifs
    · rw [helement]
      exact ⟨_, rfl⟩
    · exact ⟨ctxElem, rfl⟩
  unfold notifySubscribers
  generalize (subscriberList tb ctxElem.entity.id ctxElem.getTypeWildCard).filter _ = sids
  induction sids with
  | nil => rfl
  | cons sid sids ih =>
    obtain ⟨sent, hsid⟩ := hsent sid
    simp only [List.filterMap_cons, hsid, List.map_cons, ih]

section ByType

variable {request : SubscribeContextRequest} {log : List Naming} {n : Naming} {id type : String}

theorem listed_type (hsimple : request.isSimplyByType = true) (hn : n ∈ log)
    (hact : n.action ≠ .delete) (hlisted : ∃ e ∈ request.entities, e.type = n.entity.type)
    (hids : ∀ d ∈ log, startsWithStar d.entity.id = false) :
    listed request n.entity.getTypeWildCard log = true := by
  obtain ⟨before, after, rfl⟩ := List.append_of_mem hn
  refine listed_of_kept rfl hact ?_ (fun d hd _ => ?_)
  · obtain ⟨e, he, htype⟩ := hlisted
    simp only [adds, if_pos hsimple, beq_self_eq_true, Bool.true_and]
    exact List.any_eq_true.mpr ⟨e, he, beq_iff_eq.mpr htype⟩
  · exact ne_genWildCard (hids d (by simp [hd])) _

theorem listed_id (hsimple : request.isSimplyByType = true) (hid : startsWithStar id = false) :
    listed request id log = false := by
  refine listed_eq_false (fun n _ => ?_)
  have hne : (n.entity.getTypeWildCard == id) = false :=
    beq_eq_false_iff_ne.mpr (ne_genWildCard hid n.entity.type).symm
  simp [adds, hsimple, hne]

end ByType

theorem type_update_notified_once {cfg : Config} {labels : List Label} {s : System}
    (hrun : exec (step cfg) .initial labels = some s) {main : String}
    {request : SubscribeContextRequest} (hexists : s.request main = some request)
    (hexternal : request.subscriber.isInternal = false)
    (hsimple : request.isSimplyByType = true)
    (hids : ∀ n ∈ s.log, n.main = main → startsWithStar n.entity.id = false)
    {n : Naming} (hhandled : n ∈ s.log) (hmain : n.main = main) (hcreate : n.action ≠ .delete)
    (hlisted : ∃ e ∈ request.entities, e.type = n.entity.type)
    {entities : Entities} {ctxElem : ContextElement}
    (hstored : entities.get ctxElem.entity.id ≠ none)
    (hid : startsWithStar ctxElem.entity.id = false)
    (htype : ctxElem.getTypeWildCard = genWildCard n.entity.type) {correlator : String}
    (hself : withoutSuffix correlator ≠ withoutSuffix main)
    (horigin : correlator = "" ∨ correlator ≠ request.subscriber.correlator)
    (checkSelectedAttributes : Bool) :
    ((notifySubscribers s.broker entities ctxElem correlator checkSelectedAttributes).map
      Prod.snd).count main = 1 := by
  have hlog : ∀ d ∈ logOf s.log main, startsWithStar d.entity.id = false := by
    intro d hd
    obtain ⟨hmem, heq⟩ := List.mem_filter.mp hd
    exact hids d hmem (beq_iff_eq.mp heq)
  have hn : n ∈ logOf s.log main := List.mem_filter.mpr ⟨hhandled, beq_iff_eq.mpr hmain⟩
  have hindexed := (indexed_run hrun hexists hexternal).byType hsimple
  have hl : s.broker.e2subLocked = false := (known_exec hrun).unlocked
  have hpasses : (!isProsumerSubscription correlator main && !beTheSame s.broker correlator main) =
      true := by
    have hget : s.broker.subscriptions.get main = some request := hexists
    simp only [isProsumerSubscription, beq_eq_false_iff_ne.mpr hself, beTheSame, hget,
      Option.any_some, Bool.not_false, Bool.true_and, Bool.not_eq_true', Bool.and_eq_false_iff]
    rcases horigin with rfl | hne
    · exact Or.inl (Or.inl rfl)
    · exact Or.inr (beq_eq_false_iff_ne.mpr hne)
  rw [notified_eq_selected hstored, List.count_filter (p := fun sid =>
    !isProsumerSubscription correlator sid && !beTheSame s.broker correlator sid) hpasses,
    subscriberList, hl,
    if_neg Bool.false_ne_true, List.count_append, hindexed, htype, hindexed,
    listed_id hsimple hid]
  have hwild : listed request (genWildCard n.entity.type) (logOf s.log main) = true :=
    listed_type hsimple hn hcreate hlisted hlog
  rw [hwild]
  rfl

def comingAndGoing : List Label :=
  [.subscribe "main" (byType "Car"), .notify "main" (hosting 201 [("http://broker", car1)]) ["1"],
    .notify "main" (hosting 410 [("http://broker", car1)]) ["2"]]

def car3 : ContextElement := ⟨⟨"Car", false, "car3"⟩, "Car", [], []⟩

theorem car_notified_once : ∃ s, exec (step exampleConfig) .initial comingAndGoing = some s ∧
    ((notifySubscribers s.broker (updateContextElement ∅ car3) car3 "client" true).map
      Prod.snd).count "main" = 1 := by
  have hrun : ∃ s, exec (step exampleConfig) .initial comingAndGoing = some s ∧
      s.request "main" = some (byType "Car") ∧
      s.log = [⟨"main", .create, "http://broker", car1⟩, ⟨"main", .delete, "http://broker", car1⟩] :=
    ⟨_, rfl, rfl, rfl⟩
  obtain ⟨s, hs, hget, hlog⟩ := hrun
  have hids : ∀ n ∈ s.log, n.main = "main" → startsWithStar n.entity.id = false := by
    rw [hlog]
    decide
  have hhandled : (⟨"main", .create, "http://broker", car1⟩ : Naming) ∈ s.log := by
    rw [hlog]
    decide
  exact ⟨s, hs, type_update_notified_once hs hget rfl rfl hids hhandled rfl (by decide)
    ⟨_, List.mem_singleton.mpr rfl, rfl⟩ (by simp [get_updateContextElement, car3]) (by decide) rfl
    (by decide) (Or.inr (by decide)) true⟩

end FogFlow.Broker.NotifiedOnce
