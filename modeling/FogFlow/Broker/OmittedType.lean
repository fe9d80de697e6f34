import FogFlow.Broker.Forwarding

namespace FogFlow.Broker.OmittedType

open Ngsi Execution
open Network (Header ngsiv1SubscribeContext isProsumerSubscription withoutSuffix newBroker)
open Forwarding (subscriberList beTheSame elementFor notifySubscribers)

structure System where
  tb : ThinBroker
  entities : Entities

def System.initial : System := ⟨newBroker, ∅⟩

inductive Label where
  | subscribeContext (header : Header) (subReq : SubscribeContextRequest) (subID : String)
  | unsubscribeContext (fromBroker : Bool) (subID : String)
  | deleteSubscription (sid : String)
  | notifyAvailability (answers : Nat → Option String) (mainSubID : String)
      (req : NotifyContextAvailabilityRequest)
  | prosumerRegistration (answers : Nat → Option String) (req : NotifyContextAvailabilityRequest)
  | updateContext (ctxElem : ContextElement)
  | deleteEntity (eid : String)

def step (cfg : Config) (s : System) : Label → Option System
  | .subscribeContext header subReq subID =>
      some { s with tb := (ngsiv1SubscribeContext cfg.myURL header subReq subID s.tb).state }
  | .unsubscribeContext fromBroker subID =>
      some { s with tb := (unsubscribeContext fromBroker subID s.tb).state }
  | .deleteSubscription sid => some { s with tb := (deleteSubscription sid s.tb).state }
  | .notifyAvailability answers mainSubID req =>
      some { s with tb := (handleNGSI9Notify cfg answers mainSubID req false s.tb).state }
  | .prosumerRegistration answers req =>
      some { s with tb := (handleProsumerRegistration cfg answers req s.tb).state }
  | .updateContext ctxElem => some { s with entities := updateContextElement s.entities ctxElem }
  | .deleteEntity eid => some { s with entities := s.entities.delete eid }

def emptyElement (eid : String) : ContextElement := ⟨⟨"", false, eid⟩, "", [], []⟩

def notifiedOfUpdate (s : System) (ctxElem : ContextElement) (correlator : String) :
    List String :=
  (notifySubscribers s.tb (updateContextElement s.entities ctxElem) ctxElem correlator true).map
    Prod.snd

def notifiedOfDeletion (s : System) (eid : String) : List String :=
  (notifySubscribers s.tb (s.entities.delete eid) (emptyElement eid) "" false).map Prod.snd

-- the update carries the type that the stored element has, in both of its forms
def repeatsType (stored ctxElem : ContextElement) : Prop :=
  ctxElem.entity.type = stored.entity.type ∧ ctxElem.type = stored.type

def omitsType (ctxElem : ContextElement) : Prop := ctxElem.entity.type = "" ∧ ctxElem.type = ""

structure SameAudience (s : System) (eid : String) (stored : ContextElement) : Prop where
  deletion : ∀ ctxElem, ctxElem.entity.id = eid → repeatsType stored ctxElem →
    ∀ correlator, ∀ sid ∈ notifiedOfUpdate s ctxElem correlator, sid ∈ notifiedOfDeletion s eid
  update : ∀ ctxElem, ctxElem.entity.id = eid → repeatsType stored ctxElem →
    ∀ short, short.entity.id = eid → omitsType short →
    ∀ correlator sid, sid ∈ notifiedOfUpdate s ctxElem correlator ↔
      sid ∈ notifiedOfUpdate s short correlator

def TypeMayBeOmitted (s : System) : Prop :=
  ∀ eid stored, s.entities.get eid = some stored → SameAudience s eid stored

-- the list of a type that may be left out
def untypedList (tb : ThinBroker) : List String :=
  tb.entityId2Subcriptions.slice (genWildCard "")

-- the list of the type adds to that of the entity what the list of no type adds to it, and no id
-- is empty
structure ListedAlike (tb : ThinBroker) (eid wildCard : String) : Prop where
  typed : ∀ sid ∈ tb.entityId2Subcriptions.slice wildCard,
    sid ∈ tb.entityId2Subcriptions.slice eid ∨ sid ∈ untypedList tb
  untyped : ∀ sid ∈ untypedList tb, sid ∈ tb.entityId2Subcriptions.slice eid ∨
    sid ∈ tb.entityId2Subcriptions.slice wildCard
  named : ∀ sid, sid ∈ tb.entityId2Subcriptions.slice eid ∨
    sid ∈ tb.entityId2Subcriptions.slice wildCard → withoutSuffix sid ≠ ""

def ListsIgnoreType (s : System) : Prop :=
  s.tb.e2subLocked = false → ∀ eid stored, s.entities.get eid = some stored →
    ListedAlike s.tb eid stored.getTypeWildCard

variable {s : System} {tb : ThinBroker} {entities : Entities} {ctxElem stored : ContextElement}
  {eid sid correlator : String}

def Passes (tb : ThinBroker) (correlator sid : String) : Prop :=
  isProsumerSubscription correlator sid = false ∧ beTheSame tb correlator sid = false

theorem mem_notified {check : Bool} :
    sid ∈ (notifySubscribers tb entities ctxElem correlator check).map Prod.snd ↔
      sid ∈ subscriberList tb ctxElem.entity.id ctxElem.getTypeWildCard ∧
        Passes tb correlator sid ∧ (elementFor tb entities ctxElem check sid).isSome := by
  rw [notifySubscribers, List.mem_map]
  constructor
  · rintro ⟨⟨element, k⟩, hmem, rfl⟩
    obtain ⟨k', hk', heq⟩ := List.mem_filterMap.mp hmem
    obtain ⟨element', helement, hpair⟩ := Option.map_eq_some_iff.mp heq
    obtain ⟨rfl, rfl⟩ := Prod.mk.inj hpair
    obtain ⟨hlist, hpasses⟩ := List.mem_filter.mp hk'
    refine ⟨hlist, by simpa [Passes] using hpasses, ?_⟩
    rw [helement]
    rfl
  · rintro ⟨hlist, hpasses, hsome⟩
    obtain ⟨element, helement⟩ := Option.isSome_iff_exists.mp hsome
    refine ⟨(element, sid), List.mem_filterMap.mpr ⟨sid, List.mem_filter.mpr ⟨hlist, ?_⟩, ?_⟩, rfl⟩
    · simpa [Passes] using hpasses
    · rw [helement]
      rfl

theorem mem_notifiedOfUpdate : sid ∈ notifiedOfUpdate s ctxElem correlator ↔
    sid ∈ subscriberList s.tb ctxElem.entity.id ctxElem.getTypeWildCard ∧
      Passes s.tb correlator sid := by
  have hsome : (elementFor s.tb (updateContextElement s.entities ctxElem) ctxElem true
      sid).isSome := by
    rw [elementFor, if_pos rfl, get_updateContextElement, if_pos rfl]
    rfl
  rw [notifiedOfUpdate, mem_notified]
  simp [hsome]

theorem mem_notifiedOfDeletion : sid ∈ notifiedOfDeletion s eid ↔
    sid ∈ subscriberList s.tb eid (genWildCard "") ∧ Passes s.tb "" sid := by
  have hwild : (emptyElement eid).getTypeWildCard = genWildCard "" := rfl
  have hsome : (elementFor s.tb (s.entities.delete eid) (emptyElement eid) false sid).isSome := rfl
  have hid : (emptyElement eid).entity.id = eid := rfl
  rw [notifiedOfDeletion, mem_notified, hwild, hid]
  simp [hsome]

theorem mem_subscriberList {wildCard : String} : sid ∈ subscriberList tb eid wildCard ↔
    tb.e2subLocked = false ∧ (sid ∈ tb.entityId2Subcriptions.slice eid ∨
      sid ∈ tb.entityId2Subcriptions.slice wildCard) := by
  cases hlocked : tb.e2subLocked <;> simp [subscriberList, hlocked]

theorem wildCard_of_repeats (h : repeatsType stored ctxElem) :
    ctxElem.getTypeWildCard = stored.getTypeWildCard := by
  rw [ContextElement.getTypeWildCard, ContextElement.getTypeWildCard, h.1, h.2]

theorem wildCard_of_omits (h : omitsType ctxElem) : ctxElem.getTypeWildCard = genWildCard "" := by
  rw [ContextElement.getTypeWildCard, if_neg (not_not.mpr h.2), h.1]

theorem passes_empty_iff : Passes tb "" sid ↔ withoutSuffix sid ≠ "" := by
  have hsame : beTheSame tb "" sid = false := by
    cases hget : tb.subscriptions.get sid <;> simp [beTheSame, hget]
  have hempty : withoutSuffix "" = "" := rfl
  rw [Passes, hsame, isProsumerSubscription, hempty, beq_eq_false_iff_ne]
  exact (and_iff_left rfl).trans ne_comm

-- some correlator is neither that of the subscription nor its id
theorem exists_passes (tb : ThinBroker) (sid : String) : ∃ correlator, Passes tb correlator sid := by
  by_cases hsid : withoutSuffix sid = ""
  · have hown {correlator : String} (h : withoutSuffix correlator ≠ "") :
        isProsumerSubscription correlator sid = false := by
      rw [isProsumerSubscription, hsid]
      exact beq_eq_false_iff_ne.mpr h
    cases hget : tb.subscriptions.get sid with
    | none => exact ⟨"a", hown (by decide), by simp [beTheSame, hget]⟩
    | some subscription =>
      by_cases ha : subscription.subscriber.correlator = "a"
      · exact ⟨"b", hown (by decide), by simp [beTheSame, hget, ha]⟩
      · exact ⟨"a", hown (by decide), by simp [beTheSame, hget, Ne.symm ha]⟩
  · exact ⟨"", passes_empty_iff.mpr hsid⟩

theorem typeMayBeOmitted_of_listsIgnoreType (h : ListsIgnoreType s) : TypeMayBeOmitted s := by
  intro eid stored hstored
  refine ⟨?_, ?_⟩
  · intro ctxElem hid hrepeats correlator sid hsid
    rw [mem_notifiedOfUpdate, hid, wildCard_of_repeats hrepeats, mem_subscriberList] at hsid
    obtain ⟨⟨hlocked, hlist⟩, -⟩ := hsid
    have halike := h hlocked eid stored hstored
    rw [mem_notifiedOfDeletion, mem_subscriberList]
    exact ⟨⟨hlocked, hlist.elim Or.inl (halike.typed sid)⟩,
      passes_empty_iff.mpr (halike.named sid hlist)⟩
  · intro ctxElem hid hrepeats short hshort homits correlator sid
    rw [mem_notifiedOfUpdate, mem_notifiedOfUpdate, hid, hshort, wildCard_of_repeats hrepeats,
      wildCard_of_omits homits, mem_subscriberList, mem_subscriberList]
    refine and_congr_left (fun _ => and_congr_right (fun hlocked => ?_))
    have halike := h hlocked eid stored hstored
    exact ⟨fun hlist => hlist.elim Or.inl (halike.typed sid),
      fun hlist => hlist.elim Or.inl (halike.untyped sid)⟩

def repeating (stored : ContextElement) (eid : String) : ContextElement :=
  ⟨⟨stored.entity.type, false, eid⟩, stored.type, [], []⟩

theorem listsIgnoreType_of_typeMayBeOmitted (h : TypeMayBeOmitted s) : ListsIgnoreType s := by
  intro hlocked eid stored hstored
  have hsame := h eid stored hstored
  have hrepeats : repeatsType stored (repeating stored eid) := ⟨rfl, rfl⟩
  have hwild : (repeating stored eid).getTypeWildCard = stored.getTypeWildCard :=
    wildCard_of_repeats hrepeats
  have hupdate (sid : String) : sid ∈ subscriberList s.tb eid stored.getTypeWildCard ↔
      sid ∈ subscriberList s.tb eid (genWildCard "") := by
    obtain ⟨correlator, hpasses⟩ := exists_passes s.tb sid
    have hiff := hsame.update (repeating stored eid) rfl hrepeats (emptyElement eid) rfl ⟨rfl, rfl⟩
      correlator sid
    rw [mem_notifiedOfUpdate, mem_notifiedOfUpdate, hwild] at hiff
    exact ⟨fun hlist => (hiff.mp ⟨hlist, hpasses⟩).1, fun hlist => (hiff.mpr ⟨hlist, hpasses⟩).1⟩
  simp only [mem_subscriberList, hlocked, true_and] at hupdate
  refine ⟨fun sid hsid => (hupdate sid).mp (.inr hsid),
    fun sid hsid => (hupdate sid).mpr (.inr hsid), fun sid hsid => ?_⟩
  obtain ⟨correlator, hpasses⟩ := exists_passes s.tb sid
  have hnotified : sid ∈ notifiedOfUpdate s (repeating stored eid) correlator := by
    rw [mem_notifiedOfUpdate, hwild]
    exact ⟨mem_subscriberList.mpr ⟨hlocked, hsid⟩, hpasses⟩
  have hdeleted := hsame.deletion (repeating stored eid) rfl hrepeats correlator sid hnotified
  exact passes_empty_iff.mp (mem_notifiedOfDeletion.mp hdeleted).2

theorem typeMayBeOmitted_iff : TypeMayBeOmitted s ↔ ListsIgnoreType s :=
  ⟨listsIgnoreType_of_typeMayBeOmitted, typeMayBeOmitted_of_listsIgnoreType⟩

theorem type_omitted_iff {cfg : Config} {labels : List Label} :
    Always (step cfg) TypeMayBeOmitted System.initial labels ↔
      Always (step cfg) ListsIgnoreType System.initial labels := by
  constructor
  · exact fun h js s hp hs => typeMayBeOmitted_iff.mp (h js s hp hs)
  · exact fun h js s hp hs => typeMayBeOmitted_iff.mpr (h js s hp hs)

def allCars : SubscribeContextRequest :=
  { SubscribeContextRequest.zero with entities := [⟨"Car", false, ""⟩] }

def carReport : NotifyContextAvailabilityRequest :=
  ⟨"availability", [⟨⟨[⟨"Car", false, "car1"⟩], [], [], "http://broker"⟩, ⟨200, "OK"⟩⟩],
    ⟨201, "OK"⟩⟩

def typedCar : ContextElement := ⟨⟨"Car", false, "car1"⟩, "", [], []⟩

-- a client asks for all cars, and one of them appears
def carAppears : List Label :=
  [.subscribeContext ⟨"client", "", "", "", "", "", ""⟩ allCars "main",
    .notifyAvailability (fun _ => none) "main" carReport, .updateContext typedCar]

theorem untyped_requests_missed : ∃ s,
    exec (step ⟨"http://broker", false⟩) .initial carAppears = some s ∧
      s.entities.get "car1" = some typedCar ∧ notifiedOfUpdate s typedCar "" = ["main"] ∧
      notifiedOfUpdate s (emptyElement "car1") "" = [] ∧ notifiedOfDeletion s "car1" = [] ∧
      ¬ Always (step ⟨"http://broker", false⟩) TypeMayBeOmitted .initial carAppears := by
  have hrun : ∃ s, exec (step ⟨"http://broker", false⟩) .initial carAppears = some s ∧
      s.entities.get "car1" = some typedCar ∧ notifiedOfUpdate s typedCar "" = ["main"] ∧
      notifiedOfUpdate s (emptyElement "car1") "" = [] ∧ notifiedOfDeletion s "car1" = [] :=
    ⟨_, rfl, by decide, by decide, by decide, by decide⟩
  obtain ⟨s, hs, hstored, htyped, huntyped, hdeleted⟩ := hrun
  refine ⟨s, hs, hstored, htyped, huntyped, hdeleted, fun hall => ?_⟩
  have hsame := hall carAppears s List.prefix_rfl hs "car1" typedCar hstored
  have hmain : "main" ∈ notifiedOfUpdate s typedCar "" := by
    rw [htyped]
    exact List.mem_singleton_self _
  have hmissed := hsame.deletion typedCar rfl ⟨rfl, rfl⟩ "" "main" hmain
  rw [hdeleted] at hmissed
  cases hmissed

end FogFlow.Broker.OmittedType
