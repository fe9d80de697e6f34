import FogFlow.Broker.SingleRoute

namespace FogFlow.Broker.SelectedDelivery

open Ngsi Execution Handler Network

-- an element for a subscription, with the state of its entity when a broker made it
structure Notice where
  held : ContextElement
  sid : String
  element : ContextElement

-- a notifyContext message on its way to a broker
structure Message where
  url : String
  notice : Notice

-- what the subscriber of a client's subscription was sent
structure Delivery where
  attributes : List String
  notice : Notice

structure System where
  net : Network.System
  entities : GoMap Entities
  inFlight : List Message
  delivered : List Delivery

def System.initial (addresses : List Address) : System := ⟨.initial addresses, ∅, [], []⟩

def System.entitiesOf (s : System) (url : String) : Entities := (s.entities.get url).getD ∅

def nextBroker (brokers : GoMap ThinBroker) (tb : ThinBroker) (sid : String) : Option String :=
  (Forwarding.notifyURL tb sid).filter (fun url => (brokers.get url).isSome)

-- sendReliableNotify posts to the reference of the subscription, be it a broker or not
def messageOf (brokers : GoMap ThinBroker) (tb : ThinBroker) (notice : Notice) : Option Message :=
  (nextBroker brokers tb notice.sid).map (fun url => ⟨url, notice⟩)

def deliveryOf (brokers : GoMap ThinBroker) (tb : ThinBroker) (notice : Notice) :
    Option Delivery :=
  if (nextBroker brokers tb notice.sid).isSome then none
  else (tb.subscriptions.get notice.sid).map (fun subscription =>
    ⟨subscription.attributes, notice⟩)

def System.send (s : System) (tb : ThinBroker) (notices : List Notice) : System :=
  { s with
    inFlight := s.inFlight ++ notices.filterMap (messageOf s.net.brokers tb)
    delivered := s.delivered ++ notices.filterMap (deliveryOf s.net.brokers tb) }

def noticesOf (held : ContextElement) (sent : List (ContextElement × String)) : List Notice :=
  sent.map (fun sent => ⟨held, sent.2, sent.1⟩)

def updateContext2LocalSite (s : System) (url : String) (ctxElem : ContextElement)
    (correlator : String) (tb : ThinBroker) : System :=
  let entities := updateContextElement (s.entitiesOf url) ctxElem
  let held := (entities.get ctxElem.entity.id).getD ctxElem
  { s with entities := s.entities.set url entities }.send tb
    (noticesOf held (Forwarding.notifySubscribers tb entities ctxElem correlator true))

def emptyElement (eid : String) : ContextElement := ⟨⟨"", false, eid⟩, "", [], []⟩

def deleteEntity (s : System) (url eid : String) (tb : ThinBroker) : System :=
  let entities := (s.entitiesOf url).delete eid
  { s with entities := s.entities.set url entities }.send tb
    (noticesOf (emptyElement eid)
      (Forwarding.notifySubscribers tb entities (emptyElement eid) "" false))

def notifyOneSubscriberWithCurrentStatus (s : System) (url : String) (entities : List EntityId)
    (sid : String) (tb : ThinBroker) : System :=
  s.send tb (entities.filterMap (fun entity =>
    ((s.entitiesOf url).get entity.id).map (fun element =>
      ⟨element, sid,
        element.cloneWithSelectedAttributes (Forwarding.selectedAttributes tb sid)⟩)))

def passedOn (s : System) (m : Message) (tb : ThinBroker) : List (ContextElement × String) :=
  Forwarding.ngsiv1NotifyContext tb (s.entitiesOf m.url) m.notice.sid m.notice.element

def notifyContext (s : System) (m : Message) (tb : ThinBroker) : System :=
  s.send tb (noticesOf m.notice.held (passedOn s m tb))

-- each element of a message is handled on its own; the first message of a subscription, with the
-- current state of its entities, may come at any time
inductive Label where
  | wire (label : Network.Label)
  | updateContext (url : String) (ctxElem : ContextElement) (correlator : String)
  | deleteEntity (url eid : String)
  | currentStatus (url : String) (entities : List EntityId) (sid : String)
  | notifyContext (n : Nat)

def step (debugEnabled : Bool) (s : System) : Label → Option System
  | .wire label => (Network.step debugEnabled s.net label).map (fun net => { s with net })
  | .updateContext url ctxElem correlator =>
      (s.net.brokers.get url).map (updateContext2LocalSite s url ctxElem correlator)
  | .deleteEntity url eid => (s.net.brokers.get url).map (deleteEntity s url eid)
  | .currentStatus url entities sid =>
      (s.net.brokers.get url).map (notifyOneSubscriberWithCurrentStatus s url entities sid)
  | .notifyContext n => (s.inFlight[n]?).bind (fun m =>
      (s.net.brokers.get m.url).map
        (notifyContext { s with inFlight := s.inFlight.eraseIdx n } m))

structure Selects (d : Delivery) : Prop where
  named : ∀ a ∈ d.notice.element.attributes, a.name ∈ d.attributes
  all : ∀ a ∈ d.notice.held.attributes, a.name ∈ d.attributes → a ∈ d.notice.element.attributes

def Selected (s : System) : Prop := ∀ d ∈ s.delivered, d.attributes ≠ [] → Selects d

-- the entity of a message has no attribute that a subscription which gets it leaves out
def NamesAll (s : System) : Label → Prop
  | .notifyContext n => ∀ m tb, s.inFlight[n]? = some m → s.net.brokers.get m.url = some tb →
      ∀ sid ∈ (passedOn s m tb).map Prod.snd, ∀ subscription,
        tb.subscriptions.get sid = some subscription → subscription.attributes ≠ [] →
          ∀ a ∈ m.notice.held.attributes, a.name ∈ subscription.attributes
  | _ => True

section Subscriptions

variable {Q : SubscribeContextRequest → Prop} {cfg : Config} {isProsumer : Bool}
  {mainSubID sid : String} {request : SubscribeContextRequest}

def AllSubs (Q : SubscribeContextRequest → Prop) (tb : ThinBroker) : Prop :=
  ∀ sid request, tb.subscriptions.get sid = some request → Q request

theorem allSubs_put {tb : ThinBroker} (hall : AllSubs Q tb) (hq : Q request) :
    AllSubs Q (tb.putSubscription sid request) := by
  intro k r hget
  simp only [ThinBroker.putSubscription, GoMap.get_set] at hget
  split_ifs at hget
  · rw [← Option.some.inj hget]
    exact hq
  · exact hall k r hget

theorem keptFor_allSubs : KeptFor (AllSubs Q) sid :=
  ⟨fun _ _ hall => hall, fun _ _ hall => hall, fun _ _ hall => hall⟩

theorem leaves_subscribeContext (hq : Q request) :
    Leaves (AllSubs Q) (subscribeContext request sid) :=
  keptFor_allSubs.subscribeContext (fun _ hall => allSubs_put hall hq)

theorem leaves_handleNGSI9Notify {answers : Nat → Option String}
    {req : NotifyContextAvailabilityRequest}
    (hq : ∀ entities registration, Q (remoteRequest cfg entities registration)) :
    Leaves (AllSubs Q) (handleNGSI9Notify cfg answers mainSubID req isProsumer) :=
  keptFor_allSubs.handleNGSI9Notify (fun _ _ _ _ _ entities _ hall =>
    allSubs_put hall (hq entities _))

end Subscriptions

-- a subscription that is notified at a broker selects no attributes
def Plain (brokers : GoMap ThinBroker) (request : SubscribeContextRequest) : Prop :=
  (brokers.get request.reference).isSome → request.attributes = []

def AllPlain (n : Network.System) : Prop :=
  ∀ url tb, n.brokers.get url = some tb → AllSubs (Plain n.brokers) tb

variable {n n' : Network.System} {debugEnabled : Bool}

theorem allPlain_handleAt {url : String} {drawn : List (String × String)} {h : Handler ThinBroker}
    (hall : AllPlain n) (hh : Leaves (AllSubs (Plain n.brokers)) h)
    (hn : handleAt n url drawn h = some n') : AllPlain n' := by
  obtain ⟨tb, htb, rfl⟩ := Option.map_eq_some_iff.mp hn
  have hkeys : Plain (n.brokers.set url (h tb).state) = Plain n.brokers := by
    funext request
    have hsame : ((n.brokers.set url (h tb).state).get request.reference).isSome =
        (n.brokers.get request.reference).isSome := by
      rw [GoMap.get_set]
      split_ifs with heq
      · rw [heq, htb]
        rfl
      · rfl
    rw [Plain, hsame]
    rfl
  intro k r hr
  rw [hkeys]
  dsimp only at hr
  rw [GoMap.get_set] at hr
  split_ifs at hr
  · rw [← Option.some.inj hr]
    exact hh tb (hall url tb htb)
  · exact hall k r hr

theorem allPlain_step {label : Network.Label} (hw : Wired n) (hall : AllPlain n)
    (hn : Network.step debugEnabled n label = some n') : AllPlain n' := by
  cases label with
  | subscribe url subID header subReq =>
    simp only [Network.step, subscribe] at hn
    split_ifs at hn with hguard
    refine allPlain_handleAt hall (leaves_subscribeContext (fun hbroker => ?_)) hn
    have hclient := hguard.1.2.2
    rw [Option.isNone_iff_eq_none] at hclient
    simp only [takeRequest, hclient] at hbroker
    cases hbroker
  | notify url mainSubID req answers =>
    simp only [Network.step, notify] at hn
    split_ifs at hn
    have hplain : ∀ entities registration,
        Plain n.brokers (remoteRequest ⟨url, debugEnabled⟩ entities registration) :=
      fun _ _ _ => rfl
    exact allPlain_handleAt hall (leaves_handleNGSI9Notify hplain) hn
  | accept url sid =>
    obtain ⟨request, hrequest, hn⟩ := Option.bind_eq_some_iff.mp hn
    obtain ⟨hfound, hremote⟩ := Option.filter_eq_some_iff.mp hrequest
    have hne : request.subscriber.brokerURL ≠ url := by simpa using hremote
    have hreference := (placed_of_found hw hfound).reference.mpr hne
    obtain ⟨tb, htb, hget⟩ := Option.bind_eq_some_iff.mp hfound
    have hempty : request.attributes = [] :=
      hall url tb htb sid request hget (by rw [hreference, htb]; rfl)
    have hplain : Plain n.brokers (takeRequest request.subscriber.brokerURL brokerHeader request) :=
      fun _ => hempty
    have hleaves : Leaves (AllSubs (Plain n.brokers)) (ngsiv1SubscribeContext
        request.subscriber.brokerURL brokerHeader request sid) := leaves_subscribeContext hplain
    exact allPlain_handleAt hall hleaves hn

variable {s t : System} {tb : ThinBroker} {notice : Notice} {notices : List Notice}
  {brokers : GoMap ThinBroker}

structure Sound (s : System) : Prop where
  wired : Wired s.net
  plain : AllPlain s.net
  whole : ∀ m ∈ s.inFlight, m.notice.element.attributes = m.notice.held.attributes

theorem nextBroker_of_attributes (hplain : AllSubs (Plain brokers) tb) {sid : String}
    {subscription : SubscribeContextRequest} (hget : tb.subscriptions.get sid = some subscription)
    (hsome : subscription.attributes ≠ []) : nextBroker brokers tb sid = none := by
  unfold nextBroker Forwarding.notifyURL
  rw [hget, Option.bind_some, Option.filter_eq_none_iff]
  intro url hurl hbroker
  split_ifs at hurl
  rw [← Option.some.inj hurl] at hbroker
  exact hsome (hplain sid subscription hget hbroker)

theorem selectedAttributes_of_nextBroker (hplain : AllSubs (Plain brokers) tb) {sid : String}
    (h : (nextBroker brokers tb sid).isSome) : Forwarding.selectedAttributes tb sid = [] := by
  unfold Forwarding.selectedAttributes
  cases hget : tb.subscriptions.get sid with
  | none => rfl
  | some subscription =>
    by_contra hsome
    rw [nextBroker_of_attributes hplain hget hsome] at h
    cases h

theorem mem_send_inFlight {m : Message} (h : m ∈ (s.send tb notices).inFlight) :
    m ∈ s.inFlight ∨ ∃ notice ∈ notices, m.notice = notice ∧
      (nextBroker s.net.brokers tb notice.sid).isSome := by
  refine (List.mem_append.mp h).imp_right (fun hnew => ?_)
  obtain ⟨notice, hmem, hm⟩ := List.mem_filterMap.mp hnew
  obtain ⟨url, hurl, rfl⟩ := Option.map_eq_some_iff.mp hm
  exact ⟨notice, hmem, rfl, by rw [hurl]; rfl⟩

theorem mem_send_delivered {d : Delivery} : d ∈ (s.send tb notices).delivered ↔
    d ∈ s.delivered ∨ ∃ notice ∈ notices, nextBroker s.net.brokers tb notice.sid = none ∧
      ∃ subscription, tb.subscriptions.get notice.sid = some subscription ∧
        d = ⟨subscription.attributes, notice⟩ := by
  refine List.mem_append.trans (or_congr_right ?_)
  rw [List.mem_filterMap]
  refine exists_congr (fun notice => and_congr_right (fun _ => ?_))
  unfold deliveryOf
  split_ifs with hbroker
  · refine iff_of_false (by simp) ?_
    rintro ⟨hnone, -⟩
    rw [hnone] at hbroker
    cases hbroker
  · rw [Option.not_isSome_iff_eq_none] at hbroker
    rw [Option.map_eq_some_iff]
    exact ⟨fun ⟨r, hr, hd⟩ => ⟨hbroker, r, hr, hd.symm⟩, fun ⟨_, r, hr, hd⟩ => ⟨r, hr, hd.symm⟩⟩

theorem sound_send (h : Sound s) (hwhole : ∀ notice ∈ notices,
    (nextBroker s.net.brokers tb notice.sid).isSome →
      notice.element.attributes = notice.held.attributes) : Sound (s.send tb notices) := by
  refine ⟨h.wired, h.plain, fun m hm => ?_⟩
  rcases mem_send_inFlight hm with hold | ⟨notice, hmem, rfl, hbroker⟩
  · exact h.whole m hold
  · exact hwhole _ hmem hbroker

theorem selected_send_iff (hs : Selected s) : Selected (s.send tb notices) ↔
    ∀ notice ∈ notices, nextBroker s.net.brokers tb notice.sid = none → ∀ subscription,
      tb.subscriptions.get notice.sid = some subscription → subscription.attributes ≠ [] →
        Selects ⟨subscription.attributes, notice⟩ := by
  constructor
  · intro h notice hmem hnone subscription hget hsome
    exact h _ (mem_send_delivered.mpr (.inr ⟨notice, hmem, hnone, subscription, hget, rfl⟩)) hsome
  · intro h d hd hsome
    rcases mem_send_delivered.mp hd with hold | ⟨notice, hmem, hnone, subscription, hget, rfl⟩
    · exact hs d hold hsome
    · exact h notice hmem hnone subscription hget hsome

theorem selects_clone {attributes : List String} {held : ContextElement} {sid : String}
    (hsome : attributes ≠ []) :
    Selects ⟨attributes, ⟨held, sid, held.cloneWithSelectedAttributes attributes⟩⟩ := by
  have hattributes : (held.cloneWithSelectedAttributes attributes).attributes =
      attributes.flatMap (fun requiredAttrName =>
        held.attributes.filter (fun attr => attr.name == requiredAttrName)) := by
    rw [ContextElement.cloneWithSelectedAttributes, if_neg (by simpa using hsome)]
  constructor
  · intro a ha
    rw [hattributes] at ha
    obtain ⟨n, hn, hmem⟩ := List.mem_flatMap.mp ha
    rw [beq_iff_eq.mp (List.mem_filter.mp hmem).2]
    exact hn
  · intro a ha hn
    rw [hattributes]
    exact List.mem_flatMap.mpr ⟨a.name, hn, List.mem_filter.mpr ⟨ha, beq_self_eq_true a.name⟩⟩

-- a notice made from a stored entity
def Cloned (tb : ThinBroker) (notice : Notice) : Prop :=
  notice.element = notice.held.cloneWithSelectedAttributes
    (Forwarding.selectedAttributes tb notice.sid)

theorem whole_of_cloned (hplain : AllSubs (Plain brokers) tb) (h : Cloned tb notice)
    (hbroker : (nextBroker brokers tb notice.sid).isSome) :
    notice.element.attributes = notice.held.attributes := by
  rw [h, selectedAttributes_of_nextBroker hplain hbroker]
  rfl

theorem selects_of_cloned (h : Cloned tb notice) {subscription : SubscribeContextRequest}
    (hget : tb.subscriptions.get notice.sid = some subscription)
    (hsome : subscription.attributes ≠ []) : Selects ⟨subscription.attributes, notice⟩ := by
  obtain ⟨held, sid, element⟩ := notice
  have hclone : element = held.cloneWithSelectedAttributes subscription.attributes := by
    rw [show element = _ from h]
    simp only [Forwarding.selectedAttributes, hget]
    rfl
  rw [hclone]
  exact selects_clone hsome

theorem cloned_step (hplain : AllSubs (Plain s.net.brokers) tb) (h : Sound s) (hs : Selected s)
    (hcloned : ∀ notice ∈ notices, Cloned tb notice) :
    Sound (s.send tb notices) ∧ Selected (s.send tb notices) :=
  ⟨sound_send h (fun notice hmem hbroker => whole_of_cloned hplain (hcloned notice hmem) hbroker),
    (selected_send_iff hs).mpr (fun notice hmem _ _ hget hsome =>
      selects_of_cloned (hcloned notice hmem) hget hsome)⟩

theorem element_of_notified {entities : Entities} {ctxElem : ContextElement} {correlator : String}
    {check : Bool} {sent : ContextElement × String}
    (h : sent ∈ Forwarding.notifySubscribers tb entities ctxElem correlator check) :
    Forwarding.elementFor tb entities ctxElem check sent.2 = some sent.1 := by
  obtain ⟨sid, -, hsent⟩ := List.mem_filterMap.mp h
  obtain ⟨element, helement, rfl⟩ := Option.map_eq_some_iff.mp hsent
  exact helement

theorem cloned_updated {entities : Entities} {ctxElem : ContextElement} {correlator : String}
    (hmem : notice ∈ noticesOf ((entities.get ctxElem.entity.id).getD ctxElem)
      (Forwarding.notifySubscribers tb entities ctxElem correlator true)) : Cloned tb notice := by
  obtain ⟨sent, hsent, rfl⟩ := List.mem_map.mp hmem
  have helement := element_of_notified hsent
  simp only [Forwarding.elementFor, if_true] at helement
  obtain ⟨stored, hstored, hclone⟩ := Option.map_eq_some_iff.mp helement
  simp only [Cloned, hstored, Option.getD_some]
  exact hclone.symm

theorem passedOn_attributes {m : Message} {sent : ContextElement × String}
    (h : sent ∈ passedOn s m tb) : sent.1.attributes = m.notice.element.attributes := by
  have helement := element_of_notified h
  simp only [Forwarding.elementFor, Bool.false_eq_true, if_false] at helement
  rw [← Option.some.inj helement]

theorem sound_withEntities (h : Sound s) (entities : GoMap Entities) :
    Sound { s with entities } :=
  ⟨h.wired, h.plain, h.whole⟩

theorem updated_step {url : String} (ctxElem : ContextElement) (correlator : String) (h : Sound s)
    (hs : Selected s) (htb : s.net.brokers.get url = some tb) :
    Sound (updateContext2LocalSite s url ctxElem correlator tb) ∧
      Selected (updateContext2LocalSite s url ctxElem correlator tb) := by
  unfold updateContext2LocalSite
  exact cloned_step (h.plain url tb htb) (sound_withEntities h _) hs
    (fun notice hmem => cloned_updated hmem)

theorem deleted_step (url eid : String) (tb : ThinBroker) (h : Sound s) (hs : Selected s) :
    Sound (deleteEntity s url eid tb) ∧ Selected (deleteEntity s url eid tb) := by
  have hnone : ∀ notice ∈ noticesOf (emptyElement eid) (Forwarding.notifySubscribers tb
      ((s.entitiesOf url).delete eid) (emptyElement eid) "" false),
      notice.element.attributes = [] ∧ notice.held.attributes = [] := by
    intro notice hmem
    obtain ⟨sent, hsent, rfl⟩ := List.mem_map.mp hmem
    have helement := element_of_notified hsent
    simp only [Forwarding.elementFor, Bool.false_eq_true, if_false] at helement
    rw [← Option.some.inj helement]
    exact ⟨rfl, rfl⟩
  refine ⟨sound_send (sound_withEntities h _) (fun notice hmem _ => ?_),
    (selected_send_iff hs).mpr (fun notice hmem _ subscription _ _ => ⟨?_, ?_⟩)⟩
  · rw [(hnone notice hmem).1, (hnone notice hmem).2]
  · dsimp only
    rw [(hnone notice hmem).1]
    simp
  · dsimp only
    rw [(hnone notice hmem).2]
    simp

theorem cloned_status {url sid : String} {entities : List EntityId}
    (hmem : notice ∈ entities.filterMap (fun entity =>
      ((s.entitiesOf url).get entity.id).map (fun element => (⟨element, sid,
        element.cloneWithSelectedAttributes (Forwarding.selectedAttributes tb sid)⟩ : Notice)))) :
    Cloned tb notice := by
  obtain ⟨entity, -, hnotice⟩ := List.mem_filterMap.mp hmem
  obtain ⟨element, -, rfl⟩ := Option.map_eq_some_iff.mp hnotice
  rfl

theorem status_step {url : String} (entities : List EntityId) (sid : String) (h : Sound s)
    (hs : Selected s) (htb : s.net.brokers.get url = some tb) :
    Sound (notifyOneSubscriberWithCurrentStatus s url entities sid tb) ∧
      Selected (notifyOneSubscriberWithCurrentStatus s url entities sid tb) := by
  unfold notifyOneSubscriberWithCurrentStatus
  exact cloned_step (h.plain url tb htb) h hs (fun notice hmem => cloned_status hmem)

theorem sound_eraseIdx (h : Sound s) (k : Nat) :
    Sound { s with inFlight := s.inFlight.eraseIdx k } :=
  ⟨h.wired, h.plain, fun m hm => h.whole m (List.mem_of_mem_eraseIdx hm)⟩

theorem notified_step {k : Nat} {m : Message} (h : Sound s) (hs : Selected s)
    (hm : s.inFlight[k]? = some m) (htb : s.net.brokers.get m.url = some tb) :
    Sound (notifyContext { s with inFlight := s.inFlight.eraseIdx k } m tb) ∧
      (NamesAll s (.notifyContext k) ↔
        Selected (notifyContext { s with inFlight := s.inFlight.eraseIdx k } m tb)) := by
  have hheld := h.whole m (List.mem_of_getElem? hm)
  have hwhole : ∀ notice ∈ noticesOf m.notice.held (passedOn s m tb),
      notice.held = m.notice.held ∧ notice.element.attributes = notice.held.attributes := by
    intro notice hmem
    obtain ⟨sent, hsent, rfl⟩ := List.mem_map.mp hmem
    exact ⟨rfl, (passedOn_attributes hsent).trans hheld⟩
  refine ⟨sound_send (sound_eraseIdx h k) (fun notice hmem _ => (hwhole notice hmem).2), ?_⟩
  have hiff : Selected (notifyContext { s with inFlight := s.inFlight.eraseIdx k } m tb) ↔ _ :=
    selected_send_iff hs
  rw [hiff]
  constructor
  · intro hnames notice hmem _ subscription hget hsome
    obtain ⟨hsame, hattributes⟩ := hwhole notice hmem
    obtain ⟨sent, hsent, rfl⟩ := List.mem_map.mp hmem
    have hall := hnames m tb hm htb sent.2 (List.mem_map_of_mem hsent) subscription hget hsome
    constructor
    · intro a ha
      rw [hattributes] at ha
      exact hall a ha
    · intro a ha _
      rw [hattributes]
      exact ha
  · intro hselects m' tb' hm' htb' sid hsid subscription hget hsome a ha
    obtain rfl := Option.some.inj (hm.symm.trans hm')
    obtain rfl := Option.some.inj (htb.symm.trans htb')
    obtain ⟨sent, hsent, rfl⟩ := List.mem_map.mp hsid
    have hnone := nextBroker_of_attributes (h.plain m.url tb htb) hget hsome
    have hmem : (⟨m.notice.held, sent.2, sent.1⟩ : Notice) ∈
        noticesOf m.notice.held (passedOn s m tb) := List.mem_map_of_mem hsent
    refine (hselects _ hmem hnone subscription hget hsome).named a ?_
    rw [(hwhole _ hmem).2]
    exact ha

theorem sound_initial (addresses : List Address) : Sound (.initial addresses) := by
  have hnew : ∀ brokers : GoMap ThinBroker, (∀ url tb, brokers.get url = some tb → tb = newBroker) →
      ∀ url tb, (addresses.foldl (fun brokers c => brokers.set (getBrokerURL c) newBroker)
        brokers).get url = some tb → tb = newBroker := by
    induction addresses with
    | nil => exact fun _ h => h
    | cons c rest ih =>
      refine fun brokers h => ih _ (fun url tb hurl => ?_)
      rw [GoMap.get_set] at hurl
      split_ifs at hurl
      · exact (Option.some.inj hurl).symm
      · exact h url tb hurl
  refine ⟨wired_initial addresses, fun url tb htb sid request hget => ?_, fun m hm => ?_⟩
  · rw [hnew ∅ (by simp) url tb htb] at hget
    cases hget
  · cases hm

theorem sound_step {label : Label} (h : Sound s) (hs : Selected s)
    (ht : step debugEnabled s label = some t) : Sound t ∧ (NamesAll s label ↔ Selected t) := by
  cases label with
  | wire label =>
    obtain ⟨n, hn, rfl⟩ := Option.map_eq_some_iff.mp ht
    exact ⟨⟨wired_step h.wired hn, allPlain_step h.wired h.plain hn, h.whole⟩,
      iff_of_true trivial hs⟩
  | updateContext url ctxElem correlator =>
    obtain ⟨tb, htb, rfl⟩ := Option.map_eq_some_iff.mp ht
    obtain ⟨hsound, hselected⟩ := updated_step ctxElem correlator h hs htb
    exact ⟨hsound, iff_of_true trivial hselected⟩
  | deleteEntity url eid =>
    obtain ⟨tb, htb, rfl⟩ := Option.map_eq_some_iff.mp ht
    obtain ⟨hsound, hselected⟩ := deleted_step url eid tb h hs
    exact ⟨hsound, iff_of_true trivial hselected⟩
  | currentStatus url entities sid =>
    obtain ⟨tb, htb, rfl⟩ := Option.map_eq_some_iff.mp ht
    obtain ⟨hsound, hselected⟩ := status_step entities sid h hs htb
    exact ⟨hsound, iff_of_true trivial hselected⟩
  | notifyContext k =>
    obtain ⟨m, hm, ht⟩ := Option.bind_eq_some_iff.mp ht
    obtain ⟨tb, htb, rfl⟩ := Option.map_eq_some_iff.mp ht
    exact notified_step h hs hm htb

theorem delivered_selected_iff {addresses : List Address} {labels : List Label}
    (hrun : exec (step debugEnabled) (.initial addresses) labels = some t) :
    Always (step debugEnabled) Selected (.initial addresses) labels ↔
      Meets (step debugEnabled) NamesAll (.initial addresses) labels := by
  refine always_iff_meets (I := fun _ s => Sound s ∧ Selected s) hrun
    ⟨sound_initial addresses, fun d hd => by cases hd⟩ (fun d hd => by cases hd) ?_ ?_
  · intro js label r u _ ⟨hsound, hselected⟩ hnames hu
    obtain ⟨hu', hiff⟩ := sound_step hsound hselected hu
    exact ⟨hu', hiff.mp hnames⟩
  · intro js label r u _ ⟨hsound, hselected⟩ hu
    exact (sound_step hsound hselected hu).2

def speedingCar : ContextElement :=
  ⟨⟨"Car", false, "car1"⟩, "", [⟨"speed", "integer", .number 50, []⟩,
    ⟨"color", "string", .string "red", []⟩], []⟩

-- a client at B selects attributes of cars, and one of them is updated at A
def remoteCar (attributes : List String) : List Label :=
  [.wire (.subscribe Forwarding.urlB "subB" Forwarding.clientHeader
      { Forwarding.allCars with attributes }),
    .wire (.notify Forwarding.urlB "subB" (Forwarding.carAt "car1" Forwarding.urlA)
      (fun _ => some "atA")),
    .wire (.accept Forwarding.urlB "atA"), .updateContext Forwarding.urlA speedingCar "",
    .notifyContext 0]

def twoSites : System := .initial [Forwarding.siteA, Forwarding.siteB]

theorem unselected_color_delivered : ∃ u, exec (step false) twoSites (remoteCar ["speed"]) = some u ∧
    ⟨["speed"], ⟨speedingCar, "subB", speedingCar⟩⟩ ∈ u.delivered ∧ ¬ Selected u := by
  refine ⟨_, rfl, List.mem_singleton.mpr rfl, fun h => ?_⟩
  have hselects := h ⟨["speed"], ⟨speedingCar, "subB", speedingCar⟩⟩ (List.mem_singleton.mpr rfl)
    (by simp)
  have hcolor := hselects.named ⟨"color", "string", .string "red", []⟩ (by simp [speedingCar])
  simp at hcolor

def namesChecked (s : System) : Label → Bool
  | .notifyContext n => (s.inFlight[n]?).all (fun m => (s.net.brokers.get m.url).all (fun tb =>
      ((passedOn s m tb).map Prod.snd).all (fun sid => (tb.subscriptions.get sid).all
        (fun subscription => m.notice.held.attributes.all (fun a =>
          subscription.attributes.contains a.name)))))
  | _ => true

theorem namesAll_of_checked {label : Label} (h : namesChecked s label = true) :
    NamesAll s label := by
  cases label with
  | notifyContext k =>
    intro m tb hm htb sid hsid subscription hget _ a ha
    simp only [namesChecked, hm, htb, Option.all_some] at h
    have hsub := List.all_eq_true.mp h sid hsid
    rw [hget, Option.all_some] at hsub
    exact List.contains_iff_mem.mp (List.all_eq_true.mp hsub a ha)
  | _ => trivial

theorem both_attributes_selected :
    Always (step false) Selected twoSites (remoteCar ["speed", "color"]) := by
  have hrun : ∃ u, exec (step false) twoSites (remoteCar ["speed", "color"]) = some u := ⟨_, rfl⟩
  obtain ⟨u, hu⟩ := hrun
  exact (delivered_selected_iff hu).mpr
    (meets_of_check (c := namesChecked) (fun _ _ _ h => namesAll_of_checked h) rfl)

end FogFlow.Broker.SelectedDelivery
