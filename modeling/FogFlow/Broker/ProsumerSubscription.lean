import FogFlow.Broker.Repetition

namespace FogFlow.Broker.ProsumerSubscription

open Ngsi Handler

-- the calls of subscribeContext and the states sent out are recorded beside the maps of the broker
structure Monitored where
  tb : ThinBroker
  entities : GoMap ContextElement
  created : List String
  sent : List (String × List ContextElement)

def lift (h : Handler ThinBroker) : Handler Monitored := fun s =>
  ⟨{ s with tb := (h s.tb).state }, (h s.tb).exit⟩

def currentStatus (entities : GoMap ContextElement) (selectedAttributes : List String)
    (eids : List EntityId) : List ContextElement :=
  eids.filterMap (fun entity => (entities.get entity.id).map (fun element =>
    element.cloneWithSelectedAttributes selectedAttributes))

def notifyOneSubscriberWithCurrentStatus (eids : List EntityId) (sid : String) :
    Handler Monitored := modify (fun s =>
  match s.tb.subscriptions.get sid with
  | some subscription =>
      { s with sent := s.sent ++ [(sid, currentStatus s.entities subscription.attributes eids)] }
  | none => s)

def subscribeContext (subReq : SubscribeContextRequest) (subID : String) : Handler Monitored :=
  seq (modify (fun s => { s with created := s.created ++ [subID] }))
    (seq (lift (Broker.subscribeContext subReq subID))
      (if subReq.subscriber.isInternal then
        notifyOneSubscriberWithCurrentStatus subReq.entities subID
      else skip))

-- what the last call sends goes to the prosumer subscription, not to the internal one
def handleProsumerRegistration (cfg : Config) (answers : Nat → Option String)
    (notifyAvail : NotifyContextAvailabilityRequest) : Handler Monitored :=
  seq (each (fun registrationResp =>
      each (fun request => subscribeContext request (genProsumerSubID notifyAvail.subscriptionId))
        (prosumerRequests cfg registrationResp.contextRegistration))
      notifyAvail.contextRegistrationResponseList)
    (lift (handleNGSI9Notify cfg answers notifyAvail.subscriptionId notifyAvail true))

def Monitored.start (tb : ThinBroker) (entities : GoMap ContextElement) : Monitored :=
  ⟨tb, entities, [], []⟩

-- the recorded run is the run of the broker
def Runs (h : Handler Monitored) (k : Handler ThinBroker) : Prop :=
  ∀ s, (h s).state.tb = (k s.tb).state ∧ (h s).exit = (k s.tb).exit

theorem Runs.seq {h h' : Handler Monitored} {k k' : Handler ThinBroker} (hk : Runs h k)
    (hk' : Runs h' k') : Runs (seq h h') (seq k k') := by
  intro s
  obtain ⟨hstate, hexit⟩ := hk s
  unfold Handler.seq
  rw [← hexit]
  split
  · rw [← hstate]
    exact hk' _
  · exact ⟨hstate, hexit⟩

theorem Runs.each {α : Type} {f : α → Handler Monitored} {g : α → Handler ThinBroker}
    (h : ∀ a, Runs (f a) (g a)) (xs : List α) : Runs (each f xs) (each g xs) := by
  induction xs with
  | nil => exact fun s => ⟨rfl, rfl⟩
  | cons a xs ih => exact (h a).seq ih

theorem runs_subscribeContext (subReq : SubscribeContextRequest) (subID : String) :
    Runs (subscribeContext subReq subID) (Broker.subscribeContext subReq subID) := by
  intro s
  unfold subscribeContext
  rw [seq_of_done rfl, Handler.seq]
  split
  next hdone =>
    refine ⟨?_, ?_⟩
    · split_ifs
      · simp only [notifyOneSubscriberWithCurrentStatus, Handler.modify]
        split <;> rfl
      · rfl
    · refine Eq.trans ?_ (show Exit.done = _ from hdone.symm)
      split_ifs <;> rfl
  next => exact ⟨rfl, rfl⟩

theorem runs_handleProsumerRegistration (cfg : Config) (answers : Nat → Option String)
    (notifyAvail : NotifyContextAvailabilityRequest) :
    Runs (handleProsumerRegistration cfg answers notifyAvail)
      (Broker.handleProsumerRegistration cfg answers notifyAvail) :=
  (Runs.each (fun _ => Runs.each (fun _ => runs_subscribeContext _ _) _) _).seq
    (fun _ => ⟨rfl, rfl⟩)

def textsOf (name : String) (metadata : List ContextMetadata) : List String :=
  metadata.filterMap (fun m => match m.value with
    | .string value => if m.name = name then some value else none
    | _ => none)

def flagsOf (name : String) (metadata : List ContextMetadata) : List Bool :=
  metadata.filterMap (fun m => match m.value with
    | .bool value => if m.name = name then some value else none
    | _ => none)

-- of several entries for one setting the last one counts
structure Carries (metadata : List ContextMetadata) (subscriber : Subscriber) : Prop where
  destinationType :
    subscriber.destinationType = ((textsOf "ngsiversion" metadata).getLast?).getD ""
  tenant : subscriber.tenant = ((textsOf "Ngsild-Tenant" metadata).getLast?).getD ""
  correlator : subscriber.correlator = ((textsOf "Fiware-Correlator" metadata).getLast?).getD ""
  requireReliability : subscriber.requireReliability =
    ((flagsOf "Require-Reliability" metadata).getLast?).getD false

structure OwnSubscription (cfg : Config) (registration : ContextRegistration)
    (request : SubscribeContextRequest) : Prop where
  entities : request.entities = registration.entityIdList
  reference : request.reference = registration.providingApplication
  itself : request.subscriber.brokerURL = cfg.myURL
  internal : request.subscriber.isInternal = true
  settings : Carries registration.metadata request.subscriber

def indexKeys (eids : List EntityId) : List String :=
  if eids.all EntityId.isSimplyByType then eids.map (fun eid => genWildCard eid.type)
  else eids.map (fun eid => eid.id)

-- an id that the index lists already is not listed once more
structure SubscribedAs (cfg : Config) (before after : Monitored)
    (registrationResp : ContextRegistrationResponse) (id : String) : Prop where
  stored : ∃ request, after.tb.subscriptions.get id = some request ∧
    OwnSubscription cfg registrationResp.contextRegistration request
  indexed : ∀ k ∈ indexKeys registrationResp.contextRegistration.entityIdList,
    (after.tb.entityId2Subcriptions.slice k).count id =
      max 1 ((before.tb.entityId2Subcriptions.slice k).count id)
  notified :
    (id, currentStatus before.entities [] registrationResp.contextRegistration.entityIdList) ∈
    after.sent

def EachSubscribed (cfg : Config) (req : NotifyContextAvailabilityRequest)
    (before after : Monitored) : Prop :=
  ∃ ids : List String, ids.Nodup ∧
    List.Forall₂ (SubscribedAs cfg before after) req.contextRegistrationResponseList ids ∧
    after.created.Perm ids ∧ (after.sent.map Prod.fst).Perm ids

def recognised (metadata : ContextMetadata) : Bool :=
  ["ngsiversion", "Ngsild-Tenant", "Fiware-Correlator", "Require-Reliability"].contains
    metadata.name

-- the subscription is issued once where one entry is recognised, and the index can be locked
def Reaches (tb : ThinBroker) (eids : List EntityId) : Prop := tb.e2subLocked = false ∨ eids = []

def SingleSetting (tb : ThinBroker) (req : NotifyContextAvailabilityRequest) : Prop :=
  req.contextRegistrationResponseList = [] ∨
    ∃ registrationResp, req.contextRegistrationResponseList = [registrationResp] ∧
      registrationResp.contextRegistration.metadata.countP recognised = 1 ∧
      Reaches tb registrationResp.contextRegistration.entityIdList

section Settings

variable {cfg : Config} {registration : ContextRegistration} {metadata : List ContextMetadata}
  {m : ContextMetadata} {subscriber : Subscriber}

theorem takeProsumerMetadata_eq_none :
    takeProsumerMetadata subscriber m = none ↔ recognised m = false := by
  unfold takeProsumerMetadata recognised
  split <;> simp_all

theorem textsOf_eq_nil {name : String} (h : ∀ value, m.value = .string value → m.name ≠ name) :
    textsOf name [m] = [] := by
  cases hvalue : m.value with
  | string value => simp [textsOf, hvalue, h value hvalue]
  | _ => simp [textsOf, hvalue]

theorem flagsOf_eq_nil {name : String} (h : ∀ value, m.value = .bool value → m.name ≠ name) :
    flagsOf name [m] = [] := by
  cases hvalue : m.value with
  | bool value => simp [flagsOf, hvalue, h value hvalue]
  | _ => simp [flagsOf, hvalue]

theorem Carries.same (h : Carries metadata subscriber)
    (htext : ∀ name ∈ ["ngsiversion", "Ngsild-Tenant", "Fiware-Correlator"], ∀ value,
      m.value = .string value → m.name ≠ name)
    (hflag : ∀ value, m.value = .bool value → m.name ≠ "Require-Reliability") :
    Carries (metadata ++ [m]) subscriber := by
  have htexts (name : String) (hname : name ∈ ["ngsiversion", "Ngsild-Tenant",
      "Fiware-Correlator"]) : textsOf name (metadata ++ [m]) = textsOf name metadata := by
    have happend : textsOf name (metadata ++ [m]) = textsOf name metadata ++ textsOf name [m] :=
      List.filterMap_append
    rw [happend, textsOf_eq_nil (htext name hname), List.append_nil]
  have hflags : flagsOf "Require-Reliability" (metadata ++ [m]) =
      flagsOf "Require-Reliability" metadata ++ flagsOf "Require-Reliability" [m] :=
    List.filterMap_append
  rw [flagsOf_eq_nil hflag, List.append_nil] at hflags
  refine ⟨?_, ?_, ?_, ?_⟩
  · rw [htexts _ (by simp), h.destinationType]
  · rw [htexts _ (by simp), h.tenant]
  · rw [htexts _ (by simp), h.correlator]
  · rw [hflags, h.requireReliability]

-- an entry sets at most the one setting that it names
theorem Carries.take (h : Carries metadata subscriber) {next : Subscriber}
    (htake : takeProsumerMetadata subscriber m = some next) : Carries (metadata ++ [m]) next := by
  unfold takeProsumerMetadata at htake
  split at htake
  case h_5 hversion htenant hcorrelator hreliability =>
    split_ifs at htake
    rw [← Option.some.inj htake]
    refine h.same (fun name hname value hvalue hn => ?_)
      (fun value hvalue hn => hreliability value hn hvalue)
    simp only [List.mem_cons, List.not_mem_nil, or_false] at hname
    rcases hname with rfl | rfl | rfl
    · exact hversion value hn hvalue
    · exact htenant value hn hvalue
    · exact hcorrelator value hn hvalue
  all_goals
    obtain ⟨hdestination, htenant, hcorrelator, hreliability⟩ := h
    rename_i hname hvalue
    rw [← Option.some.inj htake]
    constructor <;> simp [textsOf, flagsOf, hname, hvalue, hdestination, htenant, hcorrelator,
      hreliability]

theorem Carries.skip (h : Carries metadata subscriber)
    (htake : takeProsumerMetadata subscriber m = none) : Carries (metadata ++ [m]) subscriber := by
  have hnot : m.name ∉ ["ngsiversion", "Ngsild-Tenant", "Fiware-Correlator",
      "Require-Reliability"] := by
    simpa [recognised] using takeProsumerMetadata_eq_none.mp htake
  refine h.same (fun name hname value _ hn => ?_) (fun value _ hn => ?_)
  · rw [hn] at hnot
    exact hnot (List.mem_append_left ["Require-Reliability"] hname)
  · rw [hn] at hnot
    exact hnot (by simp)

-- what the loop over the metadata has collected, and the requests it has issued on the way
structure Collected (cfg : Config) (registration : ContextRegistration)
    (metadata : List ContextMetadata) (collected : Subscriber × List SubscribeContextRequest) :
    Prop where
  carries : Carries metadata collected.1
  count : collected.2.length = metadata.countP recognised
  same : ∀ request ∈ collected.2, request.entities = registration.entityIdList ∧
    request.attributes = [] ∧ request.restriction = .zero ∧ request.subscriber.isInternal = true
  last : ∀ request, collected.2.getLast? = some request → request.subscriber = collected.1 ∧
    request.reference = registration.providingApplication ∧ request.subscriber.brokerURL = cfg.myURL

def collect (cfg : Config) (registration : ContextRegistration)
    (collected : Subscriber × List SubscribeContextRequest) (m : ContextMetadata) :
    Subscriber × List SubscribeContextRequest :=
  match takeProsumerMetadata collected.1 m with
  | none => collected
  | some subscriber =>
      let own := { subscriber with brokerURL := cfg.myURL, isInternal := true }
      (own, collected.2 ++ [{ SubscribeContextRequest.zero with
        entities := registration.entityIdList
        reference := registration.providingApplication
        subscriber := own }])

theorem collected_foldl (metadata : List ContextMetadata) :
    Collected cfg registration metadata
      (metadata.foldl (collect cfg registration) (Subscriber.zero, [])) := by
  induction metadata using List.reverseRecOn with
  | nil => exact ⟨⟨rfl, rfl, rfl, rfl⟩, rfl, by simp, by simp⟩
  | append_singleton metadata m ih =>
    rw [List.foldl_append, List.foldl_cons, List.foldl_nil]
    generalize metadata.foldl (collect cfg registration) (Subscriber.zero, []) = collected at ih
    unfold collect
    cases htake : takeProsumerMetadata collected.1 m with
    | none =>
      have hnot := takeProsumerMetadata_eq_none.mp htake
      refine ⟨ih.carries.skip htake, ?_, ih.same, ih.last⟩
      rw [List.countP_append, ih.count, List.countP_singleton, hnot]
      simp
    | some subscriber =>
      have hrecognised : recognised m = true := by
        by_contra hnot
        rw [Bool.not_eq_true] at hnot
        rw [takeProsumerMetadata_eq_none.mpr hnot] at htake
        cases htake
      obtain ⟨hdestination, htenant, hcorrelator, hreliability⟩ := ih.carries.take htake
      refine ⟨⟨hdestination, htenant, hcorrelator, hreliability⟩, ?_, ?_, ?_⟩
      · rw [List.length_append, ih.count, List.countP_append, List.countP_singleton, hrecognised]
        simp
      · intro request hmem
        rcases List.mem_append.mp hmem with hmem | hmem
        · exact ih.same request hmem
        · rw [List.mem_singleton.mp hmem]
          exact ⟨rfl, rfl, rfl, rfl⟩
      · intro request hlast
        obtain rfl : _ = request := by simpa using hlast
        exact ⟨rfl, rfl, rfl⟩

theorem prosumerRequests_eq (cfg : Config) (registration : ContextRegistration) :
    prosumerRequests cfg registration =
      (registration.metadata.foldl (collect cfg registration) (Subscriber.zero, [])).2 := rfl

theorem length_prosumerRequests (cfg : Config) (registration : ContextRegistration) :
    (prosumerRequests cfg registration).length = registration.metadata.countP recognised := by
  have hcollected : Collected cfg registration registration.metadata _ := collected_foldl _
  rw [prosumerRequests_eq, hcollected.count]

theorem ownSubscription_of_single {request : SubscribeContextRequest}
    (h : prosumerRequests cfg registration = [request]) :
    OwnSubscription cfg registration request := by
  rw [prosumerRequests_eq] at h
  have hcollected : Collected cfg registration registration.metadata _ := collected_foldl _
  obtain ⟨hsubscriber, hreference, hurl⟩ := hcollected.last request (by rw [h]; rfl)
  obtain ⟨hentities, -, -, hinternal⟩ := hcollected.same request (by rw [h]; simp)
  refine ⟨hentities, hreference, hurl, hinternal, ?_⟩
  rw [hsubscriber]
  exact hcollected.carries

end Settings

section Calls

variable {cfg : Config} {answers : Nat → Option String} {id : String} {eids : List EntityId}
  {request : SubscribeContextRequest} {requests : List SubscribeContextRequest} {s : Monitored}
  {req : NotifyContextAvailabilityRequest}

-- the requests of one registration
structure Issued (eids : List EntityId) (request : SubscribeContextRequest) : Prop where
  entities : request.entities = eids
  attributes : request.attributes = []
  restriction : request.restriction = .zero
  internal : request.subscriber.isInternal = true

theorem issued_of_mem {registration : ContextRegistration}
    (h : request ∈ prosumerRequests cfg registration) :
    Issued registration.entityIdList request := by
  rw [prosumerRequests_eq] at h
  have hcollected : Collected cfg registration registration.metadata _ := collected_foldl _
  obtain ⟨hentities, hattributes, hrestriction, hinternal⟩ := hcollected.same request h
  exact ⟨hentities, hattributes, hrestriction, hinternal⟩

theorem broker_subscribeContext_eq (h : Issued eids request) {tb : ThinBroker}
    (htb : Reaches tb eids) :
    Broker.subscribeContext request id tb = ⟨withIndex (tb.putSubscription id request)
      (applyOps tb.entityId2Subcriptions (ownOps request id)), .done⟩ := by
  rcases htb with hu | hnil
  · exact subscribeContext_eq request id hu
  · have hnone : request.entities = [] := h.entities.trans hnil
    unfold Broker.subscribeContext ownOps
    rw [h.internal, hnone]
    rfl

def subscribed (request : SubscribeContextRequest) (id : String) (s : Monitored) : Monitored where
  tb := withIndex (s.tb.putSubscription id request)
    (applyOps s.tb.entityId2Subcriptions (ownOps request id))
  entities := s.entities
  created := s.created ++ [id]
  sent := s.sent ++ [(id, currentStatus s.entities [] request.entities)]

theorem subscribeContext_done (h : Issued eids request) (hs : Reaches s.tb eids) :
    subscribeContext request id s = ⟨subscribed request id s, .done⟩ := by
  have hlift : lift (Broker.subscribeContext request id)
      { s with created := s.created ++ [id] } =
        ⟨{ s with
          tb := withIndex (s.tb.putSubscription id request)
            (applyOps s.tb.entityId2Subcriptions (ownOps request id))
          created := s.created ++ [id] }, .done⟩ := by
    unfold lift
    dsimp only
    rw [broker_subscribeContext_eq h hs]
  have hget : (withIndex (s.tb.putSubscription id request) (applyOps s.tb.entityId2Subcriptions
      (ownOps request id))).subscriptions.get id = some request :=
    GoMap.get_set_self _ _ _
  have hfirst : subscribeContext request id s = seq (lift (Broker.subscribeContext request id))
      (if request.subscriber.isInternal then
        notifyOneSubscriberWithCurrentStatus request.entities id else skip)
      { s with created := s.created ++ [id] } := seq_of_done rfl
  rw [hfirst, seq_of_done (by rw [hlift]), hlift, if_pos h.internal]
  simp only [notifyOneSubscriberWithCurrentStatus, Handler.modify, hget, h.attributes]
  rfl

theorem reaches_subscribed (hs : Reaches s.tb eids) :
    Reaches (subscribed request id s).tb eids := hs

-- where the lock is free every request is carried out
theorem each_subscribeContext_done (h : ∀ request ∈ requests, Issued eids request)
    (hs : Reaches s.tb eids) :
    each (fun request => subscribeContext request id) requests s =
      ⟨requests.foldl (fun s request => subscribed request id s) s, .done⟩ :=
  each_eq_foldl (P := fun s => Reaches s.tb eids)
    (fun request hmem _ hs => subscribeContext_done (h request hmem) hs)
    (fun _ _ hs => reaches_subscribed hs) hs

theorem recorded_foldl (requests : List SubscribeContextRequest) (s : Monitored) :
    (requests.foldl (fun s request => subscribed request id s) s).created =
        s.created ++ List.replicate requests.length id ∧
      (requests.foldl (fun s request => subscribed request id s) s).sent.map Prod.fst =
        s.sent.map Prod.fst ++ List.replicate requests.length id := by
  induction requests generalizing s with
  | nil => simp
  | cons request requests ih =>
    rw [List.foldl_cons, (ih _).1, (ih _).2]
    simp [subscribed, List.replicate_succ]

theorem broker_subscribeContext_blocked (h : Issued eids request) (hne : eids ≠ [])
    {tb : ThinBroker} (hlocked : tb.e2subLocked = true) :
    Broker.subscribeContext request id tb = ⟨tb.putSubscription id request, .blocked⟩ := by
  obtain ⟨entity, rest, hentities⟩ := List.exists_cons_of_ne_nil hne
  have hlock : lockE2sub (tb.putSubscription id request) =
      ⟨tb.putSubscription id request, .blocked⟩ := if_pos hlocked
  have hown : indexOwn request id entity (tb.putSubscription id request) =
      ⟨tb.putSubscription id request, .blocked⟩ := by
    unfold indexOwn
    rw [seq_of_blocked (by rw [hlock]), hlock]
  unfold Broker.subscribeContext
  rw [seq_of_done rfl, if_pos h.internal, h.entities, hentities]
  exact (seq_of_blocked (congrArg Outcome.exit hown)).trans hown

theorem subscribeContext_blocked (h : Issued eids request) (hne : eids ≠ [])
    (hlocked : s.tb.e2subLocked = true) :
    subscribeContext request id s =
      ⟨{ s with tb := s.tb.putSubscription id request, created := s.created ++ [id] },
        .blocked⟩ := by
  have hlift : lift (Broker.subscribeContext request id) { s with created := s.created ++ [id] } =
      ⟨{ s with tb := s.tb.putSubscription id request, created := s.created ++ [id] },
        .blocked⟩ := by
    unfold lift
    dsimp only
    rw [broker_subscribeContext_blocked h hne hlocked]
  unfold subscribeContext
  rw [seq_of_done rfl]
  exact (seq_of_blocked (congrArg Outcome.exit hlift)).trans hlift

-- where it is not, the first request waits before it sends anything
theorem not_notified (id : String) (h : ∀ request ∈ requests, Issued eids request)
    (hne : eids ≠ []) :
    Leaves (fun s : Monitored => s.tb.e2subLocked = true ∧ s.sent = [])
      (each (fun request => subscribeContext request id) requests) := by
  refine leaves_each (fun request hmem s hs => ?_)
  rw [subscribeContext_blocked (h request hmem) hne hs.1]
  exact hs

theorem leaves_lift {P : Monitored → Prop} {h : Handler ThinBroker}
    (hP : ∀ s, P s → ∀ tb, P { s with tb }) : Leaves P (lift h) := fun s hs => hP s hs _

-- every internal subscription is created under the one id of the notification
theorem created_ids (s : Monitored)
    (hs : ∀ x ∈ s.created, x = genProsumerSubID req.subscriptionId) :
    ∀ x ∈ (handleProsumerRegistration cfg answers req s).state.created,
      x = genProsumerSubID req.subscriptionId := by
  refine leaves_seq (P := fun s : Monitored => ∀ x ∈ s.created,
    x = genProsumerSubID req.subscriptionId) ?_ (leaves_lift (fun _ hs _ => hs)) s hs
  refine leaves_each (fun _ _ => leaves_each (fun request _ => ?_))
  refine leaves_seq (fun s hs x hx => ?_) (leaves_seq (leaves_lift (fun _ hs _ => hs)) ?_)
  · rcases List.mem_append.mp hx with hx | hx
    · exact hs x hx
    · exact List.mem_singleton.mp hx
  · split_ifs
    · intro s hs
      unfold notifyOneSubscriberWithCurrentStatus Handler.modify
      dsimp only
      split <;> exact hs
    · exact leaves_skip

-- the subscriptions at the providing applications are not recorded
theorem recorded_handleProsumerRegistration (cfg : Config) (answers : Nat → Option String)
    (req : NotifyContextAvailabilityRequest) (s : Monitored) :
    (handleProsumerRegistration cfg answers req s).state.created =
        (each (fun registrationResp : ContextRegistrationResponse =>
          each (fun request => subscribeContext request (genProsumerSubID req.subscriptionId))
            (prosumerRequests cfg registrationResp.contextRegistration))
          req.contextRegistrationResponseList s).state.created ∧
      (handleProsumerRegistration cfg answers req s).state.sent =
        (each (fun registrationResp : ContextRegistrationResponse =>
          each (fun request => subscribeContext request (genProsumerSubID req.subscriptionId))
            (prosumerRequests cfg registrationResp.contextRegistration))
          req.contextRegistrationResponseList s).state.sent := by
  unfold handleProsumerRegistration seq
  split <;> exact ⟨rfl, rfl⟩

variable {registrationResp : ContextRegistrationResponse}

theorem countP_of_single (cfg : Config) (answers : Nat → Option String)
    (hlist : req.contextRegistrationResponseList = [registrationResp])
    (hs : Reaches s.tb registrationResp.contextRegistration.entityIdList)
    (hstart : s.created = []) :
    (handleProsumerRegistration cfg answers req s).state.created.length =
      registrationResp.contextRegistration.metadata.countP recognised := by
  have hcount := length_prosumerRequests cfg registrationResp.contextRegistration
  rw [(recorded_handleProsumerRegistration cfg answers req s).1, hlist, each_singleton,
    each_subscribeContext_done (fun _ => issued_of_mem) hs, (recorded_foldl _ s).1, hstart,
    ← hcount]
  simp

theorem singleSetting_of_eachSubscribed {tb : ThinBroker} {entities : GoMap ContextElement}
    (h : EachSubscribed cfg req (.start tb entities)
      (handleProsumerRegistration cfg answers req (.start tb entities)).state) :
    SingleSetting tb req := by
  obtain ⟨ids, hnodup, hall, hcreated, hsent⟩ := h
  have hsame : ids = List.replicate ids.length (genProsumerSubID req.subscriptionId) :=
    List.eq_replicate_of_mem (fun x hx => created_ids (.start tb entities)
      (by simp [Monitored.start]) x (hcreated.mem_iff.mpr hx))
  have hone : ids.length ≤ 1 := by
    rw [hsame] at hnodup
    exact List.nodup_replicate.mp hnodup
  have hlength := hall.length_eq
  match hlist : req.contextRegistrationResponseList with
  | [] => exact Or.inl hlist
  | [registrationResp] =>
    refine Or.inr ⟨registrationResp, hlist, ?_⟩
    rw [hlist] at hlength
    by_cases hreach : Reaches tb registrationResp.contextRegistration.entityIdList
    · refine ⟨?_, hreach⟩
      have hcount := countP_of_single cfg answers (s := .start tb entities) hlist hreach rfl
      rw [hcreated.length_eq, ← hlength] at hcount
      exact hcount.symm
    · exfalso
      rw [Reaches, not_or, Bool.not_eq_false] at hreach
      have hissued : ∀ request ∈ prosumerRequests cfg registrationResp.contextRegistration,
          Issued registrationResp.contextRegistration.entityIdList request :=
        fun _ => issued_of_mem
      have hnone := not_notified (genProsumerSubID req.subscriptionId) hissued hreach.2
        (.start tb entities) ⟨hreach.1, rfl⟩
      rw [(recorded_handleProsumerRegistration cfg answers req _).2, hlist, each_singleton,
        hnone.2] at hsent
      have hlen := hsent.length_eq
      rw [← hlength] at hlen
      cases hlen
  | first :: second :: rest =>
    rw [hlist] at hlength
    simp only [List.length_cons] at hlength
    omega

end Calls

section Single

variable {cfg : Config} {answers : Nat → Option String} {id mainSubID k : String}
  {eids : List EntityId} {request : SubscribeContextRequest} {index : Index}
  {req : NotifyContextAvailabilityRequest} {registrationResp : ContextRegistrationResponse}

theorem count_addKey (key : String) :
    ((addKey index key id).slice k).count id =
      if k = key then max 1 ((index.slice k).count id) else (index.slice k).count id := by
  rw [slice_addKey]
  by_cases hk : k = key
  · subst hk
    by_cases hmem : id ∈ index.slice k
    · have hpos := List.count_pos_iff.mpr hmem
      rw [if_neg (by simp [hmem]), if_pos rfl]
      omega
    · have hzero := List.count_eq_zero.mpr hmem
      rw [if_pos ⟨rfl, hmem⟩, if_pos rfl, List.count_append, hzero]
      simp
  · simp [hk]

theorem count_addKeys (index : Index) (k id : String) (keys : List String) :
    ((applyOps index (keys.map (IndexOp.add · id))).slice k).count id =
      if k ∈ keys then max 1 ((index.slice k).count id) else (index.slice k).count id := by
  induction keys generalizing index with
  | nil => rfl
  | cons key keys ih =>
    have hstep : applyOps index ((key :: keys).map (IndexOp.add · id)) =
        applyOps (addKey index key id) (keys.map (IndexOp.add · id)) := rfl
    rw [hstep, ih, count_addKey]
    by_cases hk : k = key
    · simp [hk]
    · simp [hk]

theorem ownOps_eq (id : String) (h : Issued eids request) :
    ∃ keys : List String, ownOps request id = keys.map (IndexOp.add · id) ∧
      ∀ k ∈ indexKeys eids, k ∈ keys := by
  have hsimple : request.isSimplyByType = eids.all EntityId.isSimplyByType := by
    rw [SubscribeContextRequest.isSimplyByType, h.restriction, h.entities]
    rfl
  unfold ownOps ownEntityOps indexKeys
  rw [if_pos h.internal, hsimple, h.entities]
  split_ifs
  · refine ⟨eids.flatMap (fun _ => request.getTypeWildCards none), by rw [List.map_flatMap],
      fun k hk => ?_⟩
    obtain ⟨eid, heid, -⟩ := List.mem_map.mp hk
    refine List.mem_flatMap.mpr ⟨eid, heid, ?_⟩
    rw [SubscribeContextRequest.getTypeWildCards, h.entities]
    exact hk
  · refine ⟨eids.map (fun eid => eid.id), ?_, fun _ hk => hk⟩
    rw [List.map_map, List.map_eq_flatMap]
    rfl

-- the internal subscription is not touched on behalf of another id
def Undisturbed (id : String) (request : SubscribeContextRequest) (index : Index)
    (tb : ThinBroker) : Prop :=
  tb.subscriptions.get id = some request ∧
    ∀ k, (tb.entityId2Subcriptions.slice k).count id = (index.slice k).count id

theorem undisturbed_keptFor (hne : mainSubID ≠ id) :
    KeptFor (Undisturbed id request index) mainSubID := by
  refine ⟨fun _ _ h => h, fun key tb h => ⟨h.1, fun k => ?_⟩, fun key tb h => ⟨h.1, fun k => ?_⟩⟩
  · have hother : (IndexOp.append key mainSubID).member ≠ id := hne
    exact (count_apply_of_member hother).trans (h.2 k)
  · have hother : (IndexOp.remove key mainSubID).member ≠ id := hne
    exact (count_apply_of_member hother).trans (h.2 k)

theorem undisturbed_handleNGSI9Notify (cfg : Config) (hne : mainSubID ≠ id)
    (hanswers : ∀ i sid, answers i = some sid → sid ≠ id) :
    Leaves (Undisturbed id request index) (handleNGSI9Notify cfg answers mainSubID req true) := by
  refine (undisturbed_keptFor hne).handleNGSI9Notify (fun r _ _ sid hsid entities tb h => ⟨?_, h.2⟩)
  exact (GoMap.get_set_ne _ _ (hanswers r.2 sid hsid).symm).trans h.1

theorem subscribedAs_single {tb : ThinBroker} (entities : GoMap ContextElement)
    (hlist : req.contextRegistrationResponseList = [registrationResp])
    (hrequests : prosumerRequests cfg registrationResp.contextRegistration = [request])
    (hreach : Reaches tb registrationResp.contextRegistration.entityIdList)
    (hanswers : ∀ i sid, answers i = some sid → sid ≠ genProsumerSubID req.subscriptionId) :
    (handleProsumerRegistration cfg answers req (.start tb entities)).state.created =
        [genProsumerSubID req.subscriptionId] ∧
      (handleProsumerRegistration cfg answers req (.start tb entities)).state.sent =
        [(genProsumerSubID req.subscriptionId, currentStatus entities []
          registrationResp.contextRegistration.entityIdList)] ∧
      SubscribedAs cfg (.start tb entities)
        (handleProsumerRegistration cfg answers req (.start tb entities)).state registrationResp
        (genProsumerSubID req.subscriptionId) := by
  have hissued : Issued registrationResp.contextRegistration.entityIdList request :=
    issued_of_mem (by rw [hrequests]; simp)
  have hfirst : each (fun registrationResp : ContextRegistrationResponse =>
      each (fun request => subscribeContext request (genProsumerSubID req.subscriptionId))
        (prosumerRequests cfg registrationResp.contextRegistration))
      req.contextRegistrationResponseList (.start tb entities) =
        ⟨subscribed request (genProsumerSubID req.subscriptionId) (.start tb entities), .done⟩ := by
    rw [hlist, each_singleton, hrequests, each_singleton, subscribeContext_done hissued hreach]
  have hrecorded := recorded_handleProsumerRegistration cfg answers req
    (.start tb entities)
  rw [hfirst] at hrecorded
  have hsent : (handleProsumerRegistration cfg answers req (.start tb entities)).state.sent =
      [(genProsumerSubID req.subscriptionId, currentStatus entities []
        registrationResp.contextRegistration.entityIdList)] := by
    rw [hrecorded.2, ← hissued.entities]
    rfl
  have hwhole : handleProsumerRegistration cfg answers req (.start tb entities) =
      lift (handleNGSI9Notify cfg answers req.subscriptionId req true)
        (subscribed request (genProsumerSubID req.subscriptionId) (.start tb entities)) := by
    unfold handleProsumerRegistration
    rw [seq_of_done (congrArg Outcome.exit hfirst), hfirst]
  obtain ⟨hget, hcount⟩ := undisturbed_handleNGSI9Notify cfg
    (Repetition.genProsumerSubID_ne req.subscriptionId).symm hanswers
    (subscribed request (genProsumerSubID req.subscriptionId) (.start tb entities)).tb
    ⟨GoMap.get_set_self _ _ _, fun _ => rfl⟩
  refine ⟨hrecorded.1, hsent, ⟨request, ?_, ownSubscription_of_single hrequests⟩,
    fun k hk => ?_, ?_⟩
  · rw [hwhole]
    exact hget
  · obtain ⟨keys, hkeys, hmem⟩ := ownOps_eq (genProsumerSubID req.subscriptionId) hissued
    have hown := count_addKeys tb.entityId2Subcriptions k
      (genProsumerSubID req.subscriptionId) keys
    rw [if_pos (hmem k hk), ← hkeys] at hown
    rw [hwhole]
    exact (hcount k).trans hown
  · rw [hsent]
    exact List.mem_singleton_self _

end Single

-- the ids that providing applications answer are new ones
theorem each_registration_subscribed_iff (cfg : Config) (answers : Nat → Option String)
    (req : NotifyContextAvailabilityRequest) (tb : ThinBroker) (entities : GoMap ContextElement)
    (hanswers : ∀ i sid, answers i = some sid → sid ≠ genProsumerSubID req.subscriptionId) :
    EachSubscribed cfg req (.start tb entities)
        (handleProsumerRegistration cfg answers req (.start tb entities)).state ↔
      SingleSetting tb req := by
  refine ⟨singleSetting_of_eachSubscribed, ?_⟩
  rintro (hnil | ⟨registrationResp, hlist, hcount, hreach⟩)
  · have hrecorded := recorded_handleProsumerRegistration cfg answers req
      (.start tb entities)
    rw [hnil] at hrecorded
    refine ⟨[], List.nodup_nil, ?_, ?_, ?_⟩
    · rw [hnil]
      exact .nil
    · exact List.Perm.of_eq hrecorded.1
    · rw [hrecorded.2]
      exact .nil
  · rw [← length_prosumerRequests cfg] at hcount
    obtain ⟨request, hrequests⟩ := List.length_eq_one_iff.mp hcount
    obtain ⟨hcreated, hsent, hsubscribed⟩ :=
      subscribedAs_single entities hlist hrequests hreach hanswers
    refine ⟨[genProsumerSubID req.subscriptionId], List.nodup_singleton _, ?_, ?_, ?_⟩
    · rw [hlist]
      exact .cons hsubscribed .nil
    · rw [hcreated]
    · rw [hsent]
      exact .refl _

def exampleConfig : Config := ⟨"http://broker1", false⟩

def emptyBroker : ThinBroker := ⟨∅, ∅, SubLinks.empty, false⟩

def keepProviderUpdated : ContextMetadata :=
  ⟨"keepProviderUpdated", "boolean", .bool true, .null⟩

def prosumerOf (eid : String) (metadata : List ContextMetadata) : ContextRegistrationResponse :=
  ⟨⟨[⟨"Car", false, eid⟩], [], keepProviderUpdated :: metadata, "http://prosumer"⟩, ⟨200, "OK"⟩⟩

def availabilityOf (registrations : List ContextRegistrationResponse) :
    NotifyContextAvailabilityRequest := ⟨"sub1", registrations, ⟨201, "CREATE"⟩⟩

def ngsiLd : ContextMetadata := ⟨"ngsiversion", "string", .string "NGSI-LD", .null⟩

def tenantA : ContextMetadata := ⟨"Ngsild-Tenant", "string", .string "A", .null⟩

theorem oneSetting_subscribed :
    (availabilityOf [prosumerOf "car1" [ngsiLd]]).isProsumerRegistration = true ∧
      EachSubscribed exampleConfig (availabilityOf [prosumerOf "car1" [ngsiLd]])
        (.start emptyBroker ∅)
        (handleProsumerRegistration exampleConfig (fun _ => some "sub2")
          (availabilityOf [prosumerOf "car1" [ngsiLd]]) (.start emptyBroker ∅)).state := by
  refine ⟨by decide, (each_registration_subscribed_iff exampleConfig (fun _ => some "sub2")
    (availabilityOf [prosumerOf "car1" [ngsiLd]]) emptyBroker ∅ (fun _ sid hsid => ?_)).mpr ?_⟩
  · rw [← Option.some.inj hsid]
    decide
  · exact Or.inr ⟨_, rfl, by decide, Or.inl rfl⟩

def handled (registrations : List ContextRegistrationResponse) : Monitored :=
  (handleProsumerRegistration exampleConfig (fun _ => some "sub2") (availabilityOf registrations)
    (.start emptyBroker ∅)).state

def Handled (registrations : List ContextRegistrationResponse) : Prop :=
  EachSubscribed exampleConfig (availabilityOf registrations) (.start emptyBroker ∅)
    (handled registrations)

theorem repeatedly_subscribed :
    ¬ Handled [prosumerOf "car1" [ngsiLd, tenantA]] ∧ ¬ Handled [prosumerOf "car1" []] ∧
      ¬ Handled [prosumerOf "car1" [ngsiLd], prosumerOf "car2" [ngsiLd]] := by
  have hnodup (registrations : List ContextRegistrationResponse) (h : Handled registrations) :
      (handled registrations).created.Nodup := by
    obtain ⟨ids, hids, -, hcreated, -⟩ := h
    exact hcreated.nodup_iff.mpr hids
  refine ⟨fun h => absurd (hnodup _ h) (by decide), fun h => ?_,
    fun h => absurd (hnodup _ h) (by decide)⟩
  obtain ⟨ids, -, hall, hcreated, -⟩ := h
  have hnone : (handled [prosumerOf "car1" []]).created = [] := by decide
  rw [hnone] at hcreated
  rw [List.nil_perm.mp hcreated] at hall
  cases hall

end FogFlow.Broker.ProsumerSubscription
