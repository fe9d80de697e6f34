import FogFlow.Broker.Selection
import FogFlow.Discovery.Telling

namespace FogFlow.Broker.PubSub

open Ngsi Execution
open Processing (namingsOf)
open Discovery (FloatMath MatchString Message Typed)

-- a broker with the discovery it asks, and what discovery has sent and the broker not received
structure System where
  processing : Processing.System
  availability : Availability.System
  discovery : Discovery.System
  undelivered : List NotifyContextAvailabilityRequest

def System.initial : System := ⟨.initial, .initial, .init, []⟩

-- an answer is sent when discovery has stored the subscription, and recorded when it arrives
inductive Label where
  | subscribe (subID : String) (subReq : SubscribeContextRequest)
  | refuse (subID : String)
  | answer (subID subscriptionId : String)
  | record (subscriptionId : String)
  | clear (subscriptionId : String)
  | arrive (req : NotifyContextAvailabilityRequest)
  | forward (subscriptionId : String) (sids : List String)
  | handle (call : Availability.Call) (sids : List String)
  | discover (label : Discovery.Label)

-- only the subscriptions of clients make the broker ask discovery
def subscribe (cfg : Config) (s : System) (subID : String) (subReq : SubscribeContextRequest) :
    Option System :=
  (Processing.step cfg s.processing (.subscribe subID subReq)).map (fun processing =>
    { s with
      processing := processing
      availability :=
        if subReq.subscriber.isInternal then s.availability
        else { s.availability with requested := subID :: s.availability.requested } })

def availabilitySubscription (cfg : Config) (subReq : SubscribeContextRequest) :
    SubscribeContextAvailabilityRequest :=
  ⟨subReq.entities, subReq.attributes, cfg.myURL ++ "/notifyContextAvailability",
    subReq.duration, subReq.restriction⟩

section Step

variable (cfg : Config) (math : FloatMath) (matchString : MatchString)

def answer (s : System) (subID subscriptionId : String) : Option System :=
  (s.processing.request subID).bind (fun subReq =>
    (Availability.step s.availability (.answer subID subscriptionId)).bind (fun availability =>
      (Discovery.step math matchString s.discovery
        (.subscribe subscriptionId (availabilitySubscription cfg subReq))).map (fun discovery =>
          { s with availability := availability, discovery := discovery })))

def linkStep (s : System) (label : Availability.Label) : Option System :=
  (Availability.step s.availability label).map (fun availability =>
    { s with availability := availability })

def arrive (s : System) (req : NotifyContextAvailabilityRequest) : Option System :=
  if req ∈ s.undelivered then
    (Availability.step s.availability (.arrive req)).map (fun availability =>
      { s with availability := availability, undelivered := s.undelivered.erase req })
  else none

-- handleNGSI9Notify runs on the call that has been taken up last
def takeUp (s : System) (label : Availability.Label) (sids : List String) : Option System :=
  (Availability.step s.availability label).bind (fun availability =>
    availability.handled.head?.bind (fun call =>
      (Processing.step cfg s.processing (.notify call.1 call.2 sids)).map (fun processing =>
        { s with processing := processing, availability := availability })))

def discover (s : System) (label : Discovery.Label) : Option System :=
  (Discovery.step math matchString s.discovery label).map (fun discovery =>
    { s with
      discovery := discovery
      undelivered := s.undelivered ++ discovery.sent.drop s.discovery.sent.length })

def step (s : System) : Label → Option System
  | .subscribe subID subReq => subscribe cfg s subID subReq
  | .refuse subID => linkStep s (.refuse subID)
  | .answer subID subscriptionId => answer cfg math matchString s subID subscriptionId
  | .record subscriptionId => linkStep s (.record subscriptionId)
  | .clear subscriptionId => linkStep s (.clear subscriptionId)
  | .arrive req => arrive s req
  | .forward subscriptionId sids => takeUp cfg s (.forward subscriptionId) sids
  | .handle call sids => takeUp cfg s (.handle call) sids
  | .discover label => discover math matchString s label

end Step

-- no deletions, and every entity is registered with one type
def Label.Fits (typeOf : String → String) : Label → Prop
  | .discover label => label.isDeletion = false ∧ label.Typed typeOf
  | _ => True

def Unhurried (subscriptionId : String) (s : System) : Label → Prop
  | .arrive req => Availability.Unhurried subscriptionId s.availability (.arrive req)
  | _ => True

-- nothing about this availability subscription is under way
structure Quiet (s : System) (subscriptionId : String) : Prop where
  queries : subscriptionId ∉ s.discovery.queries
  scans : s.discovery.scans = []
  undelivered : ∀ n ∈ s.undelivered, n.subscriptionId ≠ subscriptionId
  settled : Availability.Settled s.availability subscriptionId

section Availability

variable {a b : Availability.System} {req : NotifyContextAvailabilityRequest}

-- what the labels that only link or drop leave as it was
structure SameCalls (a b : Availability.System) : Prop where
  requested : ∀ sid ∈ b.requested, sid ∈ a.requested
  issued : b.issued = a.issued
  received : b.received = a.received
  handled : b.handled = a.handled

theorem sameCalls_refuse {subID : String}
    (h : Availability.step a (.refuse subID) = some b) : SameCalls a b := by
  obtain ⟨call, htake, rfl⟩ := Option.map_eq_some_iff.mp h
  exact ⟨fun _ hsid => Pool.mem_of_mem_rest htake hsid, rfl, rfl, rfl⟩

theorem sameCalls_record {subscriptionId : String}
    (h : Availability.step a (.record subscriptionId) = some b) : SameCalls a b := by
  obtain ⟨call, -, rfl⟩ := Option.map_eq_some_iff.mp h
  dsimp only
  split <;> exact ⟨fun _ hsid => hsid, rfl, rfl, rfl⟩

theorem sameCalls_clear {subscriptionId : String}
    (h : Availability.step a (.clear subscriptionId) = some b) : SameCalls a b := by
  obtain ⟨call, -, rfl⟩ := Option.map_eq_some_iff.mp h
  exact ⟨fun _ hsid => hsid, rfl, rfl, rfl⟩

-- one of the requests has become an availability subscription
structure Answered (a b : Availability.System) (subID subscriptionId : String) : Prop where
  asked : subID ∈ a.requested
  requested : ∀ sid ∈ b.requested, sid ∈ a.requested
  issued : b.issued = a.issued.set subscriptionId subID
  received : b.received = a.received
  handled : b.handled = a.handled

theorem answered_of_step {subID subscriptionId : String}
    (h : Availability.step a (.answer subID subscriptionId) = some b) :
    Answered a b subID subscriptionId := by
  simp only [Availability.step, Availability.answer] at h
  split_ifs at h
  obtain ⟨call, htake, rfl⟩ := Option.map_eq_some_iff.mp h
  have hsid : call.1 = subID := by simpa using Pool.take_sat htake
  exact ⟨hsid ▸ Pool.mem_of_take htake, fun _ hsid => Pool.mem_of_mem_rest htake hsid, rfl, rfl,
    rfl⟩

theorem arrived_of_step (hordinary : req.isProsumerRegistration = false)
    (h : Availability.step a (.arrive req) = some b) :
    b.requested = a.requested ∧ b.issued = a.issued ∧ b.received = req :: a.received ∧
      b.handled = a.handled := by
  simp only [Availability.step, Availability.arrive, hordinary, Bool.false_eq_true, if_false] at h
  split_ifs at h
  obtain rfl := Option.some.inj h
  exact ⟨rfl, rfl, rfl, rfl⟩

theorem received_of_handled (htally : Availability.Tally a) {call : Availability.Call}
    (hcall : call ∈ a.handled) : call.2 ∈ a.received := by
  have hpos : 0 < (a.handled.map Prod.snd).count call.2 :=
    List.count_pos_iff.mpr (List.mem_map_of_mem hcall)
  have hcount := htally call.2
  exact List.count_pos_iff.mp (by omega)

end Availability

-- a call that has been handed to handleNGSI9Notify
structure TakenUp (a b : Availability.System) (call : Availability.Call) : Prop where
  requested : b.requested = a.requested
  issued : b.issued = a.issued
  received : b.received = a.received
  handled : b.handled = call :: a.handled

theorem takenUp_forward {a b : Availability.System} {subscriptionId : String}
    (h : Availability.step a (.forward subscriptionId) = some b) : ∃ call, TakenUp a b call := by
  obtain ⟨taken, -, rfl⟩ := Option.map_eq_some_iff.mp h
  exact ⟨taken.1.2, rfl, rfl, rfl, rfl⟩

theorem takenUp_handle {a b : Availability.System} {call : Availability.Call}
    (h : Availability.step a (.handle call) = some b) : ∃ call, TakenUp a b call := by
  obtain ⟨taken, -, rfl⟩ := Option.map_eq_some_iff.mp h
  exact ⟨call, rfl, rfl, rfl, rfl⟩

theorem action_of_mem_namingsOf {main : String} {req : NotifyContextAvailabilityRequest}
    {n : Processing.Naming} (h : n ∈ namingsOf main req) :
    n.action = actionOf req.errorCode.code := by
  obtain ⟨registrationResp, -, hn⟩ := List.mem_flatMap.mp h
  obtain ⟨e, -, rfl⟩ := List.mem_map.mp hn
  rfl

theorem actionOf_message {typeOf : String → String} {n : NotifyContextAvailabilityRequest}
    (h : Message typeOf n) : actionOf n.errorCode.code ≠ .delete := by
  rcases h.provides with hcode | hcode <;> simp [actionOf, hcode]

-- the request behind a subscription of a client
structure ClientRequest (p : Processing.System) (main : String)
    (subReq : SubscribeContextRequest) : Prop where
  behind : p.request main = some subReq
  external : subReq.subscriber.isInternal = false

theorem ClientRequest.step {cfg : Config} {p q : Processing.System} {label : Processing.Label}
    {main : String} {subReq : SubscribeContextRequest} (h : ClientRequest p main subReq)
    (hknown : Processing.Known p) (hs : Processing.step cfg p label = some q) :
    ClientRequest q main subReq := by
  have hkept := Processing.request_of_step hknown hs (h.behind ▸ Option.some_ne_none subReq)
  exact ⟨hkept.trans h.behind, h.external⟩

-- what is on its way, and what the broker and discovery know of each other
structure Coherent (cfg : Config) (typeOf : String → String) (s : System) : Prop where
  known : Processing.Known s.processing
  linked : Availability.Linked s.availability
  tally : Availability.Tally s.availability
  sound : Discovery.Sound s.discovery
  typed : Typed typeOf s.discovery
  requested : ∀ sid ∈ s.availability.requested, ∃ subReq, ClientRequest s.processing sid subReq
  issued : ∀ k main, s.availability.issued.get k = some main →
    ∃ subReq, ClientRequest s.processing main subReq ∧
      s.discovery.subscriptions.get k = some (availabilitySubscription cfg subReq)
  messages : ∀ n ∈ s.discovery.sent, Message typeOf n
  conserved : ∀ n, n ∈ s.discovery.sent ↔ n ∈ s.undelivered ∨ n ∈ s.availability.received
  handled : ∀ call ∈ s.availability.handled, ∀ n ∈ namingsOf call.1 call.2, n ∈ s.processing.log
  logged : ∀ n ∈ s.processing.log, n.action ≠ .delete

section Steps

variable {cfg : Config} {math : FloatMath} {matchString : MatchString}
  {typeOf : String → String} {s t : System} {label : Label}

theorem coherent_initial : Coherent cfg typeOf .initial where
  known := Processing.known_initial
  linked := Availability.linked_initial
  tally := Availability.tally_initial
  sound := Discovery.sound_init
  typed := Discovery.typed_init
  requested sid h := by simp [System.initial, Availability.System.initial] at h
  issued k main h := by simp [System.initial, Availability.System.initial] at h
  messages n h := by simp [System.initial, Discovery.System.init] at h
  conserved n := by
    simp [System.initial, Discovery.System.init, Availability.System.initial]
  handled call h := by simp [System.initial, Availability.System.initial] at h
  logged n h := by simp [System.initial, Processing.System.initial] at h

-- the broker does not forget what it has asked discovery for
theorem Coherent.clients_step (h : Coherent cfg typeOf s) {handling : Processing.Label}
    {processing : Processing.System}
    (hs : Processing.step cfg s.processing handling = some processing) :
    (∀ sid ∈ s.availability.requested, ∃ subReq, ClientRequest processing sid subReq) ∧
      ∀ k main, s.availability.issued.get k = some main →
        ∃ subReq, ClientRequest processing main subReq ∧
          s.discovery.subscriptions.get k = some (availabilitySubscription cfg subReq) := by
  refine ⟨fun sid hsid => ?_, fun k main hk => ?_⟩
  · obtain ⟨subReq, hclient⟩ := h.requested sid hsid
    exact ⟨subReq, hclient.step h.known hs⟩
  · obtain ⟨subReq, hclient, hsub⟩ := h.issued k main hk
    exact ⟨subReq, hclient.step h.known hs, hsub⟩

theorem coherent_subscribe {subID : String} {subReq : SubscribeContextRequest}
    (h : Coherent cfg typeOf s) (hs : subscribe cfg s subID subReq = some t) :
    Coherent cfg typeOf t := by
  obtain ⟨processing, hprocessing, rfl⟩ := Option.map_eq_some_iff.mp hs
  have hlog : processing.log = s.processing.log := by
    obtain ⟨-, rfl⟩ := Processing.subscribed_of_step h.known hprocessing
    rfl
  obtain ⟨hrequested, hissued⟩ := h.clients_step hprocessing
  have hknown := Processing.known_step h.known hprocessing
  have hhandled : ∀ call ∈ s.availability.handled, ∀ n ∈ namingsOf call.1 call.2,
      n ∈ processing.log := hlog ▸ h.handled
  have hlogged : ∀ n ∈ processing.log, n.action ≠ .delete := hlog ▸ h.logged
  cases hinternal : subReq.subscriber.isInternal with
  | true =>
    simp only [if_true]
    exact ⟨hknown, h.linked, h.tally, h.sound, h.typed, hrequested, hissued, h.messages,
      h.conserved, hhandled, hlogged⟩
  | false =>
    have hrequest : Availability.step s.availability (.request subID) =
      some { s.availability with requested := subID :: s.availability.requested } := rfl
    have hclient : ClientRequest processing subID subReq := by
      obtain ⟨-, rfl⟩ := Processing.subscribed_of_step h.known hprocessing
      exact ⟨GoMap.get_set_self _ _ _, hinternal⟩
    simp only [Bool.false_eq_true, if_false]
    refine ⟨hknown, Availability.linked_step h.linked hrequest,
      Availability.tally_step h.linked h.tally hrequest, h.sound, h.typed, fun sid hsid => ?_,
      hissued, h.messages, h.conserved, hhandled, hlogged⟩
    rcases List.mem_cons.mp hsid with rfl | hsid
    · exact ⟨subReq, hclient⟩
    · exact hrequested sid hsid

theorem coherent_linkStep {link : Availability.Label} (h : Coherent cfg typeOf s)
    (hsame : ∀ b, Availability.step s.availability link = some b → SameCalls s.availability b)
    (hs : linkStep s link = some t) : Coherent cfg typeOf t := by
  obtain ⟨availability, hstep, rfl⟩ := Option.map_eq_some_iff.mp hs
  obtain ⟨hrequested, hissued, hreceived, hhandled⟩ := hsame availability hstep
  refine { h with
    linked := Availability.linked_step h.linked hstep
    tally := Availability.tally_step h.linked h.tally hstep
    requested := fun sid hsid => h.requested sid (hrequested sid hsid)
    issued := fun k main hk => h.issued k main (hissued ▸ hk)
    conserved := fun n => ?_
    handled := fun call hcall => h.handled call (hhandled ▸ hcall) }
  dsimp only
  rw [hreceived]
  exact h.conserved n

theorem coherent_answer {subID subscriptionId : String} (h : Coherent cfg typeOf s)
    (hs : answer cfg math matchString s subID subscriptionId = some t) :
    Coherent cfg typeOf t := by
  obtain ⟨subReq, hget, hs⟩ := Option.bind_eq_some_iff.mp hs
  obtain ⟨availability, havailability, hs⟩ := Option.bind_eq_some_iff.mp hs
  obtain ⟨discovery, hdiscovery, rfl⟩ := Option.map_eq_some_iff.mp hs
  obtain ⟨hasked, hrequested, hissued, hreceived, hhandled⟩ := answered_of_step havailability
  have hsent : discovery.sent = s.discovery.sent := by
    obtain ⟨-, rfl⟩ := Discovery.step_subscribe hdiscovery
    rfl
  have hsubscribed : discovery.subscriptions.get subscriptionId =
      some (availabilitySubscription cfg subReq) := by
    obtain ⟨-, rfl⟩ := Discovery.step_subscribe hdiscovery
    exact GoMap.get_set_self _ _ _
  refine { h with
    linked := Availability.linked_step h.linked havailability
    tally := Availability.tally_step h.linked h.tally havailability
    sound := Discovery.sound_step h.sound hdiscovery
    typed := Discovery.typed_step h.sound h.typed (by trivial) hdiscovery
    requested := fun sid hsid => h.requested sid (hrequested sid hsid)
    issued := fun k main hk => ?_
    messages := fun n hn => h.messages n (hsent ▸ hn)
    conserved := fun n => ?_
    handled := fun call hcall => h.handled call (hhandled ▸ hcall) }
  · dsimp only at hk ⊢
    rw [hissued, GoMap.get_set] at hk
    split_ifs at hk with hnew
    · obtain rfl := Option.some.inj hk
      obtain ⟨request, hclient⟩ := h.requested subID hasked
      obtain rfl : request = subReq := Option.some.inj (hclient.behind.symm.trans hget)
      rw [hnew]
      exact ⟨request, hclient, hsubscribed⟩
    · obtain ⟨request, hrequest, hsub⟩ := h.issued k main hk
      exact ⟨request, hrequest, Discovery.subscriptions_step hsub hdiscovery⟩
  · dsimp only
    rw [hsent, hreceived]
    exact h.conserved n

theorem coherent_arrive {req : NotifyContextAvailabilityRequest} (h : Coherent cfg typeOf s)
    (hs : arrive s req = some t) : Coherent cfg typeOf t := by
  unfold arrive at hs
  split_ifs at hs with hmem
  obtain ⟨availability, hstep, rfl⟩ := Option.map_eq_some_iff.mp hs
  have hordinary := (h.messages req ((h.conserved req).mpr (.inl hmem))).ordinary
  obtain ⟨hrequested, hissued, hreceived, hhandled⟩ := arrived_of_step hordinary hstep
  refine { h with
    linked := Availability.linked_step h.linked hstep
    tally := Availability.tally_step h.linked h.tally hstep
    requested := fun sid hsid => h.requested sid (hrequested ▸ hsid)
    issued := fun k main hk => h.issued k main (hissued ▸ hk)
    conserved := fun n => ?_
    handled := fun call hcall => h.handled call (hhandled ▸ hcall) }
  dsimp only
  rw [hreceived, h.conserved, List.mem_cons]
  constructor
  · rintro (hn | hn)
    · by_cases hreq : n = req
      · exact .inr (.inl hreq)
      · exact .inl ((List.mem_erase_of_ne hreq).mpr hn)
    · exact .inr (.inr hn)
  · rintro (hn | rfl | hn)
    · exact .inl (List.mem_of_mem_erase hn)
    · exact .inl hmem
    · exact .inr hn

theorem coherent_takeUp {link : Availability.Label} {sids : List String}
    (h : Coherent cfg typeOf s)
    (htaken : ∀ b, Availability.step s.availability link = some b →
      ∃ call, TakenUp s.availability b call)
    (hs : takeUp cfg s link sids = some t) : Coherent cfg typeOf t := by
  obtain ⟨availability, hstep, hs⟩ := Option.bind_eq_some_iff.mp hs
  obtain ⟨call, hcall, hs⟩ := Option.bind_eq_some_iff.mp hs
  obtain ⟨processing, hprocessing, rfl⟩ := Option.map_eq_some_iff.mp hs
  obtain ⟨taken, hrequested, hissued, hreceived, hhandled⟩ := htaken availability hstep
  obtain rfl : taken = call := by simpa [hhandled] using hcall
  obtain ⟨request, hn⟩ := Processing.notified_of_step h.known hprocessing
  obtain ⟨hclients, hsubscribed⟩ := h.clients_step hprocessing
  have htally := Availability.tally_step h.linked h.tally hstep
  have hmessage : Message typeOf taken.2 := by
    have hin : taken.2 ∈ availability.received :=
      received_of_handled htally (by rw [hhandled]; exact List.mem_cons_self)
    rw [hreceived] at hin
    exact h.messages taken.2 ((h.conserved taken.2).mpr (.inr hin))
  refine { h with
    known := Processing.known_step h.known hprocessing
    linked := Availability.linked_step h.linked hstep
    tally := htally
    requested := fun sid hsid => hclients sid (hrequested ▸ hsid)
    issued := fun k main hk => hsubscribed k main (hissued ▸ hk)
    conserved := fun n => ?_
    handled := fun c hc n hmem => ?_
    logged := fun n hmem => ?_ }
  · dsimp only
    rw [hreceived]
    exact h.conserved n
  · dsimp only at hc ⊢
    rw [hn.log, List.mem_append]
    rw [hhandled, List.mem_cons] at hc
    rcases hc with rfl | hc
    · exact .inr hmem
    · exact .inl (h.handled c hc n hmem)
  · dsimp only at hmem
    rw [hn.log, List.mem_append] at hmem
    rcases hmem with hmem | hmem
    · exact h.logged n hmem
    · rw [action_of_mem_namingsOf hmem]
      exact actionOf_message hmessage

theorem coherent_discover {discovered : Discovery.Label} (h : Coherent cfg typeOf s)
    (hno : discovered.isDeletion = false) (htyped : discovered.Typed typeOf)
    (hs : discover math matchString s discovered = some t) : Coherent cfg typeOf t := by
  obtain ⟨discovery, hstep, rfl⟩ := Option.map_eq_some_iff.mp hs
  obtain ⟨notifies, hsent, hmessages⟩ := Discovery.messages_step h.sound h.typed hno hstep
  refine { h with
    sound := Discovery.sound_step h.sound hstep
    typed := Discovery.typed_step h.sound h.typed htyped hstep
    issued := fun k main hk => ?_
    messages := fun n hn => ?_
    conserved := fun n => ?_ }
  · obtain ⟨subReq, hget, hsub⟩ := h.issued k main hk
    exact ⟨subReq, hget, Discovery.subscriptions_step hsub hstep⟩
  · dsimp only at hn
    rw [hsent, List.mem_append] at hn
    exact hn.elim (h.messages n) (hmessages n)
  · dsimp only
    rw [hsent, List.drop_left, List.mem_append, List.mem_append, h.conserved]
    tauto

theorem coherent_step (h : Coherent cfg typeOf s) (hfits : label.Fits typeOf)
    (hs : step cfg math matchString s label = some t) : Coherent cfg typeOf t := by
  cases label with
  | subscribe subID subReq => exact coherent_subscribe h hs
  | refuse subID => exact coherent_linkStep h (fun _ => sameCalls_refuse) hs
  | answer subID subscriptionId => exact coherent_answer h hs
  | record subscriptionId => exact coherent_linkStep h (fun _ => sameCalls_record) hs
  | clear subscriptionId => exact coherent_linkStep h (fun _ => sameCalls_clear) hs
  | arrive req => exact coherent_arrive h hs
  | forward subscriptionId sids => exact coherent_takeUp h (fun _ => takenUp_forward) hs
  | handle call sids => exact coherent_takeUp h (fun _ => takenUp_handle) hs
  | discover discovered => exact coherent_discover h hfits.1 hfits.2 hs

end Steps

-- each step of the whole is at most one step of each part
structure Parts (cfg : Config) (math : FloatMath) (matchString : MatchString) (s : System)
    (label : Label) (t : System) : Prop where
  processing : t.processing = s.processing ∨
    ∃ l, Processing.step cfg s.processing l = some t.processing
  availability : t.availability = s.availability ∨
    ∃ l, Availability.step s.availability l = some t.availability ∧
      ∀ k, Unhurried k s label → Availability.Unhurried k s.availability l
  discovery : t.discovery = s.discovery ∨
    ∃ l, Discovery.step math matchString s.discovery l = some t.discovery ∧
      ∀ typeOf, label.Fits typeOf → l.isDeletion = false

section Runs

variable {cfg : Config} {math : FloatMath} {matchString : MatchString}
  {typeOf : String → String} {s t : System} {label : Label} {labels : List Label}

theorem parts_linkStep {link : Availability.Label} (hs : linkStep s link = some t)
    (hu : ∀ k, Unhurried k s label → Availability.Unhurried k s.availability link) :
    Parts cfg math matchString s label t := by
  obtain ⟨availability, hstep, rfl⟩ := Option.map_eq_some_iff.mp hs
  exact ⟨.inl rfl, .inr ⟨link, hstep, hu⟩, .inl rfl⟩

theorem parts_takeUp {link : Availability.Label} {sids : List String}
    (hs : takeUp cfg s link sids = some t)
    (hu : ∀ k, Unhurried k s label → Availability.Unhurried k s.availability link) :
    Parts cfg math matchString s label t := by
  obtain ⟨availability, hstep, hs⟩ := Option.bind_eq_some_iff.mp hs
  obtain ⟨call, -, hs⟩ := Option.bind_eq_some_iff.mp hs
  obtain ⟨processing, hprocessing, rfl⟩ := Option.map_eq_some_iff.mp hs
  exact ⟨.inr ⟨_, hprocessing⟩, .inr ⟨link, hstep, hu⟩, .inl rfl⟩

theorem parts_of_step (hs : step cfg math matchString s label = some t) :
    Parts cfg math matchString s label t := by
  cases label with
  | subscribe subID subReq =>
    obtain ⟨processing, hprocessing, rfl⟩ := Option.map_eq_some_iff.mp hs
    refine ⟨.inr ⟨_, hprocessing⟩, ?_, .inl rfl⟩
    dsimp only
    split_ifs
    · exact .inl rfl
    · exact .inr ⟨.request subID, rfl, fun _ hu => hu⟩
  | refuse subID | record subscriptionId | clear subscriptionId =>
    exact parts_linkStep hs (fun _ hu => hu)
  | answer subID subscriptionId =>
    obtain ⟨subReq, -, hs⟩ := Option.bind_eq_some_iff.mp hs
    obtain ⟨availability, havailability, hs⟩ := Option.bind_eq_some_iff.mp hs
    obtain ⟨discovery, hdiscovery, rfl⟩ := Option.map_eq_some_iff.mp hs
    exact ⟨.inl rfl, .inr ⟨_, havailability, fun _ hu => hu⟩, .inr ⟨_, hdiscovery, fun _ _ => rfl⟩⟩
  | arrive req =>
    simp only [step, arrive] at hs
    split_ifs at hs
    obtain ⟨availability, hstep, rfl⟩ := Option.map_eq_some_iff.mp hs
    exact ⟨.inl rfl, .inr ⟨_, hstep, fun _ hu => hu⟩, .inl rfl⟩
  | forward subscriptionId sids | handle call sids => exact parts_takeUp hs (fun _ hu => hu)
  | discover discovered =>
    obtain ⟨discovery, hstep, rfl⟩ := Option.map_eq_some_iff.mp hs
    exact ⟨.inl rfl, .inl rfl, .inr ⟨discovered, hstep, fun _ hfits => hfits.1⟩⟩

theorem processing_run (hrun : exec (step cfg math matchString) .initial labels = some s) :
    ∃ ls, exec (Processing.step cfg) .initial ls = some s.processing := by
  obtain ⟨ls, -, hls⟩ := exec_simulated (f := System.processing) (Q := fun _ => True)
    (o := Processing.step cfg) hrun (fun _ _ _ _ hs =>
      (parts_of_step hs).processing.imp_right (Exists.imp (fun _ hl => ⟨trivial, hl⟩)))
  exact ⟨ls, hls⟩

theorem availability_run (hrun : exec (step cfg math matchString) .initial labels = some s) :
    ∃ ls, exec Availability.step .initial ls = some s.availability := by
  obtain ⟨ls, -, hls⟩ := exec_simulated (f := System.availability) (Q := fun _ => True)
    (o := Availability.step) hrun (fun _ _ _ _ hs =>
      (parts_of_step hs).availability.imp_right (Exists.imp (fun _ hl => ⟨trivial, hl.1⟩)))
  exact ⟨ls, hls⟩

theorem discovery_run (hrun : exec (step cfg math matchString) .initial labels = some s)
    (hfits : ∀ label ∈ labels, label.Fits typeOf) :
    ∃ ls, (∀ l ∈ ls, l.isDeletion = false) ∧
      exec (Discovery.step math matchString) .init ls = some s.discovery :=
  exec_simulated (f := System.discovery) hrun (fun _ _ label hlabel hs =>
    (parts_of_step hs).discovery.imp_right
      (Exists.imp (fun _ hl => ⟨hl.2 typeOf (hfits label hlabel), hl.1⟩)))

theorem coherent_run (hrun : exec (step cfg math matchString) .initial labels = some s)
    (hfits : ∀ label ∈ labels, label.Fits typeOf) : Coherent cfg typeOf s :=
  exec_induction (motive := fun _ s => Coherent cfg typeOf s) hrun coherent_initial
    (fun _ label _ _ hp _ h hs => coherent_step h (hfits label (hp.subset (by simp))) hs)

theorem kept_run {k : String} (hrun : exec (step cfg math matchString) .initial labels = some s)
    (hmeets : Meets (step cfg math matchString) (Unhurried k) .initial labels) :
    Availability.Kept k s.availability := by
  have key : Availability.Linked s.availability ∧ Availability.Kept k s.availability := by
    refine exec_induction_of_meets (motive := fun _ s =>
      Availability.Linked s.availability ∧ Availability.Kept k s.availability) hmeets hrun
      ⟨Availability.linked_initial, fun _ hmem => by cases hmem⟩ ?_
    rintro js label r t - - ⟨hlinked, hkept⟩ hunhurried hs
    rcases (parts_of_step hs).availability with hsame | ⟨l, hstep, hl⟩
    · rw [hsame]
      exact ⟨hlinked, hkept⟩
    · exact ⟨Availability.linked_step hlinked hstep, (Availability.kept_step hlinked hstep).mpr
        ⟨hkept, hl k hunhurried⟩⟩
  exact key.2

end Runs

section Notification

variable {cfg : Config} {math : FloatMath} {matchString : MatchString}
  {typeOf : String → String} {s : System} {labels : List Label}
  {subscriptionId main eid : String} {request : SubscribeContextRequest}
  {registration : EntityRegistration}

theorem handled_of_named (h : Coherent cfg typeOf s)
    (hrun : ∃ ls, exec Availability.step .initial ls = some s.availability)
    (hkept : Availability.Kept subscriptionId s.availability)
    (hissued : s.availability.issued.get subscriptionId = some main)
    (hquiet : Quiet s subscriptionId) (hnamed : Discovery.Named s.discovery subscriptionId eid) :
    ∃ call ∈ s.availability.handled, call.1 = main ∧ eid ∈ Discovery.named call.2 := by
  obtain ⟨ls, hrun⟩ := hrun
  obtain ⟨n, hsent, hk, hnamed⟩ := hnamed
  have hreceived : n ∈ s.availability.received :=
    ((h.conserved n).mp hsent).resolve_left (fun hu => hquiet.undelivered n hu hk)
  have hcount := Availability.received_settled hrun hissued hquiet.settled hk
  have hlost : s.availability.overwritten.count n = 0 :=
    List.count_eq_zero.mpr (fun hmem => hkept n hmem hk)
  have hpos := List.count_pos_iff.mpr hreceived
  have hhandled : n ∈ s.availability.handled.map Prod.snd := List.count_pos_iff.mp (by omega)
  obtain ⟨call, hcall, rfl⟩ := List.mem_map.mp hhandled
  exact ⟨call, hcall, Availability.main_of_handled hrun hissued hcall hk, hnamed⟩

theorem logged_of_handled (h : Coherent cfg typeOf s) {call : Availability.Call}
    (hcall : call ∈ s.availability.handled) (hnamed : eid ∈ Discovery.named call.2) :
    ∃ n ∈ Processing.logOf s.processing.log call.1, n.entity = ⟨typeOf eid, false, eid⟩ := by
  have hmessage : Message typeOf call.2 :=
    h.messages call.2 ((h.conserved call.2).mpr (.inr (received_of_handled h.tally hcall)))
  obtain ⟨response, hresponse, hentity⟩ := hmessage.entities eid hnamed
  refine ⟨⟨call.1, actionOf call.2.errorCode.code,
    response.contextRegistration.providingApplication, ⟨typeOf eid, false, eid⟩⟩, ?_, rfl⟩
  refine List.mem_filter.mpr ⟨h.handled call hcall _ ?_, beq_self_eq_true _⟩
  exact List.mem_flatMap.mpr ⟨response, hresponse, List.mem_map.mpr ⟨_, hentity, rfl⟩⟩

theorem listed_of_logged {log : List Processing.Naming} {n : Processing.Naming} {k : String}
    (hlog : ∀ d ∈ log, d.action ≠ .delete) (hn : n ∈ log)
    (hadds : TypeIndex.adds request n.entity k = true) : TypeIndex.listed request k log = true := by
  obtain ⟨before, after, rfl⟩ := List.append_of_mem hn
  refine Selection.listed_of_kept rfl (hlog n hn) hadds (fun d hd hdelete => ?_)
  exact absurd hdelete (hlog d (List.mem_append_right _ (List.mem_cons_of_mem _ hd)))

-- an entity that the subscription waits for, and whose type it names if it goes by types
structure Awaited (cfg : Config) (math : FloatMath) (matchString : MatchString)
    (typeOf : String → String) (request : SubscribeContextRequest)
    (registration : EntityRegistration) : Prop where
  nearby : Discovery.getNearbyFilter request.restriction = .ok none
  matched : Discovery.Matches math matchString registration (availabilitySubscription cfg request)
  types : request.isSimplyByType = true →
    ∃ e ∈ request.entities, e.type = typeOf registration.id

-- an update under the type of its entity that the subscriber has not sent itself
structure Foreign (typeOf : String → String) (tb : ThinBroker) (correlator main : String)
    (ctxElem : ContextElement) : Prop where
  wildCard : ctxElem.getTypeWildCard = genWildCard (typeOf ctxElem.entity.id)
  prosumer : Network.isProsumerSubscription correlator main = false
  correlated : Forwarding.beTheSame tb correlator main = false

theorem indexed_of_logged {ls : List Processing.Label} {n : Processing.Naming}
    (hrun : exec (Processing.step cfg) .initial ls = some s.processing)
    (hlogged : ∀ d ∈ s.processing.log, d.action ≠ .delete)
    (hclient : ClientRequest s.processing main request)
    (hn : n ∈ Processing.logOf s.processing.log main)
    (htypes : request.isSimplyByType = true → ∃ e ∈ request.entities, e.type = n.entity.type) :
    main ∈ s.processing.broker.entityId2Subcriptions.slice n.entity.id ∨
      main ∈ s.processing.broker.entityId2Subcriptions.slice (genWildCard n.entity.type) := by
  have hindexed := TypeIndex.indexed_run hrun hclient.behind hclient.external
  have hlog : ∀ d ∈ Processing.logOf s.processing.log main, d.action ≠ .delete :=
    fun d hd => hlogged d (List.mem_filter.mp hd).1
  cases hsimple : request.isSimplyByType with
  | true =>
    obtain ⟨e, he, htype⟩ := htypes hsimple
    refine .inr ((Selection.mem_slice_iff hindexed hsimple _).mpr (listed_of_logged hlog hn ?_))
    simp only [TypeIndex.adds, hsimple, if_true, Bool.and_eq_true, beq_iff_eq, List.any_eq_true]
    exact ⟨rfl, e, he, htype⟩
  | false =>
    refine .inl (hindexed.byId hsimple _ (listed_of_logged hlog hn ?_))
    simp [TypeIndex.adds, hsimple]

theorem update_notified (hrun : exec (step cfg math matchString) .initial labels = some s)
    (hfits : ∀ label ∈ labels, label.Fits typeOf)
    (hunhurried : Meets (step cfg math matchString) (Unhurried subscriptionId) .initial labels)
    (hissued : s.availability.issued.get subscriptionId = some main)
    (hquiet : Quiet s subscriptionId) (hget : s.processing.request main = some request)
    (hreg : s.discovery.repository.get eid = some registration)
    (hawaited : Awaited cfg math matchString typeOf request registration) (entities : Entities)
    {ctxElem : ContextElement} (hid : ctxElem.entity.id = eid) {correlator : String}
    (hforeign : Foreign typeOf s.processing.broker correlator main ctxElem) :
    ∃ element, (updateContextElement entities ctxElem).get eid = some element ∧
      (element.cloneWithSelectedAttributes request.attributes, main) ∈
        Forwarding.notifySubscribers s.processing.broker (updateContextElement entities ctxElem)
          ctxElem correlator true := by
  have h := coherent_run hrun hfits
  obtain ⟨ls, hno, hdiscovery⟩ := discovery_run hrun hfits
  obtain ⟨asked, hclient, hsub⟩ := h.issued subscriptionId main hissued
  obtain rfl : request = asked := Option.some.inj (hget.symm.trans hclient.behind)
  -- discovery has named the entity
  have hnamed : Discovery.Named s.discovery subscriptionId eid := by
    rcases Discovery.allCovered_run hno hdiscovery _ _ eid registration hsub hreg hawaited.matched
      with hnamed | hcut | hquery | ⟨address, -, hscan⟩
    · exact hnamed
    · exact absurd hcut (Discovery.not_cutOff hdiscovery hsub hawaited.nearby)
    · exact absurd hquery hquiet.queries
    · rw [hquiet.scans] at hscan
      cases hscan
  -- the broker has handled the message
  obtain ⟨call, hcall, rfl, hnamed⟩ := handled_of_named h (availability_run hrun)
    (kept_run hrun hunhurried) hissued hquiet hnamed
  obtain ⟨n, hn, hentity⟩ := logged_of_handled h hcall hnamed
  obtain rfl := h.sound.id_of_repository hreg
  obtain ⟨ls, hprocessing⟩ := processing_run hrun
  have hindexed := indexed_of_logged hprocessing h.logged hclient hn
    (by rw [hentity]; exact hawaited.types)
  rw [hentity] at hindexed
  have hlisted : call.1 ∈ Forwarding.subscriberList s.processing.broker ctxElem.entity.id
      ctxElem.getTypeWildCard := by
    rw [Selection.mem_subscriberList h.known.unlocked, hforeign.wildCard, hid]
    exact hindexed
  refine ⟨_, (get_updateContextElement entities ctxElem _).trans (if_pos hid.symm), ?_⟩
  refine List.mem_filterMap.mpr ⟨call.1, List.mem_filter.mpr ⟨hlisted, ?_⟩, ?_⟩
  · rw [hforeign.prosumer, hforeign.correlated]
    rfl
  · have hattributes : Forwarding.selectedAttributes s.processing.broker call.1 =
        request.attributes := by
      have hget : s.processing.broker.subscriptions.get call.1 = some request := hget
      rw [Forwarding.selectedAttributes, hget]
      rfl
    rw [Forwarding.elementFor, if_pos rfl, get_updateContextElement, if_pos rfl, hattributes]
    rfl

def onTime (subscriptionId : String) (s : System) : Label → Bool
  | .arrive _ => (s.availability.links.availabilitySub2MainSub.get subscriptionId).isSome ||
      (s.availability.links.tmpNGSI9NotifyCache.get subscriptionId).isNone
  | _ => true

theorem unhurried_of_onTime {label : Label} (h : onTime subscriptionId s label = true) :
    Unhurried subscriptionId s label := by
  cases label with
  | arrive req =>
    simp only [onTime, Bool.or_eq_true] at h
    intro _ _ hlink
    rcases h with h | h
    · rw [hlink] at h
      cases h
    · exact Option.isNone_iff_eq_none.mp h
  | _ => trivial

def carProvided : ContextRegistration := ⟨[Processing.car1], [], [], "http://broker"⟩

def carNotice : NotifyContextAvailabilityRequest :=
  Discovery.notice Discovery.anyOrder "availability"
    (Discovery.entityRegistration Processing.car1 carProvided) .create

-- the notification comes before the answer that it belongs to
def carSubscribed : List Label :=
  [.discover (.update (fun _ => 0) Processing.car1 carProvided),
    .discover (.scan 0 Discovery.anyOrder),
    .subscribe "main" (Processing.subscription [Processing.car1]), .answer "main" "availability",
    .discover (.query "availability" Discovery.anyOrder), .arrive carNotice,
    .record "availability", .forward "availability" ["other"], .clear "availability"]

def exampleStep : System → Label → Option System :=
  step Processing.exampleConfig Discovery.exampleMath (fun _ _ => false)

def carUpdate : ContextElement := ⟨Processing.car1, "", [], []⟩

-- what the run leaves behind is read off by evaluation
def carQuiet (s : System) : Bool :=
  s.discovery.queries.isEmpty && s.discovery.scans.isEmpty && s.undelivered.isEmpty &&
    s.availability.answered.isEmpty && s.availability.forwarding.isEmpty &&
    s.availability.handling.isEmpty

theorem quiet_of_carQuiet {s : System} (h : carQuiet s = true) (k : String) : Quiet s k := by
  simp only [carQuiet, Bool.and_eq_true, List.isEmpty_iff] at h
  obtain ⟨⟨⟨⟨⟨hqueries, hscans⟩, hundelivered⟩, hanswered⟩, hforwarding⟩, hhandling⟩ := h
  exact ⟨by simp [hqueries], hscans, by simp [hundelivered], by simp [hanswered],
    by simp [hforwarding], by simp [hhandling]⟩

theorem car_notified :
    ∃ s, exec exampleStep .initial carSubscribed = some s ∧
      ∃ element, (updateContextElement ∅ carUpdate).get "car1" = some element ∧
        (element.cloneWithSelectedAttributes [], "main") ∈
          Forwarding.notifySubscribers s.processing.broker (updateContextElement ∅ carUpdate)
            carUpdate "" true := by
  have hrun : (exec exampleStep .initial carSubscribed).any (fun s => carQuiet s &&
      decide (s.availability.issued.get "availability" = some "main" ∧
        s.processing.request "main" = some (Processing.subscription [Processing.car1])) &&
      (s.discovery.repository.get "car1").any (fun r =>
        (Discovery.matchingWithFilters Discovery.exampleMath (fun _ _ => false) (fun _ _ _ => 0) r
          [Processing.car1] [] .zero).toOption == some true)) = true := by
    decide +kernel
  obtain ⟨s, hs, hend⟩ := (Option.any_eq_true _ _).mp hrun
  rw [Bool.and_eq_true, Bool.and_eq_true, decide_eq_true_iff] at hend
  obtain ⟨⟨hquiet, hissued, hget⟩, hregistered⟩ := hend
  obtain ⟨registration, hreg, hmatch⟩ := (Option.any_eq_true _ _).mp hregistered
  have hfits : ∀ label ∈ carSubscribed, label.Fits (fun _ => "Car") := by
    simp [carSubscribed, Label.Fits, Discovery.Label.isDeletion, Discovery.Label.Typed,
      Processing.car1]
  have hunhurried : Meets exampleStep (Unhurried "availability") .initial carSubscribed :=
    meets_of_check (c := onTime "availability") (fun _ _ _ => unhurried_of_onTime)
      (by decide +kernel)
  refine ⟨s, hs, update_notified hs hfits hunhurried hissued (quiet_of_carQuiet hquiet _) hget
    hreg ⟨rfl, ⟨fun _ _ _ => 0, ?_⟩, fun _ => ⟨Processing.car1, List.mem_singleton.mpr rfl, rfl⟩⟩ ∅
    rfl ⟨rfl, by decide +kernel, ?_⟩⟩
  · change Discovery.matchingWithFilters Discovery.exampleMath (fun _ _ => false) (fun _ _ _ => 0)
      registration [Processing.car1] [] .zero = .ok true
    cases hresult : Discovery.matchingWithFilters Discovery.exampleMath (fun _ _ => false)
        (fun _ _ _ => 0) registration [Processing.car1] [] .zero with
    | error fault => simp [hresult, Except.toOption] at hmatch
    | ok matched => simpa [hresult, Except.toOption] using hmatch
  · simp [Forwarding.beTheSame]

end Notification

end FogFlow.Broker.PubSub
