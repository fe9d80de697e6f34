import FogFlow.Broker.Store
import FogFlow.Broker.Wiring
import FogFlow.Library.Flood

namespace FogFlow.Broker.Forwarding

open Ngsi Execution Network

-- while the lock of a panicked writer is held its readers wait for ever
def subscriberList (tb : ThinBroker) (eid wildCard : String) : List String :=
  if tb.e2subLocked then []
  else tb.entityId2Subcriptions.slice eid ++ tb.entityId2Subcriptions.slice wildCard

def beTheSame (tb : ThinBroker) (correlator sid : String) : Bool :=
  (tb.subscriptions.get sid).any (fun subscription =>
    correlator != "" && subscription.subscriber.correlator != "" &&
      correlator == subscription.subscriber.correlator)

def selectedAttributes (tb : ThinBroker) (sid : String) : List String :=
  ((tb.subscriptions.get sid).map SubscribeContextRequest.attributes).getD []

-- the clone of a missing entity ends the loop with a nil pointer before anything is sent
def elementFor (tb : ThinBroker) (entities : Entities) (ctxElem : ContextElement)
    (checkSelectedAttributes : Bool) (sid : String) : Option ContextElement :=
  if checkSelectedAttributes then
    (entities.get ctxElem.entity.id).map (fun element =>
      element.cloneWithSelectedAttributes (selectedAttributes tb sid))
  else some ctxElem

def notifySubscribers (tb : ThinBroker) (entities : Entities) (ctxElem : ContextElement)
    (correlator : String) (checkSelectedAttributes : Bool) : List (ContextElement × String) :=
  ((subscriberList tb ctxElem.entity.id ctxElem.getTypeWildCard).filter (fun sid =>
      !isProsumerSubscription correlator sid && !beTheSame tb correlator sid)).filterMap
    (fun sid => (elementFor tb entities ctxElem checkSelectedAttributes sid).map (·, sid))

-- without a correlator in the header; the decoded element has no Orion type
def ngsiv1NotifyContext (tb : ThinBroker) (entities : Entities) (subscriptionId : String)
    (ctxElem : ContextElement) : List (ContextElement × String) :=
  notifySubscribers tb entities { ctxElem with type := "" } subscriptionId false

-- where sendReliableNotify posts a notifyContext message to, no post having failed before
def notifyURL (tb : ThinBroker) (sid : String) : Option String :=
  (tb.subscriptions.get sid).bind (fun subscription =>
    if ["NGSI-LD", "NGSIv2"].contains subscription.subscriber.destinationType then none
    else some subscription.reference)

structure Update where
  url : String
  ctxElem : ContextElement
  stored : EntityId
deriving DecidableEq, Repr

-- the update that a message carries is named by its number
structure Notification where
  update : Nat
  sender : String
  url : String
  subscriptionId : String
  element : ContextElement
deriving DecidableEq, Repr

structure System where
  entities : GoMap Entities
  updates : List Update
  inFlight : List Notification
  received : List Notification

def System.initial : System := ⟨∅, [], [], []⟩

def System.entitiesOf (s : System) (url : String) : Entities := (s.entities.get url).getD ∅

inductive Label where
  | updateContext (url : String) (ctxElem : ContextElement)
  | notifyContext (message : Notification)

-- what goes to clients is not followed further
def send (net : GoMap ThinBroker) (update : Nat) (sender : String) (tb : ThinBroker)
    (sent : ContextElement × String) : Option Notification :=
  ((notifyURL tb sent.2).filter (fun url => (net.get url).isSome)).map (fun url =>
    ⟨update, sender, url, sent.2, sent.1⟩)

def forward (net : GoMap ThinBroker) (s : System) (m : Notification) : List Notification :=
  ((net.get m.url).map (fun tb =>
    (ngsiv1NotifyContext tb (s.entitiesOf m.url) m.subscriptionId m.element).filterMap
      (send net m.update m.url tb))).getD []

def storedElement (s : System) (url : String) (ctxElem : ContextElement) : ContextElement :=
  ((updateContextElement (s.entitiesOf url) ctxElem).get ctxElem.entity.id).getD ctxElem

def updateOf (s : System) (url : String) (ctxElem : ContextElement) : Update :=
  ⟨url, ctxElem, (storedElement s url ctxElem).entity⟩

def updateContext2LocalSite (net : GoMap ThinBroker) (s : System) (url : String)
    (ctxElem : ContextElement) (tb : ThinBroker) : System where
  entities := s.entities.set url (updateContextElement (s.entitiesOf url) ctxElem)
  updates := s.updates ++ [updateOf s url ctxElem]
  inFlight := s.inFlight ++ (notifySubscribers tb
    (updateContextElement (s.entitiesOf url) ctxElem) ctxElem "" true).filterMap
    (send net s.updates.length url tb)
  received := s.received

def deliver (net : GoMap ThinBroker) (s : System) (m : Notification) : System :=
  { s with inFlight := s.inFlight.erase m ++ forward net s m, received := m :: s.received }

def step (net : GoMap ThinBroker) (s : System) : Label → Option System
  | .updateContext url ctxElem => (net.get url).map (updateContext2LocalSite net s url ctxElem)
  | .notifyContext m => if m ∈ s.inFlight then some (deliver net s m) else none

-- the brokers that the subscriptions of a broker lead to, one entry for each subscription
def routes (net : GoMap ThinBroker) (eid wildCard url : String) : List String :=
  ((net.get url).map (fun tb =>
    ((subscriberList tb eid wildCard).filterMap (notifyURL tb)).filter (fun next =>
      (net.get next).isSome))).getD []

def Update.first (net : GoMap ThinBroker) (u : Update) : List String :=
  routes net u.ctxElem.entity.id u.ctxElem.getTypeWildCard u.url

def Update.next (net : GoMap ThinBroker) (u : Update) (url : String) : List String :=
  routes net u.stored.id u.stored.getTypeWildCard url

structure ForwardedOnce (net : GoMap ThinBroker) (s : System) (k : Nat) : Prop where
  once : ∀ url, s.received.countP (fun m => m.update == k && m.url == url) ≤ 1
  notBack : ∀ m ∈ s.received, m.update = k → ∀ n ∈ forward net s m, n.url ≠ m.sender
  stops : (s.inFlight ++ s.received).countP (fun m => m.update == k) ≤ net.entries.length

def SingleRoute (net : GoMap ThinBroker) (u : Update) : Prop :=
  Flood.SingleRoute u.url (u.first net) (u.next net)

def OnSingleRoutes (net : GoMap ThinBroker) (s : System) : Label → Prop
  | .updateContext url ctxElem => SingleRoute net (updateOf s url ctxElem)
  | .notifyContext _ => True

end FogFlow.Broker.Forwarding
