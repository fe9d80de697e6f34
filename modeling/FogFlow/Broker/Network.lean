import FogFlow.Broker.ThinBroker
import FogFlow.Library.Execution

namespace FogFlow.Broker.Network

open Ngsi Handler Execution

def isSpace (c : Char) : Bool :=
  (0x09 ≤ c.toNat && c.toNat ≤ 0x0d) || (0x2000 ≤ c.toNat && c.toNat ≤ 0x200a) ||
    [0x20, 0x85, 0xa0, 0x1680, 0x2028, 0x2029, 0x202f, 0x205f, 0x3000].contains c.toNat

def trimSpace (s : String) : String :=
  String.ofList ((s.toList.dropWhile isSpace).reverse.dropWhile isSpace).reverse

structure Address where
  httpsEnabled : Bool
  hostip : String
  port : Nat
deriving DecidableEq, Repr

def getBrokerURL (c : Address) : String :=
  (if c.httpsEnabled then "https" else "http") ++ "://" ++ c.hostip ++ ":" ++ c.port.repr ++
    "/ngsi10"

def subIDInternalProsumerSuffix : String := ":ffinternal"

def removeFirst (old : List Char) : List Char → List Char
  | [] => []
  | c :: cs =>
      if old.isPrefixOf (c :: cs) then (c :: cs).drop old.length else c :: removeFirst old cs

def withoutSuffix (subID : String) : String :=
  String.ofList (removeFirst subIDInternalProsumerSuffix.toList subID.toList)

def isProsumerSubscription (correlator subID : String) : Bool :=
  withoutSuffix correlator == withoutSuffix subID

structure Header where
  userAgent : String
  destination : String
  tenant : String
  correlator : String
  ngsildDelivery : String
  ngsildNotificationPath : String
  requireReliability : String
deriving DecidableEq, Repr

-- subscribeContextProvider
def brokerHeader : Header := ⟨"lightweight-iot-broker", "", "", "", "", "", "true"⟩

def Header.isBroker (header : Header) : Bool := header.userAgent == "lightweight-iot-broker"

def takeSubscriber (myURL : String) (header : Header) (subscriber : Subscriber) : Subscriber where
  isInternal := header.isBroker
  requireReliability := header.requireReliability == "true"
  brokerURL := myURL
  notifyCache := if header.requireReliability == "true" then [] else subscriber.notifyCache
  destinationType := header.destination
  tenant := header.tenant
  correlator := header.correlator
  ngsildDelivery := header.ngsildDelivery
  ngsildNotificationPath := header.ngsildNotificationPath

def takeRequest (myURL : String) (header : Header) (subReq : SubscribeContextRequest) :
    SubscribeContextRequest :=
  { subReq with
    reference := trimSpace subReq.reference
    subscriber := takeSubscriber myURL header subReq.subscriber }

-- after the subscription has its id
def ngsiv1SubscribeContext (myURL : String) (header : Header) (subReq : SubscribeContextRequest)
    (subID : String) : Handler ThinBroker :=
  subscribeContext (takeRequest myURL header subReq) subID

def newBroker : ThinBroker := ⟨∅, ∅, .empty, false⟩

-- the brokers and for each subscription id drawn so far the one that has drawn it
structure System where
  brokers : GoMap ThinBroker
  issued : List (String × String)

def System.initial (addresses : List Address) : System :=
  ⟨addresses.foldl (fun brokers c => brokers.set (getBrokerURL c) newBroker) ∅, []⟩

inductive Label where
  | subscribe (url subID : String) (header : Header) (subReq : SubscribeContextRequest)
  | notify (url mainSubID : String) (req : NotifyContextAvailabilityRequest)
      (answers : Nat → Option String)
  | accept (url sid : String)

-- a uuid is new and has no part that the prosumer suffix could be taken for
def Fresh (s : System) (subID : String) : Prop :=
  subID ≠ "" ∧ withoutSuffix subID = subID ∧ subID ∉ s.issued.map Prod.snd

instance (s : System) (subID : String) : Decidable (Fresh s subID) :=
  inferInstanceAs (Decidable (_ ∧ _ ∧ _))

def answered (req : NotifyContextAvailabilityRequest) (answers : Nat → Option String) :
    List (String × String) :=
  req.contextRegistrationResponseList.zipIdx.filterMap (fun registrationResp =>
    (answers registrationResp.2).map (fun sid =>
      (registrationResp.1.contextRegistration.providingApplication, sid)))

def AllFresh (s : System) (drawn : List (String × String)) : Prop :=
  (drawn.map Prod.snd).Nodup ∧ ∀ d ∈ drawn, Fresh s d.2

instance (s : System) (drawn : List (String × String)) : Decidable (AllFresh s drawn) :=
  inferInstanceAs (Decidable (_ ∧ _))

def handleAt (s : System) (url : String) (drawn : List (String × String))
    (h : Handler ThinBroker) : Option System :=
  (s.brokers.get url).map (fun tb =>
    ⟨s.brokers.set url (h tb).state, drawn ++ s.issued⟩)

-- a client sets no correlator and is not to be notified at the URL of a broker
def FromClient (s : System) (header : Header) (subReq : SubscribeContextRequest) : Prop :=
  header.isBroker = false ∧ header.correlator = "" ∧
    (s.brokers.get (trimSpace subReq.reference)).isNone

instance (s : System) (header : Header) (subReq : SubscribeContextRequest) :
    Decidable (FromClient s header subReq) :=
  inferInstanceAs (Decidable (_ ∧ _ ∧ _))

def subscribe (s : System) (url subID : String) (header : Header)
    (subReq : SubscribeContextRequest) : Option System :=
  if FromClient s header subReq ∧ Fresh s subID then
    handleAt s url [(url, subID)] (ngsiv1SubscribeContext url header subReq subID)
  else none

def found (s : System) (url sid : String) : Option SubscribeContextRequest :=
  (s.brokers.get url).bind (fun tb => tb.subscriptions.get sid)

-- discovery is asked for the subscriptions of clients only
def notify (debugEnabled : Bool) (s : System) (url mainSubID : String)
    (req : NotifyContextAvailabilityRequest) (answers : Nat → Option String) : Option System :=
  if (found s url mainSubID).any (fun request => !request.subscriber.isInternal &&
      request.subscriber.brokerURL == url) ∧ req.isProsumerRegistration = false ∧
      AllFresh s (answered req answers) then
    handleAt s url (answered req answers)
      (handleNGSI9Notify ⟨url, debugEnabled⟩ answers mainSubID req false)
  else none

-- a broker handles the subscription of another after it has answered it
def accept (s : System) (url sid : String) : Option System :=
  ((found s url sid).filter (fun request => request.subscriber.brokerURL != url)).bind
    (fun request => handleAt s request.subscriber.brokerURL []
      (ngsiv1SubscribeContext request.subscriber.brokerURL brokerHeader request sid))

def step (debugEnabled : Bool) (s : System) : Label → Option System
  | .subscribe url subID header subReq => subscribe s url subID header subReq
  | .notify url mainSubID req answers => notify debugEnabled s url mainSubID req answers
  | .accept url sid => accept s url sid

end FogFlow.Broker.Network
