import FogFlow.Broker.Availability
import FogFlow.Library.Handler

namespace FogFlow.Broker

open Ngsi Handler

structure ThinBroker where
  subscriptions : GoMap SubscribeContextRequest
  entityId2Subcriptions : GoMap (List String)
  subLinks : SubLinks
  e2subLocked : Bool

structure Config where
  myURL : String
  debugEnabled : Bool

-- a locked mutex whose holder has panicked is never unlocked
def lockE2sub : Handler ThinBroker := fun tb =>
  if tb.e2subLocked then ⟨tb, .blocked⟩ else ⟨{ tb with e2subLocked := true }, .done⟩

def unlockE2sub : Handler ThinBroker := modify (fun tb => { tb with e2subLocked := false })

def ThinBroker.putSubscription (tb : ThinBroker) (sid : String) (req : SubscribeContextRequest) :
    ThinBroker :=
  { tb with subscriptions := tb.subscriptions.set sid req }

def appendToIndex (id subID : String) : Handler ThinBroker := modify (fun tb =>
  let subList := tb.entityId2Subcriptions.slice id
  { tb with entityId2Subcriptions := tb.entityId2Subcriptions.set id (subList ++ [subID]) })

def addToIndex (id subID : String) : Handler ThinBroker := fun tb =>
  if (tb.entityId2Subcriptions.slice id).contains subID then skip tb else appendToIndex id subID tb

def deleteFromIndex (index : GoMap (List String)) (id subID : String) : GoMap (List String) :=
  if (index.slice id).contains subID then index.set id ((index.slice id).erase subID) else index

def removeFromIndex (id subID : String) : Handler ThinBroker := modify (fun tb =>
  { tb with entityId2Subcriptions := deleteFromIndex tb.entityId2Subcriptions id subID })

def indexOwn (subReq : SubscribeContextRequest) (subID : String) (entity : EntityId) :
    Handler ThinBroker :=
  seq lockE2sub (seq
    (if subReq.isSimplyByType then
      each (fun wildCard => addToIndex wildCard subID) (subReq.getTypeWildCards none)
    else addToIndex entity.id subID)
    unlockE2sub)

-- the part of subscribeContext that ends before discovery is asked
def subscribeContext (subReq : SubscribeContextRequest) (subID : String) : Handler ThinBroker :=
  seq (modify (fun tb => tb.putSubscription subID subReq))
    (if subReq.subscriber.isInternal then each (indexOwn subReq subID) subReq.entities else skip)

def unsubscribeContext (fromBroker : Bool) (subID : String) : Handler ThinBroker :=
  modify (fun tb =>
    let others := if fromBroker then [] else tb.subLinks.main2Other.slice subID
    { tb with subscriptions := (others.foldl GoMap.delete tb.subscriptions).delete subID })

-- the first one of the others is at discovery, and for the rest the provider is looked up
def deleteSubscription (sid : String) : Handler ThinBroker := fun tb =>
  if (tb.subLinks.main2Other.slice sid).tail.all (fun otherSubID =>
      (tb.subscriptions.get otherSubID).isSome) then
    ⟨{ tb with subscriptions := tb.subscriptions.delete sid }, .done⟩
  else ⟨tb, .panicked⟩

inductive Action where
  | create
  | update
  | delete
deriving DecidableEq, Repr

def actionOf (code : Int) : Action :=
  if code = 201 then .create else if code = 301 then .update
  else if code = 410 then .delete else .update

-- IsSimplyByType of the main subscription, which a nil pointer does not survive
def askSimplyByType (contextSubscription : Option SubscribeContextRequest)
    (k : SubscribeContextRequest → Bool → Handler ThinBroker) : Handler ThinBroker :=
  match contextSubscription with
  | none => fault
  | some request => k request request.isSimplyByType

def prosumerKey (eid : EntityId) : String :=
  if eid.isSimplyByType then eid.getTypeWildCard else eid.id

def addWildCards (request : SubscribeContextRequest) (eid : EntityId) (mainSubID : String) :
    Handler ThinBroker :=
  each (fun wildCard => addToIndex wildCard mainSubID) (request.getTypeWildCards (some eid))

def associateEntity (action : Action) (isProsumer : Bool)
    (contextSubscription : Option SubscribeContextRequest) (mainSubID : String) (eid : EntityId) :
    Handler ThinBroker :=
  match action with
  | .create =>
      if isProsumer then addToIndex (prosumerKey eid) mainSubID
      else askSimplyByType contextSubscription (fun request simplyByType =>
        if simplyByType then addWildCards request eid mainSubID
        else appendToIndex eid.id mainSubID)
  | .delete => removeFromIndex eid.id mainSubID
  | .update =>
      if isProsumer then addToIndex (prosumerKey eid) mainSubID
      else askSimplyByType contextSubscription (fun request simplyByType =>
        if simplyByType then addWildCards request eid mainSubID
        else addToIndex eid.id mainSubID)

-- the entities of a by-type subscription whose type is provided and not yet subscribed to
def missingEntities (index : GoMap (List String)) (mainSubID : String)
    (request : SubscribeContextRequest) (registration : ContextRegistration) : List EntityId :=
  request.entities.filter (fun subEntity =>
    match registration.entityIdList.find? (fun regEntity => subEntity.type == regEntity.type) with
    | some regEntity => !(index.slice regEntity.getTypeWildCard).contains mainSubID
    | none => false)

def remoteRequest (cfg : Config) (entities : List EntityId) (registration : ContextRegistration) :
    SubscribeContextRequest :=
  { SubscribeContextRequest.zero with
    entities := entities
    reference := cfg.myURL
    subscriber := { Subscriber.zero with brokerURL := registration.providingApplication } }

def ThinBroker.addRemote (tb : ThinBroker) (mainSubID sid : String)
    (request : SubscribeContextRequest) : ThinBroker :=
  { tb.putSubscription sid request with subLinks := tb.subLinks.addOther mainSubID sid }

-- the answer of the provider is the id of the new subscription, or none for an error
def subscribeRemote (cfg : Config) (action : Action) (mainSubID : String) (answer : Option String)
    (registration : ContextRegistration) (entities : List EntityId) : Handler ThinBroker :=
  if entities.isEmpty || action == .delete then skip
  else match answer with
    | none => skip
    | some sid => modify (fun tb =>
        tb.addRemote mainSubID sid (remoteRequest cfg entities registration))

-- for own entities the subscriber is sent their current state, which changes no map
def contactProvider (cfg : Config) (action : Action) (isProsumer : Bool)
    (contextSubscription : Option SubscribeContextRequest) (mainSubID : String)
    (answer : Option String) (registration : ContextRegistration) : Handler ThinBroker :=
  if registration.providingApplication = cfg.myURL then skip
  else if isProsumer then
    subscribeRemote cfg action mainSubID answer registration registration.entityIdList
  else askSimplyByType contextSubscription (fun request simplyByType tb =>
    subscribeRemote cfg action mainSubID answer registration
      (if simplyByType then
        missingEntities tb.entityId2Subcriptions mainSubID request registration
      else registration.entityIdList) tb)

def handleRegistration (cfg : Config) (action : Action) (isProsumer : Bool)
    (contextSubscription : Option SubscribeContextRequest) (mainSubID : String)
    (answer : Option String) (registration : ContextRegistration) : Handler ThinBroker :=
  seq (contactProvider cfg action isProsumer contextSubscription mainSubID answer registration)
    (each (fun eid => seq lockE2sub (seq
      (associateEntity action isProsumer contextSubscription mainSubID eid) unlockE2sub))
      registration.entityIdList)

-- with debugging enabled the log line asks the subscription for IsSimplyByType
def logSubscription (cfg : Config) (isProsumer : Bool)
    (contextSubscription : Option SubscribeContextRequest) : Handler ThinBroker :=
  if cfg.debugEnabled && !isProsumer then askSimplyByType contextSubscription (fun _ _ => skip)
  else skip

-- the second argument answers the subscriptions sent to other providers, one per registration
def handleNGSI9Notify (cfg : Config) (answers : Nat → Option String) (mainSubID : String)
    (req : NotifyContextAvailabilityRequest) (isProsumer : Bool) : Handler ThinBroker := fun tb =>
  let action := actionOf req.errorCode.code
  let contextSubscription := if isProsumer then none else tb.subscriptions.get mainSubID
  seq (logSubscription cfg isProsumer contextSubscription)
    (each (fun registrationResp => handleRegistration cfg action isProsumer contextSubscription
        mainSubID (answers registrationResp.2) registrationResp.1.contextRegistration)
      req.contextRegistrationResponseList.zipIdx) tb

def genProsumerSubID (subID : String) : String := subID ++ ":ffinternal"

def takeProsumerMetadata (subscriber : Subscriber) (metadata : ContextMetadata) :
    Option Subscriber :=
  match metadata.name, metadata.value with
  | "ngsiversion", .string value => some { subscriber with destinationType := value }
  | "Ngsild-Tenant", .string value => some { subscriber with tenant := value }
  | "Fiware-Correlator", .string value => some { subscriber with correlator := value }
  | "Require-Reliability", .bool value =>
      some { subscriber with requireReliability := value, notifyCache := [] }
  | name, _ =>
      if ["ngsiversion", "Ngsild-Tenant", "Fiware-Correlator", "Require-Reliability"].contains name
      then some subscriber else none

-- every recognised metadata entry subscribes once more, with what has been collected so far
def prosumerRequests (cfg : Config) (registration : ContextRegistration) :
    List SubscribeContextRequest :=
  (registration.metadata.foldl (fun (collected : Subscriber × List SubscribeContextRequest)
      metadata =>
    match takeProsumerMetadata collected.1 metadata with
    | none => collected
    | some subscriber =>
        let own := { subscriber with brokerURL := cfg.myURL, isInternal := true }
        (own, collected.2 ++ [{ SubscribeContextRequest.zero with
          entities := registration.entityIdList
          reference := registration.providingApplication
          subscriber := own }])) (Subscriber.zero, [])).2

def handleProsumerRegistration (cfg : Config) (answers : Nat → Option String)
    (notifyAvail : NotifyContextAvailabilityRequest) : Handler ThinBroker :=
  seq (each (fun registrationResp =>
      each (fun request => subscribeContext request (genProsumerSubID notifyAvail.subscriptionId))
        (prosumerRequests cfg registrationResp.contextRegistration))
      notifyAvail.contextRegistrationResponseList)
    (handleNGSI9Notify cfg answers notifyAvail.subscriptionId notifyAvail true)

end FogFlow.Broker
