import FogFlow.Ngsi.Value
import FogFlow.Library.GoMap

namespace FogFlow.Ngsi

structure EntityId where
  type : String
  isPattern : Bool
  id : String
deriving DecidableEq, Repr

structure ContextAttribute where
  name : String
  type : String
  value : Value
  metadata : List ContextMetadata
deriving DecidableEq, Repr

-- the element also carries the Orion form of its type beside the one of its entity
structure ContextElement where
  entity : EntityId
  type : String
  attributes : List ContextAttribute
  metadata : List ContextMetadata
deriving DecidableEq, Repr

structure OperationScope where
  type : String
  value : Value
deriving DecidableEq, Repr

structure Restriction where
  scopes : List OperationScope
  cordinates : Value
  geometry : String
  georel : String
  restrictionType : String
deriving DecidableEq, Repr

def Restriction.zero : Restriction := ⟨[], .null, "", "", ""⟩

structure Subscriber where
  isInternal : Bool
  requireReliability : Bool
  brokerURL : String
  notifyCache : List ContextElement
  destinationType : String
  tenant : String
  correlator : String
  ngsildDelivery : String
  ngsildNotificationPath : String
deriving DecidableEq, Repr

def Subscriber.zero : Subscriber := ⟨false, false, "", [], "", "", "", "", ""⟩

structure SubscribeContextRequest where
  entities : List EntityId
  attributes : List String
  reference : String
  duration : String
  restriction : Restriction
  subscriber : Subscriber
deriving DecidableEq, Repr

def SubscribeContextRequest.zero : SubscribeContextRequest := ⟨[], [], "", "", .zero, .zero⟩

def genWildCard (type : String) : String := "*" ++ type

theorem genWildCard_injective {a b : String} (h : genWildCard a = genWildCard b) : a = b := by
  simpa [genWildCard] using h

def EntityId.getTypeWildCard (entityId : EntityId) : String := genWildCard entityId.type

def EntityId.isSimplyByType (entityId : EntityId) : Bool :=
  entityId.id == "" || entityId.id == ".*"

def ContextElement.getTypeWildCard (contextElement : ContextElement) : String :=
  if contextElement.type ≠ "" then genWildCard contextElement.type
  else genWildCard contextElement.entity.type

def SubscribeContextRequest.isSimplyByType (request : SubscribeContextRequest) : Bool :=
  request.restriction.scopes.isEmpty && request.entities.all EntityId.isSimplyByType

def SubscribeContextRequest.getTypeWildCards (request : SubscribeContextRequest)
    (entityId : Option EntityId) : List String :=
  match entityId with
  | some eid =>
      (request.entities.filter (fun entity => eid.type == entity.type)).map
        (fun entity => genWildCard entity.type)
  | none => request.entities.map (fun entity => genWildCard entity.type)

def ContextElement.cloneWithSelectedAttributes (ce : ContextElement)
    (selectedAttributes : List String) : ContextElement where
  entity := ce.entity
  type := ""
  attributes :=
    if selectedAttributes.isEmpty then ce.attributes
    else selectedAttributes.flatMap (fun requiredAttrName =>
      ce.attributes.filter (fun ctxAttr => ctxAttr.name == requiredAttrName))
  metadata := ce.metadata

structure StatusCode where
  code : Int
  reasonPhrase : String
deriving DecidableEq, Repr

structure ContextRegistrationAttribute where
  name : String
  type : String
  isDomain : Bool
deriving DecidableEq, Repr

structure ContextRegistration where
  entityIdList : List EntityId
  contextRegistrationAttributes : List ContextRegistrationAttribute
  metadata : List ContextMetadata
  providingApplication : String
deriving DecidableEq, Repr

structure RegisterContextRequest where
  contextRegistrations : List ContextRegistration
  duration : String
  registrationId : String
deriving DecidableEq, Repr

structure ContextRegistrationResponse where
  contextRegistration : ContextRegistration
  errorCode : StatusCode
deriving DecidableEq, Repr

structure NotifyContextAvailabilityRequest where
  subscriptionId : String
  contextRegistrationResponseList : List ContextRegistrationResponse
  errorCode : StatusCode
deriving DecidableEq, Repr

def NotifyContextAvailabilityRequest.isProsumerRegistration
    (notifyCtxAvail : NotifyContextAvailabilityRequest) : Bool :=
  notifyCtxAvail.contextRegistrationResponseList.any (fun registration =>
    registration.contextRegistration.metadata.any (fun metadata =>
      (toLower metadata.name == "keepproviderupdated" ||
        toLower metadata.type == "keepproviderupdated") && metadata.value == .bool true))

structure SubscribeContextAvailabilityRequest where
  entities : List EntityId
  attributes : List String
  reference : String
  duration : String
  restriction : Restriction
deriving DecidableEq, Repr

structure EntityRegistration where
  id : String
  type : String
  attributesList : GoMap ContextRegistrationAttribute
  metadataList : GoMap ContextMetadata
  providingApplication : String

-- the metadata map is keyed by name, so at most one entry can pass the test
def EntityRegistration.getLocation (registredEntity : EntityRegistration) : Except Fault Point :=
  match registredEntity.metadataList.values.find?
      (fun domainMeta => domainMeta.name == "location" && domainMeta.type == "point") with
  | some domainMeta =>
      match domainMeta.value with
      | .point location => .ok location
      | _ => .error .typeAssertion
  | none => .ok ⟨0, 0⟩

def EntityRegistration.update (registredEntity newUpdates : EntityRegistration) :
    EntityRegistration :=
  { registredEntity with
    type := if newUpdates.type ≠ "" then newUpdates.type else registredEntity.type
    providingApplication :=
      if newUpdates.providingApplication ≠ "" then newUpdates.providingApplication
      else registredEntity.providingApplication
    attributesList := newUpdates.attributesList.values.foldl
      (fun list a => list.set a.name a) registredEntity.attributesList
    metadataList := newUpdates.metadataList.values.foldl
      (fun list m => list.set m.name m) registredEntity.metadataList }

theorem getTypeWildCards_of_type {request : SubscribeContextRequest} {eid : EntityId} {w : String}
    (h : w ∈ request.getTypeWildCards (some eid)) : w = eid.getTypeWildCard := by
  simp only [SubscribeContextRequest.getTypeWildCards, List.mem_map, List.mem_filter,
    beq_iff_eq] at h
  obtain ⟨entity, ⟨_, ht⟩, rfl⟩ := h
  rw [EntityId.getTypeWildCard, ht]

end FogFlow.Ngsi
