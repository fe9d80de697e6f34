import FogFlow.Broker.NotifiedElements
import FogFlow.Broker.Transfer
import FogFlow.Ngsi.AttributeJson

namespace FogFlow.Broker.ElementJson

open Ngsi PartialDecode PartialDecode.Decoded
open NotifiedElements (ContextElementResponse)

-- isPattern of the Orion form, which only the Orion form writes
structure WrittenElement where
  posted : PostedElement
  isPattern : String

def WrittenElement.marshalJSON (rawMessage : String → Json) (w : WrittenElement) : Json :=
  let element := w.posted.element
  let attributes := element.attributes.map (fun attr => attr.toJson rawMessage)
  if w.posted.isOrion then
    .object ([("id", .string w.posted.id), ("type", .string element.type),
      ("isPattern", .string w.isPattern)] ++ omitSlice "attributes" attributes)
  else
    .object ([("entityId", element.entity.toJson)] ++ omitSlice "attributes" attributes ++
      omitSlice "domainMetadata" (element.metadata.map (fun m => m.toJson rawMessage)))

def statusToJson (status : StatusCode) : Json :=
  .object ([("code", .number status.code)] ++ omitString "reasonPhrase" status.reasonPhrase)

structure WrittenResponse where
  contextElement : WrittenElement
  statusCode : StatusCode

def WrittenResponse.toJson (rawMessage : String → Json) (r : WrittenResponse) : Json :=
  .object [("contextElement", r.contextElement.marshalJSON rawMessage),
    ("statusCode", statusToJson r.statusCode)]

def toNGSIv1Payload (ctxElems : List WrittenElement) : List WrittenResponse :=
  ctxElems.map (fun elem => ⟨elem, ⟨200, "OK"⟩⟩)

-- the body that postNGSIV1NotifyContext posts
def notifyContextRequest (rawMessage : String → Json) (ctxElems : List WrittenElement)
    (subscriptionId : String) : Json :=
  .object ([("subscriptionId", .string subscriptionId), ("originator", .string "")] ++
    omitSlice "contextResponses" ((toNGSIv1Payload ctxElems).map (fun r => r.toJson rawMessage)))

-- the answer of NGSIV1_QueryContext
def queryContextResponse (rawMessage : String → Json) (matchedCtxElement : List WrittenElement) :
    Json :=
  .object (omitSlice "contextResponses"
      (matchedCtxElement.map (fun elem =>
        (⟨elem, ⟨200, ""⟩⟩ : WrittenResponse).toJson rawMessage)) ++
    [("errorCode", statusToJson ⟨200, "OK"⟩)])

-- the internal struct and the public one differ in their attributes
structure ElementObject (α : Type) where
  entity : EntityId
  id : String
  type : String
  isPattern : String
  attributes : List α
  metadata : List ContextMetadata

structure ResponseObject (α : Type) where
  contextElement : ElementObject α
  statusCode : StatusCode

structure Message (α : Type) where
  subscriptionId : String
  originator : String
  contextResponses : List (ResponseObject α)
  errorCode : StatusCode

inductive MessageType where
  | queryContextResponse
  | notifyContextRequest
deriving DecidableEq, Repr

section Decode

variable {α : Type} (mapstructure : MapDecode) (decodeAttr : Json → Decoded α)

def ElementObject.zero : ElementObject α := ⟨⟨"", false, ""⟩, "", "", "", [], []⟩

def ResponseObject.zero : ResponseObject α := ⟨.zero, ⟨0, ""⟩⟩

def Message.zero : Message α := ⟨"", "", [], ⟨0, ""⟩⟩

def elementMember (element : ElementObject α) (m : String × Json) : Decoded (ElementObject α) :=
  match foldName m.1 with
  | "ENTITYID" => (decodeObject entityIdMember element.entity m.2).map
      (fun eid => { element with entity := eid })
  | "ID" => (ofOption element.id (decodeString element.id m.2)).map
      (fun s => { element with id := s })
  | "TYPE" => (ofOption element.type (decodeString element.type m.2)).map
      (fun s => { element with type := s })
  | "ISPATTERN" => (ofOption element.isPattern (decodeString element.isPattern m.2)).map
      (fun s => { element with isPattern := s })
  | "ATTRIBUTES" => (decodeSlice decodeAttr element.attributes m.2).map
      (fun attrs => { element with attributes := attrs })
  | "DOMAINMETADATA" => (decodeSlice (decodeMetadata mapstructure) element.metadata m.2).map
      (fun ms => { element with metadata := ms })
  | _ => done element

def statusMember (status : StatusCode) (m : String × Json) : Decoded StatusCode :=
  match foldName m.1 with
  | "CODE" => (ofOption status.code (decodeInt status.code m.2)).map
      (fun n => { status with code := n })
  | "REASONPHRASE" => (ofOption status.reasonPhrase (decodeString status.reasonPhrase m.2)).map
      (fun s => { status with reasonPhrase := s })
  | _ => done status

def responseMember (r : ResponseObject α) (m : String × Json) : Decoded (ResponseObject α) :=
  match foldName m.1 with
  | "CONTEXTELEMENT" =>
      (decodeObject (elementMember mapstructure decodeAttr) r.contextElement m.2).map
        (fun element => { r with contextElement := element })
  | "STATUSCODE" => (decodeObject statusMember r.statusCode m.2).map
      (fun status => { r with statusCode := status })
  | _ => done r

def decodeResponse (j : Json) : Decoded (ResponseObject α) :=
  decodeObject (responseMember mapstructure decodeAttr) .zero j

def messageMember (messageType : MessageType) (message : Message α) (m : String × Json) :
    Decoded (Message α) :=
  match messageType, foldName m.1 with
  | _, "CONTEXTRESPONSES" =>
      (decodeSlice (decodeResponse mapstructure decodeAttr) message.contextResponses m.2).map
        (fun rs => { message with contextResponses := rs })
  | .queryContextResponse, "ERRORCODE" => (decodeObject statusMember message.errorCode m.2).map
      (fun status => { message with errorCode := status })
  | .notifyContextRequest, "SUBSCRIPTIONID" =>
      (ofOption message.subscriptionId (decodeString message.subscriptionId m.2)).map
        (fun s => { message with subscriptionId := s })
  | .notifyContextRequest, "ORIGINATOR" =>
      (ofOption message.originator (decodeString message.originator m.2)).map
        (fun s => { message with originator := s })
  | _, _ => done message

def decodeMessage (messageType : MessageType) (body : Json) : Decoded (Message α) :=
  decodeObject (messageMember mapstructure decodeAttr messageType) .zero body

end Decode

structure ParsedMessage where
  subscriptionId : String
  originator : String
  contextResponses : List ContextElementResponse
  errorCode : StatusCode

def mergedAttribute (parsed : List ContextAttribute)
    (internal : AttributeObject (Option (List Value)) × Nat) : Except Fault ContextAttribute :=
  match internal.1.value with
  | some value => .ok ⟨internal.1.name, internal.1.type, .array value, internal.1.metadata⟩
  | none => do
      let attr ← index parsed internal.2
      .ok ⟨internal.1.name, internal.1.type, attr.value, internal.1.metadata⟩

def mergedResponse (parsed : List (ResponseObject ContextAttribute))
    (internal : ResponseObject (AttributeObject (Option (List Value))) × Nat) :
    Except Fault ContextElementResponse := do
  let response ← index parsed internal.2
  let attributes ← internal.1.contextElement.attributes.zipIdx.mapM
    (mergedAttribute response.contextElement.attributes)
  .ok ⟨⟨response.contextElement.entity, "", attributes, internal.1.contextElement.metadata⟩,
    internal.1.statusCode⟩

-- the body is decoded twice, and the errors of both runs are ignored
def parseContextElementResponses (text : Json → String) (mapstructure : MapDecode)
    (messageType : MessageType) (body : Json) : Except Fault ParsedMessage := do
  let internal := (decodeMessage mapstructure (decodeInternalAttribute mapstructure) messageType
    body).value
  let parsed := (decodeMessage mapstructure (decodeAttribute text mapstructure) messageType
    body).value
  let contextResponses ← internal.contextResponses.zipIdx.mapM
    (mergedResponse parsed.contextResponses)
  .ok ⟨internal.subscriptionId, internal.originator, contextResponses, internal.errorCode⟩

end FogFlow.Broker.ElementJson
