import FogFlow.Ngsi.Context

namespace FogFlow.Broker

open Ngsi

-- what a value is once it has been encoded by one broker and decoded by another one
structure Codec where
  value : String → Value → Value
  metadata : ContextMetadata → ContextMetadata

def Codec.attribute (codec : Codec) (attr : ContextAttribute) : ContextAttribute :=
  { attr with
    value := codec.value attr.type attr.value
    metadata := attr.metadata.map codec.metadata }

-- the element with the id of its Orion form, which is apart from the one of its entity
structure PostedElement where
  id : String
  element : ContextElement

def PostedElement.eid (p : PostedElement) : String := p.element.entity.id

def PostedElement.isOrion (p : PostedElement) : Bool := p.id ≠ "" || p.element.type ≠ ""

-- MarshalJSON at the sender, where the Orion form leaves entityId and domainMetadata out
def PostedElement.transferred (codec : Codec) (p : PostedElement) : PostedElement :=
  if p.isOrion then
    ⟨p.id, ⟨⟨"", false, ""⟩, p.element.type, p.element.attributes.map codec.attribute, []⟩⟩
  else
    ⟨p.id, { p.element with
      attributes := p.element.attributes.map codec.attribute
      metadata := p.element.metadata.map codec.metadata }⟩

-- the parser of query responses and notifications, which reads entityId only
def PostedElement.received (codec : Codec) (p : PostedElement) : ContextElement :=
  { (p.transferred codec).element with type := "" }

def PostedElement.selected (attributes : List String) (p : PostedElement) : ContextElement :=
  p.element.cloneWithSelectedAttributes attributes

end FogFlow.Broker
