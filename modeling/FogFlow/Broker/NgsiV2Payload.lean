import FogFlow.Ngsi.ReadNgsiV2

namespace FogFlow.Broker

open Ngsi Fields Loop

structure OrionV2Metadata where
  type : String
  value : Value

structure OrionV2Attribute where
  type : String
  value : Value
  metadata : GoMap OrionV2Metadata

-- what the converter stores behind the interface type of an element's map
inductive OrionV2Member where
  | text (s : String)
  | attr (a : OrionV2Attribute)

def toAttributeV2 (attr : ContextAttribute) : OrionV2Attribute :=
  ⟨attr.type, attr.value,
    ofFields (attr.metadata.map (fun mtd => (mtd.name, ⟨mtd.type, mtd.value⟩)))⟩

def toElementV2 (elem : ContextElement) : GoMap OrionV2Member :=
  let element := ((∅ : GoMap OrionV2Member).set "id" (.text elem.entity.id)).set "type"
    (.text elem.entity.type)
  let element := elem.attributes.foldl
    (fun element attr => element.set attr.name (.attr (toAttributeV2 attr))) element
  elem.metadata.foldl
    (fun element dmeta => element.set dmeta.name (.attr ⟨dmeta.type, dmeta.value, ∅⟩)) element

def toNGSIv2Payload (ctxElems : List ContextElement) : List (GoMap OrionV2Member) :=
  ctxElems.map toElementV2

section Marshal

variable (rawMessage : String → Json)

def OrionV2Metadata.toJson (m : OrionV2Metadata) : Json :=
  .object [("type", .string m.type), ("value", marshal rawMessage m.value)]

-- an empty map of metadata is omitted
def OrionV2Attribute.toJson (a : OrionV2Attribute) : Json :=
  .object ([("type", .string a.type), ("value", marshal rawMessage a.value)] ++
    if a.metadata.entries.isEmpty then []
    else [("metadata", .object (mapSnd (OrionV2Metadata.toJson rawMessage) (toFields a.metadata)))])

def OrionV2Member.toJson : OrionV2Member → Json
  | .text s => .string s
  | .attr a => a.toJson rawMessage

def elementJson (element : GoMap OrionV2Member) : Json :=
  .object (mapSnd (OrionV2Member.toJson rawMessage) (toFields element))

end Marshal

end FogFlow.Broker
