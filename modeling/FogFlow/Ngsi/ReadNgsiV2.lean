import FogFlow.Ngsi.ReadNgsiLd

namespace FogFlow.Ngsi

open Fields Loop

-- the order of every loop over a map: of the entity, and of the metadata of each attribute
structure OrdersV2 where
  entity : String → Nat
  metadata : String → String → Nat

def readMetadataV2 (entry : GoMap.Entry Value) : Except Fault ContextMetadata := do
  let m ← asMap entry.2
  let type ← asString (valueAt m "type")
  .ok ⟨entry.1, type, valueAt m "value", .null⟩

def readAttributeMetadata (rank : String → Nat) (v2Attribute : GoMap Value) :
    Except Fault (List ContextMetadata) :=
  match v2Attribute.get "metadata" with
  | some attributeMetadata => do
      let metadataMap ← asMap attributeMetadata
      (metadataMap.range rank).mapM readMetadataV2
  | none => .ok []

def readAttributeV2 (rank : String → Nat) (k : String) (v2Attribute : GoMap Value) :
    Except Fault ContextAttribute := do
  let attrType ← asString (valueAt v2Attribute "type")
  let metadata ← readAttributeMetadata rank v2Attribute
  .ok ⟨k, attrType, valueAt v2Attribute "value", metadata⟩

-- the kind of a nil value is asked of a nil type
def readEntryV2 (orders : OrdersV2) (ce : ContextElement) (entry : GoMap.Entry Value) :
    Except Fault ContextElement :=
  let k := entry.1
  let v := entry.2
  match toLower k with
  | "id" => do
      let id ← asString v
      .ok { ce with entity := { ce.entity with id := id } }
  | "type" => do
      let type ← asString v
      .ok { ce with entity := { ce.entity with type := type } }
  | lower =>
      match v with
      | .null => .error .nilDereference
      | .object fields => do
          let newCtxAttribute ← readAttributeV2 (orders.metadata k) k (ofFields fields)
          let domainMetadata : List ContextMetadata :=
            if lower = "location" then
              [⟨k, newCtxAttribute.type, newCtxAttribute.value, .null⟩]
            else []
          .ok { ce with
            attributes := ce.attributes ++ [newCtxAttribute]
            metadata := ce.metadata ++ domainMetadata }
      | _ => .ok ce

def ContextElement.readFromNGSIv2 (orders : OrdersV2) (ce : ContextElement)
    (ngsiv2Entity : GoMap Value) : Except Fault (Bool × ContextElement) :=
  let ce := { ce with attributes := [], metadata := [] }
  if (ngsiv2Entity.get "id").isNone || (ngsiv2Entity.get "type").isNone then .ok (false, ce)
  else do
    let ce ← (ngsiv2Entity.range orders.entity).foldlM (readEntryV2 orders) ce
    .ok (true, ce)

end FogFlow.Ngsi
