import FogFlow.Library.Loop
import FogFlow.Ngsi.Context
import FogFlow.Ngsi.Json

namespace FogFlow.Ngsi

open Fields Loop

-- reading a missing key of a map yields nil
def valueAt (m : GoMap Value) (k : String) : Value := (m.get k).getD .null

def asString : Value → Except Fault String
  | .string s => .ok s
  | _ => .error .typeAssertion

def asFloat64 : Value → Except Fault ℚ
  | .number q => .ok q
  | _ => .error .typeAssertion

def asSlice : Value → Except Fault (List Value)
  | .array items => .ok items
  | _ => .error .typeAssertion

def asMap : Value → Except Fault (GoMap Value)
  | .object fields => .ok (ofFields fields)
  | _ => .error .typeAssertion

def ContextMetadata.readGeoJSON (metadata : ContextMetadata) (geojson : GoMap Value) :
    Except Fault ContextMetadata := do
  let locationType ← asString (valueAt geojson "type")
  if toLower locationType = "point" then do
    let coordinates ← asSlice (valueAt geojson "coordinates")
    let first ← index coordinates 0
    let longitude ← asFloat64 first
    let second ← index coordinates 1
    let latitude ← asFloat64 second
    .ok { metadata with
      type := "point"
      value := .point ⟨latitude, longitude⟩
      cordinates := .point ⟨latitude, longitude⟩ }
  else .ok metadata

-- the decoder has no integers, so the first case of the switch is never taken
def attributeType : Value → String
  | .number _ => "float"
  | .string _ => "string"
  | _ => "object"

def readMetadata (reserved : List String) (rank : String → Nat) (ldAttribute : GoMap Value) :
    List ContextMetadata :=
  ((ldAttribute.range rank).filter (fun e => toLower e.1 ∉ reserved)).map
    (fun e => ⟨e.1, e.1, e.2, .null⟩)

def readAttributeFromNGSILD (rank : String → Nat) (k : String) (ldAttribute : GoMap Value) :
    Except Fault ContextAttribute := do
  let attrType ← asString (valueAt ldAttribute "type")
  let attrValue := valueAt ldAttribute "value"
  if toLower attrType = "property" then
    .ok ⟨k, attributeType attrValue, attrValue, readMetadata ["type", "value"] rank ldAttribute⟩
  else if toLower attrType = "relationship" then
    .ok ⟨k, "relationship", valueAt ldAttribute "object",
      readMetadata ["type", "object"] rank ldAttribute⟩
  else .ok ⟨"", "", .null, []⟩

def ContextElement.zero : ContextElement := ⟨⟨"", false, ""⟩, "", [], []⟩

def ContextElement.addAttribute (ce : ContextElement) (newCtxAttribute : ContextAttribute) :
    ContextElement :=
  if newCtxAttribute.name ≠ "" ∧ newCtxAttribute.type ≠ "" ∧ newCtxAttribute.value ≠ .null then
    { ce with attributes := ce.attributes ++ [newCtxAttribute] }
  else ce

-- the order of every loop over a map: of the entity, and of each property by name and position
structure Orders where
  entity : String → Nat
  property : String → Nat → String → Nat

def readLocation (k : String) (ldAttribute : GoMap Value) : Except Fault ContextMetadata := do
  let attrType ← asString (valueAt ldAttribute "type")
  let attrValue := valueAt ldAttribute "value"
  if toLower attrType = "geoproperty" then do
    let geojson ← asMap attrValue
    ContextMetadata.readGeoJSON ⟨k, "", .null, .null⟩ geojson
  else .ok ⟨k, attrType, attrValue, .null⟩

def readItem (orders : Orders) (k : String) (ce : ContextElement) (item : Value × Nat) :
    Except Fault ContextElement :=
  match item.1 with
  | .object fields => do
      let newCtxAttribute ← readAttributeFromNGSILD (orders.property k item.2) k (ofFields fields)
      .ok (ce.addAttribute newCtxAttribute)
  | _ => .ok ce

def readEntry (orders : Orders) (ce : ContextElement) (entry : GoMap.Entry Value) :
    Except Fault ContextElement :=
  let k := entry.1
  let v := entry.2
  match toLower k with
  | "id" => do
      let id ← asString v
      .ok { ce with entity := { ce.entity with id := id } }
  | "type" => do
      let type ← asString v
      .ok { ce with entity := { ce.entity with type := type } }
  | "@context" => .ok ce
  | lower =>
      match v with
      | .object fields => do
          let ce ← readItem orders k ce (v, 0)
          if lower = "location" then do
            let domainMetadata ← readLocation k (ofFields fields)
            .ok { ce with metadata := ce.metadata ++ [domainMetadata] }
          else do
            let _ ← asString (valueAt (ofFields fields) "type")
            .ok ce
      | .array items => items.zipIdx.foldlM (readItem orders k) ce
      | _ => .ok ce

def ContextElement.readFromNGSILD (orders : Orders) (ce : ContextElement)
    (ngsildEntity : GoMap Value) : Except Fault (Bool × ContextElement) :=
  let ce := { ce with attributes := [] }
  if (ngsildEntity.get "id").isNone || (ngsildEntity.get "type").isNone then .ok (false, ce)
  else do
    let ce ← (ngsildEntity.range orders.entity).foldlM (readEntry orders) ce
    .ok (true, ce)

@[simp] theorem valueAt_toFields (m : GoMap Value) (k : String) :
    valueAt (ofFields (toFields m)) k = valueAt m k := by
  rw [valueAt, get_ofFields_toFields, valueAt]

theorem isJson_get_unmarshalMembers {members : List (String × Json)} {k : String} {v : Value}
    (h : (ofFields (unmarshalMembers members)).get k = some v) : IsJson v := by
  rw [unmarshalMembers_eq, get_ofFields_mapSnd, Option.map_eq_some_iff] at h
  obtain ⟨j, -, rfl⟩ := h
  exact ⟨j, rfl⟩

theorem isJson_valueAt {fields : List (String × Value)} (h : IsJson (.object fields))
    (k : String) : IsJson (valueAt (ofFields fields) k) := by
  obtain ⟨j, hj⟩ := h
  cases j with
  | object members =>
    obtain rfl := Value.object.inj hj
    rw [valueAt, get_ofFields_canonical]
    cases hget : (ofFields (unmarshalMembers members)).get k with
    | none => exact ⟨.null, rfl⟩
    | some v => exact isJson_get_unmarshalMembers hget
  | _ => cases hj

end FogFlow.Ngsi
