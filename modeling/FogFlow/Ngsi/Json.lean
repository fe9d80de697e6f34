import FogFlow.Library.Fields
import FogFlow.Ngsi.Value

namespace FogFlow.Ngsi

open Fields

-- a JSON text, its members in the order in which they are written
inductive Json where
  | null
  | bool (b : Bool)
  | number (q : ℚ)
  | string (s : String)
  | array (items : List Json)
  | object (members : List (String × Json))

def Point.toJson (p : Point) : Json :=
  .object [("latitude", .number p.latitude), ("longitude", .number p.longitude)]

section Marshal

variable (rawMessage : String → Json)

mutual

-- the keys of a map are written in order, the fields of a struct as it declares them
def marshal : Value → Json
  | .null => .null
  | .bool b => .bool b
  | .number q => .number q
  | .string s => .string s
  | .array items => .array (marshalItems items)
  | .object fields => .object (canonical (marshalFields fields))
  | .point p => p.toJson
  | .circle c =>
      .object [("centerLatitude", .number c.latitude), ("centerLongitude", .number c.longitude),
        ("radius", .number c.radius)]
  | .polygon p => .object [("vertices", .array (p.vertices.map Point.toJson))]
  | .segment s => .object [("nw_Corner", .string s.nwCorner), ("se_Corner", .string s.seCorner)]
  | .nearBy n =>
      .object [("latitude", .number n.latitude), ("longitude", .number n.longitude),
        ("limit", .number n.limit)]
  | .raw text => rawMessage text

def marshalItems : List Value → List Json
  | [] => []
  | item :: items => marshal item :: marshalItems items

def marshalFields : List (String × Value) → List (String × Json)
  | [] => []
  | field :: fields => (field.1, marshal field.2) :: marshalFields fields

end

end Marshal

mutual

-- what encoding/json stores behind the interface type: each object becomes a map
def unmarshal : Json → Value
  | .null => .null
  | .bool b => .bool b
  | .number q => .number q
  | .string s => .string s
  | .array items => .array (unmarshalItems items)
  | .object members => .object (canonical (unmarshalMembers members))

def unmarshalItems : List Json → List Value
  | [] => []
  | item :: items => unmarshal item :: unmarshalItems items

def unmarshalMembers : List (String × Json) → List (String × Value)
  | [] => []
  | member :: members => (member.1, unmarshal member.2) :: unmarshalMembers members

end

variable {rawMessage : String → Json}

theorem marshalItems_eq (items : List Value) :
    marshalItems rawMessage items = items.map (marshal rawMessage) := by
  induction items with
  | nil => rfl
  | cons item items ih => rw [marshalItems, ih, List.map_cons]

theorem marshalFields_eq (fields : List (String × Value)) :
    marshalFields rawMessage fields = mapSnd (marshal rawMessage) fields := by
  induction fields with
  | nil => rfl
  | cons field fields ih => rw [marshalFields, ih]; rfl

theorem unmarshalItems_eq (items : List Json) : unmarshalItems items = items.map unmarshal := by
  induction items with
  | nil => rfl
  | cons item items ih => rw [unmarshalItems, ih, List.map_cons]

theorem unmarshalMembers_eq (members : List (String × Json)) :
    unmarshalMembers members = mapSnd unmarshal members := by
  induction members with
  | nil => rfl
  | cons member members ih => rw [unmarshalMembers, ih]; rfl

-- the value that a receiver of the JSON of the value decodes
def received (rawMessage : String → Json) (v : Value) : Value := unmarshal (marshal rawMessage v)

theorem unmarshal_eq_null {j : Json} : unmarshal j = .null ↔ j = .null := by
  cases j <;> simp [unmarshal]

theorem ne_null_of_marshal {v : Value} (h : marshal rawMessage v ≠ .null) : v ≠ .null :=
  fun hv => h (by rw [hv, marshal])

theorem received_ne_null {v : Value} (h : marshal rawMessage v ≠ .null) :
    received rawMessage v ≠ .null :=
  fun hv => h (unmarshal_eq_null.mp hv)

@[simp] theorem received_null : received rawMessage .null = .null := rfl

@[simp] theorem received_string (s : String) :
    received rawMessage (.string s) = .string s := rfl

@[simp] theorem received_number (q : ℚ) : received rawMessage (.number q) = .number q := rfl

@[simp] theorem received_array (items : List Value) :
    received rawMessage (.array items) = .array (items.map (received rawMessage)) := by
  simp only [received, marshal, unmarshal, marshalItems_eq, unmarshalItems_eq, List.map_map]
  rfl

@[simp] theorem received_object (fields : List (String × Value)) :
    received rawMessage (.object fields) =
      .object (canonical (mapSnd (received rawMessage) fields)) := by
  have hmap : mapSnd unmarshal (mapSnd (marshal rawMessage) fields) =
      mapSnd (received rawMessage) fields := by
    simp [mapSnd, received]
  rw [received, marshal, unmarshal, marshalFields_eq, unmarshalMembers_eq,
    canonical_mapSnd_canonical, hmap]

-- a map behind the interface type
def ofMap (m : GoMap Value) : Value := .object (toFields m)

theorem ofMap_congr {m m' : GoMap Value} (h : ∀ k, m.get k = m'.get k) : ofMap m = ofMap m' :=
  congrArg Value.object (toFields_congr h)

-- json.Unmarshal into a map, which is an error for any other text
def unmarshalMap : Json → Option (GoMap Value)
  | .object members => some (ofFields (unmarshalMembers members))
  | _ => none

theorem unmarshalMap_marshal (rawMessage : String → Json) (m : GoMap Value) :
    ∃ m', unmarshalMap (marshal rawMessage (ofMap m)) = some m' ∧
      ∀ k, m'.get k = (m.get k).map (received rawMessage) := by
  refine ⟨_, rfl, fun k => ?_⟩
  rw [unmarshalMembers_eq, marshalFields_eq, get_ofFields_mapSnd, get_ofFields_canonical,
    get_ofFields_mapSnd, get_ofFields_toFields, Option.map_map]
  rfl

def receivedMap (rawMessage : String → Json) (m : GoMap Value) : GoMap Value :=
  ofFields (mapSnd (received rawMessage) (toFields m))

theorem get_receivedMap (m : GoMap Value) (k : String) :
    (receivedMap rawMessage m).get k = (m.get k).map (received rawMessage) := by
  rw [receivedMap, get_ofFields_mapSnd, get_ofFields_toFields]

theorem received_ofMap (m : GoMap Value) :
    received rawMessage (ofMap m) = ofMap (receivedMap rawMessage m) :=
  received_object _

mutual

-- a decoded value is sent and received unchanged
theorem received_unmarshal : ∀ j : Json, received rawMessage (unmarshal j) = unmarshal j
  | .null | .bool _ | .number _ | .string _ => rfl
  | .array items => by
      rw [unmarshal, unmarshalItems_eq, received_array, List.map_map]
      exact congrArg Value.array (List.map_congr_left (received_unmarshal_items items))
  | .object members => by
      rw [unmarshal, unmarshalMembers_eq, received_object, canonical_mapSnd_canonical]
      have hmap : mapSnd (received rawMessage) (mapSnd unmarshal members) =
          mapSnd unmarshal members := by
        simp only [mapSnd, List.map_map]
        exact List.map_congr_left (fun member hmember =>
          Prod.ext rfl (received_unmarshal_members members member hmember))
      rw [hmap]

theorem received_unmarshal_items : ∀ items : List Json, ∀ item ∈ items,
    received rawMessage (unmarshal item) = unmarshal item
  | [] => by simp
  | item :: items => by
      simp only [List.forall_mem_cons]
      exact ⟨received_unmarshal item, received_unmarshal_items items⟩

theorem received_unmarshal_members : ∀ members : List (String × Json), ∀ member ∈ members,
    received rawMessage (unmarshal member.2) = unmarshal member.2
  | [] => by simp
  | member :: members => by
      simp only [List.forall_mem_cons]
      exact ⟨received_unmarshal member.2, received_unmarshal_members members⟩

end

theorem received_received (v : Value) :
    received rawMessage (received rawMessage v) = received rawMessage v :=
  received_unmarshal _

-- a value that some JSON text decodes to
def IsJson (v : Value) : Prop := ∃ j, v = unmarshal j

theorem IsJson.received_eq {v : Value} (h : IsJson v) : received rawMessage v = v := by
  obtain ⟨j, rfl⟩ := h
  exact received_unmarshal j

theorem get_unmarshalMembers {W : Type} (f : W → Json) (fields : List (String × W)) (k : String) :
    (ofFields (unmarshalMembers (mapSnd f fields))).get k =
      ((ofFields fields).get k).map (fun w => unmarshal (f w)) := by
  rw [unmarshalMembers_eq, get_ofFields_mapSnd, get_ofFields_mapSnd, Option.map_map]
  rfl

end FogFlow.Ngsi
